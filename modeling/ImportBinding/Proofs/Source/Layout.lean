/-
  ImportBinding — reading lines of source.

  A row of code is a statement when it ends what it begins, or opens one bracket, or closes one.
  Where blocks are opened and closed in this way, the statements of the printed lines are their
  code and the stray rows of their documentation, each at the level of its line.

  * `IsStatement` and `IsClosing` are rows of code, and `Begins` follows how a row is put together;
  * `statementsFrom_rows`: of rows that are comments or statements the statements are read;
  * `Laid` are lines with their blocks, and `statements_render` says what is read of them:
    `Line.told` for each line.
-/
import ImportBinding.Proofs.Source.Rows
import ImportBinding.Proofs.Source.Scan
import ImportBinding.Proofs.Source.Statement

namespace ImportBinding

open Text

namespace Source

variable {text opening closing s t : String} {lines lines' : List Line} {level opened : Nat}
  {rest : List Char} {p q : Phase}

/-! ## Rows of code -/

/-- A text whose first character is no blank. -/
def Starts (text : String) : Prop :=
  ∃ c ∈ text.toList.head?, isBlank c = false

/-- A text whose last character is no blank. -/
def Ends (text : String) : Prop :=
  ∃ c ∈ text.toList.getLast?, isBlank c = false

instance (text : String) : Decidable (Starts text) :=
  Option.decidableExistsMem text.toList.head?

instance (text : String) : Decidable (Ends text) :=
  Option.decidableExistsMem text.toList.getLast?

theorem Starts.append (h : Starts s) (t : String) : Starts (s ++ t) := by
  obtain ⟨c, hc, hblank⟩ := h
  refine ⟨c, ?_, hblank⟩
  rw [String.toList_append, List.head?_append, Option.mem_def.1 hc]
  rfl

theorem Ends.append (h : Ends t) (s : String) : Ends (s ++ t) := by
  obtain ⟨c, hc, hblank⟩ := h
  refine ⟨c, ?_, hblank⟩
  rw [String.toList_append, List.getLast?_append, Option.mem_def.1 hc]
  rfl

/-- Blanks in front of a text are trimmed, and nothing else. -/
theorem trimmed_append (hstarts : Starts text) (hends : Ends text) {before : List Char}
    (hbefore : ∀ c ∈ before, isBlank c) : trimmed (before ++ text.toList) = text.toList := by
  obtain ⟨c, hc, hfirst⟩ := hstarts
  obtain ⟨d, hd, hlast⟩ := hends
  obtain ⟨tail, htail⟩ := List.head?_eq_some_iff.1 hc
  obtain ⟨init, hinit⟩ := List.getLast?_eq_some_iff.1 hd
  have hdrop : text.toList.dropWhile isBlank = text.toList := by
    rw [htail, List.dropWhile_cons_of_neg (by simp [hfirst])]
  rw [trimmed, List.dropWhile_append_of_pos hbefore, hdrop, hinit, List.reverse_append,
    List.reverse_singleton, List.singleton_append, List.dropWhile_cons_of_neg (by simp [hlast]),
    List.reverse_cons, List.reverse_reverse]

/-- A text that a statement may begin with. -/
def Begins (text : String) (q : Phase) : Prop :=
  Starts text ∧ Leads .start text q

/-- From `p` some characters go on in the statement, and leave so many brackets open. -/
def Phase.Lands (p : Phase) (text : List Char) (opened : Nat) : Prop :=
  ∃ ended, p.through text = some ⟨.code, opened, ended⟩

/-- A text that is one statement, and leaves so many brackets open. -/
def IsStatement (text : String) (opened : Nat) : Prop :=
  (Starts text ∧ Ends text) ∧ Phase.start.Lands text.toList opened

/-- A text that closes a bracket, and is one statement from there on. -/
def IsClosing (text : String) : Prop :=
  (Starts text ∧ Ends text) ∧
    ∃ c ∈ text.toList.head?, closes c ∧ (Phase.start.after c).Lands text.toList.tail 0

instance (text : String) (q : Phase) : Decidable (Begins text q) :=
  inferInstanceAs (Decidable (_ ∧ _))

instance (p : Phase) (text : List Char) (opened : Nat) : Decidable (p.Lands text opened) :=
  decidable_of_iff _ Bool.exists_bool.symm

instance (text : String) (opened : Nat) : Decidable (IsStatement text opened) :=
  inferInstanceAs (Decidable (_ ∧ Phase.Lands _ _ _))

instance (text : String) : Decidable (IsClosing text) :=
  @instDecidableAnd _ _ inferInstance (Option.decidableExistsMem text.toList.head?)

theorem Begins.append (hs : Begins s p) (ht : Leads p t q) : Begins (s ++ t) q :=
  ⟨hs.1.append t, hs.2.append ht⟩

theorem Begins.isStatement (hs : Begins s p) (ended : Bool)
    (ht : Leads p t ⟨.code, opened, ended⟩) (hends : Ends t) : IsStatement (s ++ t) opened :=
  ⟨⟨hs.1.append t, hends.append s⟩, ended, hs.2.append ht⟩

theorem begins_of_forall (hne : text ≠ "") (h : ∀ c ∈ text.toList, isSpelled c ∨ c = ':') :
    Begins text .start := by
  refine ⟨?_, neat_of_forall h⟩
  cases htext : text.toList with
  | nil => exact absurd (String.toList_eq_nil_iff.1 htext) hne
  | cons c rest => 
    rw [htext] at h
    exact ⟨c, by rw [htext]; rfl, isBlank_of_isSpelled (h c List.mem_cons_self)⟩

/-! ## Reading rows -/

theorem blank_spaces (n : Nat) : ∀ c ∈ List.replicate n ' ', isBlank c := by
  intro c hc
  obtain rfl := List.eq_of_mem_replicate hc
  rfl

theorem blank_indentation (depth : Nat) : ∀ c ∈ (Line.indentation depth).toList, isBlank c := by
  rw [Line.indentation, String.toList_ofList]
  exact blank_spaces _

theorem through_spaces (n : Nat) : Phase.start.through (List.replicate n ' ') = some .start := by
  induction n with
  | zero => rfl
  | succ n ih => exact ih

/-- Blanks are no statement. -/
theorem statement_of_blank {chunk : List Char} (h : ∀ c ∈ chunk, isBlank c) :
    statement level chunk = [] := by
  rw [statement, if_pos]
  rw [trimmed, List.dropWhile_eq_nil_iff.2 h]
  rfl

/-- A text with blanks in front is the statement that it is without them. -/
theorem statement_append (hstarts : Starts text) (hends : Ends text) {before : List Char}
    (hbefore : ∀ c ∈ before, isBlank c) :
    statement level (before ++ text.toList) = [.code level text] := by
  have hne : text.toList ≠ [] := by
    obtain ⟨c, hc, -⟩ := hstarts
    exact List.ne_nil_of_mem (List.mem_of_mem_head? hc)
  rw [statement, trimmed_append hstarts hends hbefore, if_neg hne,
    String.ofList_toList]

theorem toList_render_code {depth : Nat} : (Line.code depth text).render.toList ++ rest =
    (Line.indentation depth).toList ++ (text.toList ++ '\n' :: rest) := by
  simp [Line.render]

theorem through_indentation (depth : Nat) :
    Phase.start.through (Line.indentation depth).toList = some .start := by
  rw [Line.indentation, String.toList_ofList]
  exact through_spaces _

/-- The row of a statement is read as the statement. -/
theorem statementsFrom_row (h : IsStatement text opened) {depth : Nat} :
    statementsFrom level [] .start ((Line.code depth text).render.toList ++ rest) =
      .code level text :: statementsFrom (level + opened) [] .start rest := by
  obtain ⟨⟨hstarts, hends⟩, ended, hleads⟩ := h
  have hstop : Phase.next ⟨.code, opened, ended⟩ '\n' = (.stop, .start) := rfl
  rw [toList_render_code, statementsFrom_append level _ (through_indentation depth),
    statementsFrom_append level _ hleads, statementsFrom_stop hstop, List.nil_append,
    statement_append hstarts hends (blank_indentation depth)]
  rfl

/-- A closing bracket starts a statement. -/
theorem next_of_closes {c : Char} (h : closes c) :
    Phase.start.next c = (.cut, Phase.start.after c) := by
  simp only [closes, Bool.or_eq_true, beq_iff_eq] at h
  obtain (rfl | rfl) | rfl := h <;> decide

/-- The row of a closing bracket is read one level further out. -/
theorem statementsFrom_closing (h : IsClosing text) {depth : Nat} :
    statementsFrom (level + 1) [] .start ((Line.code depth text).render.toList ++ rest) =
      .code level text :: statementsFrom level [] .start rest := by
  obtain ⟨⟨hstarts, hends⟩, c, hc, hcloses, ended, hthrough⟩ := h
  obtain ⟨tail, htail⟩ := List.head?_eq_some_iff.1 hc
  rw [htail, List.tail_cons] at hthrough
  have hstop : Phase.next ⟨.code, 0, ended⟩ '\n' = (.stop, .start) := rfl
  have hlevel : level + 1 + Phase.start.opened - (if closes c then 1 else 0) = level := by
    rw [if_pos hcloses]
    rfl
  have hrow := @statement_append text level hstarts hends [] nofun
  rw [toList_render_code, statementsFrom_append _ _ (through_indentation depth), htail,
    List.cons_append, statementsFrom_cut (next_of_closes hcloses), List.nil_append,
    statement_of_blank (blank_indentation depth), List.nil_append, hlevel,
    statementsFrom_append _ _ hthrough, statementsFrom_stop hstop, List.singleton_append, ← htail]
  exact congrArg (· ++ _) hrow

/-! ## Reading comments -/

/-- Nothing of a comment is read up to the end of its row. -/
theorem statementsFrom_comment {chunk row : List Char} (hrow : '\n' ∉ row) :
    statementsFrom level chunk ⟨.comment, 0, false⟩ (row ++ '\n' :: rest) =
      statement level chunk ++ statementsFrom level [] .start rest := by
  induction row with
  | nil => rfl
  | cons c row ih =>
    obtain ⟨hc, hrow⟩ := not_or.1 (List.mem_cons.not.1 hrow)
    have hdrop : Phase.next ⟨.comment, 0, false⟩ c = (.drop, ⟨.comment, 0, false⟩) :=
      if_neg (Ne.symm hc)
    rw [List.cons_append, statementsFrom_drop hdrop, ih hrow]

theorem statementsFrom_row_comment {row : List Char} (hcomment : isComment row)
    (hrow : '\n' ∉ row) :
    statementsFrom level [] .start (row ++ '\n' :: rest) =
      statementsFrom level [] .start rest := by
  obtain ⟨n, text, rfl⟩ := exists_of_isComment hcomment
  have hslash : Phase.start.next '/' = (.keep, ⟨.slash, 0, false⟩) := by decide
  have hretract : Phase.next ⟨.slash, 0, false⟩ '/' = (.retract, ⟨.comment, 0, false⟩) := by decide
  rw [List.append_assoc, statementsFrom_append _ _ (through_spaces n), List.cons_append,
    List.cons_append, statementsFrom_keep hslash, statementsFrom_retract hretract,
    List.dropLast_concat, statementsFrom_comment (by simp_all), List.nil_append,
    statement_of_blank (blank_spaces n), List.nil_append]

/-- The statements of rows that are comments or statements. -/
theorem statementsFrom_rows (h : ∀ row ∈ rows s, isComment row ∨ IsStatement (.ofList row) 0) :
    statementsFrom level [] .start (s.toList ++ '\n' :: rest) =
      ((rows s).filter (!isComment ·)).map (fun row => .code level (.ofList row)) ++
        statementsFrom level [] .start rest := by
  have hrow (row : List Char) (hfeed : '\n' ∉ row)
      (hr : isComment row ∨ IsStatement (.ofList row) 0) (rest : List Char) :
      statementsFrom level [] .start (row ++ '\n' :: rest) =
        ([row].filter (!isComment ·)).map (fun row => .code level (.ofList row)) ++
          statementsFrom level [] .start rest := by
    cases hcomment : isComment row with
    | true => simp [hcomment, statementsFrom_row_comment hcomment hfeed]
    | false =>
      have hread := @statementsFrom_row _ level 0 rest (hr.resolve_left (by simp [hcomment])) 0
      have hzero : (Line.indentation 0).toList = [] := by decide
      rw [toList_render_code, hzero, List.nil_append, String.toList_ofList] at hread
      simpa [hcomment] using hread
  have hrows : ∀ rs : List (List Char), rs ≠ [] →
      (∀ row ∈ rs, '\n' ∉ row ∧ (isComment row ∨ IsStatement (.ofList row) 0)) →
      statementsFrom level [] .start (['\n'].intercalate rs ++ '\n' :: rest) =
        (rs.filter (!isComment ·)).map (fun row => .code level (.ofList row)) ++
          statementsFrom level [] .start rest := by
    intro rs
    induction rs with
    | nil => exact fun hne => absurd rfl hne
    | cons row rs ih =>
      intro _ hall
      obtain ⟨⟨hfeed, hr⟩, hrest⟩ := List.forall_mem_cons.1 hall
      cases rs with
      | nil =>
        rw [List.intercalate_singleton]
        exact hrow row hfeed hr rest
      | cons next rs =>
        have hsplit : row :: next :: rs = [row] ++ next :: rs := rfl
        rw [List.intercalate_cons_cons, List.append_assoc, List.append_assoc,
          List.singleton_append, hrow row hfeed hr, ih (List.cons_ne_nil _ _) hrest, hsplit,
          List.filter_append, List.map_append, List.append_assoc]
  have hs : s.toList = ['\n'].intercalate (rows s) := (List.intercalate_splitOn '\n').symm
  rw [hs]
  exact hrows _ (rows_ne_nil s) fun row hmem => ⟨newline_notMem_of_mem_rows hmem, h row hmem⟩

/-! ## Lines -/

/-- The line so many levels in. -/
def Line.raised (n : Nat) : Line → Line
  | .empty => .empty
  | .code depth text => .code (n + depth) text
  | .doc depth text => .doc (n + depth) text

theorem Line.raised_nested (n : Nat) (l : Line) : l.nested.raised n = l.raised (n + 1) := by
  cases l with
  | empty => rfl
  | code depth text | doc depth text => simp only [nested, raised]; rw [Nat.add_assoc, Nat.add_comm 1]

theorem Line.raised_zero (l : Line) : l.raised 0 = l := by
  cases l <;> simp [raised]

/-- Documentation whose stray rows are statements. -/
def Line.Clear : Line → Prop
  | .doc _ text => ∀ row ∈ stray text, IsStatement (.ofList row) 0
  | _ => True

/-- The statements that are read of a line.  Of documentation these are the stray rows. -/
def Line.told : Line → List Line
  | .empty => []
  | .code depth text => [.code depth text]
  | .doc depth text => (stray text).map fun row => .code depth (.ofList row)

theorem Line.clear_nested {l : Line} : l.nested.Clear ↔ l.Clear := by
  cases l <;> exact Iff.rfl

theorem clear_block : (∀ l ∈ block opening lines closing, l.Clear) ↔ ∀ l ∈ lines, l.Clear := by
  rw [block, List.cons_append, List.forall_mem_cons, List.forall_mem_append, nest,
    List.forall_mem_map]
  simp only [Line.clear_nested, List.forall_mem_singleton]
  exact ⟨fun h => h.2.1, fun h => ⟨trivial, h, trivial⟩⟩

theorem Line.told_nested (l : Line) : l.nested.told = nest l.told := by
  cases l with
  | empty | code depth text => rfl
  | doc depth text =>
    simp only [nested, told, nest, List.map_map]
    rfl

theorem told_nest (lines : List Line) :
    (nest lines).flatMap Line.told = nest (lines.flatMap Line.told) := by
  rw [nest, List.flatMap_map, nest, List.map_flatMap]
  exact List.flatMap_congr fun l _ => l.told_nested

theorem told_block (opening closing : String) (lines : List Line) :
    (block opening lines closing).flatMap Line.told =
      block opening (lines.flatMap Line.told) closing := by
  rw [block, List.flatMap_append, List.flatMap_cons, told_nest]
  rfl

/-- Lines of statements, where the statements of a block stand between one that opens a bracket
    and one that closes it. -/
inductive Laid : List Line → Prop where
  | nil : Laid []
  | empty {lines : List Line} (rest : Laid lines) : Laid (.empty :: lines)
  | doc {text : String} {lines : List Line} (rest : Laid lines) : Laid (doc text :: lines)
  | code {text : String} {lines : List Line} (here : IsStatement text 0) (rest : Laid lines) :
    Laid (code text :: lines)
  | block {opening closing : String} {inner lines : List Line} (opens : IsStatement opening 1)
    (inside : Laid inner) (closes : IsClosing closing) (rest : Laid lines) :
    Laid (block opening inner closing ++ lines)

namespace Laid

theorem append (h : Laid lines) (h' : Laid lines') : Laid (lines ++ lines') := by
  induction h with
  | nil => exact h'
  | empty _ ih => exact ih.empty
  | doc _ ih => exact ih.doc
  | code here _ ih => exact ih.code here
  | block opens inside closes _ _ ih =>
    rw [List.append_assoc]
    exact .block opens inside closes ih

theorem flatMap {α : Type} {f : α → List Line} {xs : List α} (h : ∀ x ∈ xs, Laid (f x)) :
    Laid (xs.flatMap f) := by
  induction xs with
  | nil => exact .nil
  | cons x xs ih =>
    obtain ⟨hx, hxs⟩ := List.forall_mem_cons.1 h
    exact hx.append (ih hxs)

/-- Leaving out documentation changes nothing. -/
theorem withoutDocs (h : Laid lines) : Laid (withoutDocs lines) := by
  induction h with
  | nil => exact .nil
  | empty _ ih => exact ih.empty
  | doc _ ih => exact ih
  | code here _ ih => exact ih.code here
  | block opens _ closes _ hinside hrest =>
    rw [withoutDocs_append, withoutDocs_block]
    exact .block opens hinside closes hrest

theorem map {α : Type} {f : α → Line} {xs : List α}
    (h : ∀ x ∈ xs, ∃ text, f x = Source.code text ∧ IsStatement text 0) : Laid (xs.map f) := by
  induction xs with
  | nil => exact .nil
  | cons x xs ih =>
    obtain ⟨⟨text, hf, htext⟩, hxs⟩ := List.forall_mem_cons.1 h
    rw [List.map_cons, hf]
    exact .code htext (ih hxs)

theorem single_block {opening closing : String} {inner : List Line}
    (opens : IsStatement opening 1) (inside : Laid inner) (closes : IsClosing closing) :
    Laid (Source.block opening inner closing) := by
  have h := Laid.block opens inside closes .nil
  rwa [List.append_nil] at h

end Laid

theorem toList_render_cons (l : Line) (lines : List Line) (rest : List Char) :
    (render (l :: lines)).toList ++ rest = l.render.toList ++ ((render lines).toList ++ rest) := by
  rw [render, List.map_cons, String.join_cons, String.toList_append, List.append_assoc]
  rfl

theorem toList_render_append (lines more : List Line) (rest : List Char) :
    (render (lines ++ more)).toList ++ rest =
      (render lines).toList ++ ((render more).toList ++ rest) := by
  induction lines with
  | nil => rfl
  | cons l lines ih =>
    rw [List.cons_append, toList_render_cons, toList_render_cons, ih]

theorem map_raised_nest (level : Nat) (lines : List Line) :
    (nest lines).map (Line.raised level) = lines.map (Line.raised (level + 1)) := by
  rw [nest, List.map_map]
  exact List.map_congr_left fun l _ => l.raised_nested level

theorem statementsFrom_doc (h : (doc text).Clear) :
    statementsFrom level [] .start ((Line.doc level text).render.toList ++ rest) =
      (Line.doc level text).told ++ statementsFrom level [] .start rest := by
  obtain ⟨first, hfirst, hrows⟩ := exists_rows_doc level text
  have hread : ∀ row ∈ rows (Line.doc level text).body,
      isComment row ∨ IsStatement (.ofList row) 0 := by
    rw [hrows]
    refine List.forall_mem_cons.2 ⟨Or.inl hfirst, fun row hrow => ?_⟩
    cases hcomment : isComment row with
    | true => exact Or.inl rfl
    | false => exact Or.inr (h row (mem_stray_iff.2 ⟨hrow, hcomment⟩))
  rw [Line.render_eq, String.toList_append, List.append_assoc]
  refine (statementsFrom_rows hread).trans ?_
  rw [hrows, List.filter_cons_of_neg (by simp [hfirst]), Line.told, stray]
  rfl

/-- The statements of printed lines are those of each line. -/
theorem statementsFrom_render (h : Laid lines) :
    ∀ level rest, (∀ l ∈ lines, l.Clear) →
      statementsFrom level [] .start ((render (lines.map (Line.raised level))).toList ++ rest) =
        (lines.map (Line.raised level)).flatMap Line.told ++
          statementsFrom level [] .start rest := by
  induction h with
  | nil => intros; rfl
  | empty _ ih =>
    intro level rest hclear
    have hraised : Line.empty.raised level = .empty := rfl
    have hrow : Line.empty.render.toList = ['\n'] := by decide
    rw [List.map_cons, hraised, toList_render_cons, hrow]
    exact ih level rest (List.forall_mem_cons.1 hclear).2
  | @doc text lines _ ih =>
    intro level rest hclear
    obtain ⟨hdoc, hlines⟩ := List.forall_mem_cons.1 hclear
    have hraised : (doc text).raised level = .doc level text := rfl
    rw [List.map_cons, hraised, toList_render_cons, statementsFrom_doc hdoc, ih level rest hlines,
      List.flatMap_cons, List.append_assoc]
  | @code text lines here _ ih =>
    intro level rest hclear
    have hraised : (code text).raised level = .code level text := rfl
    rw [List.map_cons, hraised, toList_render_cons, statementsFrom_row here]
    exact congrArg _ (ih level rest (List.forall_mem_cons.1 hclear).2)
  | @block opening closing inner lines opens _ closes _ hinner hlines =>
    intro level rest hclear
    obtain ⟨hblock, hrest⟩ := List.forall_mem_append.1 hclear
    have hnested : ∀ l ∈ inner, l.Clear := fun l hl => by
      have hmem : l.nested ∈ block opening inner closing :=
        List.mem_cons_of_mem _ (List.mem_append_left _ (List.mem_map_of_mem hl))
      exact Line.clear_nested.1 (hblock _ hmem)
    have hraised (text : String) : (code text).raised level = .code level text := rfl
    rw [block, List.cons_append, List.cons_append, List.append_assoc, List.singleton_append,
      List.map_cons, List.map_append, List.map_cons, map_raised_nest, hraised, hraised,
      toList_render_cons, statementsFrom_row opens, toList_render_append, hinner _ _ hnested,
      toList_render_cons, statementsFrom_closing closes, hlines _ _ hrest]
    simp [Line.told]

theorem statements_render (h : Laid lines) (hclear : ∀ l ∈ lines, l.Clear) :
    statements (render lines) = lines.flatMap Line.told := by
  have hzero : lines.map (Line.raised 0) = lines := by
    rw [funext Line.raised_zero, List.map_id']
  have hrender := statementsFrom_render h 0 [] hclear
  rw [hzero, List.append_nil] at hrender
  exact hrender.trans (List.append_nil _)

/-! ## Documentation -/

/-- Lines whose documentation is printed as comments. -/
def Commented (lines : List Line) : Prop :=
  ∀ l ∈ lines, l.isDoc → l.Clean

theorem Clean.commented (h : Clean lines) : Commented lines :=
  fun l hl _ => h l hl

theorem Commented.clear (h : Commented lines) : ∀ l ∈ lines, l.Clear := by
  intro l hl
  cases l with
  | empty | code => trivial
  | doc depth text =>
    have hnone : stray text = [] := stray_eq_nil_iff.2 (clean_doc_depth.1 (h _ hl rfl))
    rw [Line.Clear, hnone]
    exact nofun

/-- Of such documentation nothing is read. -/
theorem Commented.flatMap_told (h : Commented lines) :
    lines.flatMap Line.told = codeLines lines := by
  induction lines with
  | nil => rfl
  | cons l lines ih =>
    obtain ⟨hl, hlines⟩ := List.forall_mem_cons.1 h
    rw [List.flatMap_cons, ih hlines]
    cases l with
    | empty | code => rfl
    | doc depth text =>
      rw [Line.told, stray_eq_nil_iff.2 (clean_doc_depth.1 (hl rfl))]
      rfl

theorem Commented.scan_told (h : Commented lines) {α : Type}
    {read : List String → String → Option α} {scope : List String} :
    scan read scope (lines.flatMap Line.told) = scan read scope lines := by
  rw [h.flatMap_told, scan_codeLines]

theorem Commented.rooted_told (h : Commented lines) (hrooted : Rooted lines) :
    Rooted (lines.flatMap Line.told) := by
  rw [h.flatMap_told]
  exact hrooted.codeLines

theorem commented_code (text : String) : Commented [code text] :=
  List.forall_mem_singleton.2 fun hdoc => absurd hdoc Bool.false_ne_true

theorem commented_block : Commented (block opening lines closing) ↔ Commented lines := by
  have hdoc (l : Line) : l.nested.isDoc = l.isDoc := by cases l <;> rfl
  have hnest : Commented (nest lines) ↔ Commented lines := by
    simp only [Commented, nest, List.forall_mem_map, clean_nested, hdoc]
  have hopening := List.forall_mem_singleton.1 (commented_code opening)
  rw [block, List.cons_append, Commented, List.forall_mem_cons, List.forall_mem_append]
  exact ⟨fun h => hnest.1 h.2.1, fun h => ⟨hopening, hnest.2 h, commented_code closing⟩⟩

/-- The stray rows of documentation stand under nothing. -/
theorem rooted_told_doc (text : String) : Rooted (doc text).told := by
  rw [doc, Line.told]
  cases stray text <;> trivial

theorem scan_told_doc {α : Type} {read : List String → String → Option α} (text : String) :
    ∀ scope : List String, scan read scope (doc text).told =
      (stray text).filterMap fun row => read [] (.ofList row) := by
  rw [doc, Line.told]
  induction stray text with
  | nil => intro scope; rfl
  | cons row more ih =>
    intro scope
    rw [List.map_cons, scan, List.take_zero, ih, List.filterMap_cons]
    cases read [] (.ofList row) <;> rfl

theorem flatMap_told_documented (h : Commented lines) :
    (.empty :: doc text :: lines).flatMap Line.told = (doc text).told ++ codeLines lines := by
  rw [List.flatMap_cons, List.flatMap_cons, h.flatMap_told]
  rfl

theorem rooted_told_documented (h : Commented lines) (hrooted : Rooted lines) :
    Rooted ((.empty :: doc text :: lines).flatMap Line.told) := by
  rw [flatMap_told_documented h]
  exact (rooted_told_doc text).append hrooted.codeLines

end Source
end ImportBinding

/-
  ImportBinding — comments of a text.

  A row of a text is a comment when three slashes come first in it, but for spaces.  What is put
  into a text goes on in the row it is put in, and opens a row of its own after each of its line
  feeds.

  * `uncommented` is a text without its comments, and `rows_uncommented` tells its rows;
  * `Later` and `Bare` are what the rows of a text have to be where the text is to go into a
    comment, or into code;
  * `later_append_firm`, `bare_append_firm` and `later_intercalate` follow how texts are put
    together, and `flat_iff`: only what has no line feed goes into both;
  * `stray` are the rows that a text brings along where it goes into a comment.
-/
import ImportBinding.Proofs.Text.Whole
import ImportBinding.Text.Quoted

namespace ImportBinding.Text

variable {comment : Bool} {s t u : String}

/-! ## Rows -/

/-- The rows of a text, parted by its line feeds. -/
def rows (s : String) : List (List Char) :=
  s.toList.splitOn '\n'

/-- Whether three slashes come first in a row, but for spaces. -/
def isComment (row : List Char) : Bool :=
  (List.replicate 3 '/').isPrefixOf (row.dropWhile (· == ' '))

/-- The text without the rows that are comments. -/
def uncommented (s : String) : String :=
  .ofList (['\n'].intercalate ((rows s).filter (!isComment ·)))

theorem rows_ne_nil (s : String) : rows s ≠ [] :=
  List.splitOn_ne_nil '\n' s.toList

/-- A text is told by its rows. -/
theorem rows_inj : rows s = rows t ↔ s = t := by
  refine ⟨fun h => String.toList_inj.1 ?_, congrArg rows⟩
  rw [← @List.intercalate_splitOn _ s.toList _ _ '\n', ← rows, h, rows, List.intercalate_splitOn]

theorem rows_append_newline (s t : String) : rows (s ++ "\n" ++ t) = rows s ++ rows t := by
  have happend : (s ++ "\n" ++ t).toList = s.toList ++ '\n' :: t.toList := by simp
  rw [rows, happend, List.splitOn_append_cons_self]
  rfl

/-- No row has a line feed in it. -/
theorem newline_notMem_of_mem_rows {row : List Char} (h : row ∈ rows s) : '\n' ∉ row :=
  notMem_of_mem_splitOn h

/-- A text without its comments has the rows that are none, if there is one. -/
theorem rows_uncommented (h : (rows s).filter (!isComment ·) ≠ []) :
    rows (uncommented s) = (rows s).filter (!isComment ·) := by
  have hrow : ∀ row ∈ (rows s).filter (!isComment ·), '\n' ∉ row := fun row hmem =>
    newline_notMem_of_mem_rows (List.mem_filter.1 hmem).1
  rw [uncommented, rows.eq_def (String.ofList _), String.toList_ofList,
    List.splitOn_intercalate '\n' hrow h]

/-! ## Comments -/

theorem isComment_space (row : List Char) : isComment (' ' :: row) = isComment row := rfl

theorem isComment_cons {c : Char} (hc : c ≠ ' ') (row : List Char) :
    isComment (c :: row) = (List.replicate 3 '/').isPrefixOf (c :: row) := by
  rw [isComment, List.dropWhile_cons_of_neg (by simp [hc])]

theorem isComment_slashes (row : List Char) : isComment ('/' :: '/' :: '/' :: row) = true := by
  simp [isComment]

theorem isComment_spaces (n : Nat) (row : List Char) :
    isComment (List.replicate n ' ' ++ row) = isComment row := by
  induction n with
  | zero => rfl
  | succ n ih => exact ih

/-- A comment is slashes behind spaces, and a text. -/
theorem exists_of_isComment {row : List Char} (h : isComment row) :
    ∃ n text, row = List.replicate n ' ' ++ '/' :: '/' :: text := by
  obtain ⟨text, htext⟩ := List.isPrefixOf_iff_prefix.1 h
  refine ⟨(row.takeWhile (· == ' ')).length, '/' :: text, ?_⟩
  have hspaces : row.takeWhile (· == ' ') =
      List.replicate (row.takeWhile (· == ' ')).length ' ' :=
    List.eq_replicate_iff.2 ⟨rfl, fun c hc =>
      beq_iff_eq.1 (@List.mem_takeWhile_imp _ (· == ' ') row c hc)⟩
  rw [← hspaces]
  exact (List.takeWhile_append_dropWhile.symm).trans (congrArg _ htext.symm)

/-- Slashes that come first in a text do so whatever follows it, unless that is a slash. -/
theorem isPrefixOf_slashes_append {after : List Char} (h : after.head? ≠ some '/') (n : Nat) :
    ∀ row : List Char, (List.replicate n '/').isPrefixOf (row ++ after) =
      (List.replicate n '/').isPrefixOf row := by
  induction n with
  | zero => intro row; simp
  | succ n ih =>
    intro row
    cases row with
    | nil =>
      cases after with
      | nil => rfl
      | cons c after =>
        have hc : ('/' == c) = false := beq_eq_false_iff_ne.2 fun he => h (by rw [he]; rfl)
        rw [List.nil_append, List.replicate_succ, List.isPrefixOf_cons_cons, hc]
        rfl
    | cons c row =>
      rw [List.cons_append, List.replicate_succ, List.isPrefixOf_cons_cons, ih,
        List.isPrefixOf_cons_cons]

/-- What follows the start of a row does not make it a comment, unless it is a slash, or spaces
    only go before it. -/
theorem isComment_append {row after : List Char} (hslash : after.head? ≠ some '/')
    (hspace : after.head? = some ' ' → ∃ c ∈ row, c ≠ ' ') :
    isComment (row ++ after) = isComment row := by
  induction row with
  | nil =>
    cases after with
    | nil => rfl
    | cons c after =>
      have hc : c ≠ ' ' := by
        rintro rfl
        obtain ⟨d, hd, -⟩ := hspace rfl
        cases hd
      rw [List.nil_append, isComment_cons hc]
      exact isPrefixOf_slashes_append hslash 3 []
  | cons c row ih =>
    by_cases hc : c = ' '
    · subst hc
      rw [List.cons_append, isComment_space, isComment_space]
      refine ih fun hhead => ?_
      obtain ⟨d, hd, hne⟩ := hspace hhead
      exact ⟨d, (List.mem_cons.1 hd).resolve_left hne, hne⟩
    · rw [List.cons_append, isComment_cons hc, isComment_cons hc, ← List.cons_append]
      exact isPrefixOf_slashes_append hslash 3 (c :: row)

/-- The first row of a text tells whether the text starts with a comment. -/
theorem isComment_of_splitOn {text first : List Char} {rest : List (List Char)}
    (h : text.splitOn '\n' = first :: rest) : isComment text = isComment first := by
  have htext := @List.intercalate_splitOn _ text _ _ '\n'
  rw [h] at htext
  cases rest with
  | nil => rw [← htext, List.intercalate_singleton]
  | cons second rest =>
    rw [← htext, List.intercalate_cons_cons, List.append_assoc]
    exact isComment_append (by simp) (by simp)

/-! ## Later rows -/

/-- The rows of a text after the first are all comments, or none of them is. -/
def Later (comment : Bool) (s : String) : Prop :=
  ∀ row ∈ (rows s).tail, isComment row = comment

/-- No row of a text is a comment. -/
def Bare (s : String) : Prop :=
  ∀ row ∈ rows s, isComment row = false

/-- A text of one row. -/
def Flat (s : String) : Prop :=
  '\n' ∉ s.toList

/-- A text whose first character is no space and no slash. -/
def Firm (s : String) : Prop :=
  ∃ c ∈ s.toList.head?, c ≠ ' ' ∧ c ≠ '/'

instance (comment : Bool) (s : String) : Decidable (Later comment s) :=
  inferInstanceAs (Decidable (∀ row ∈ (rows s).tail, _))

instance (s : String) : Decidable (Bare s) :=
  inferInstanceAs (Decidable (∀ row ∈ rows s, _))

instance (s : String) : Decidable (Flat s) :=
  inferInstanceAs (Decidable (_ ∉ _))

instance (s : String) : Decidable (Firm s) :=
  Option.decidableExistsMem s.toList.head?

/-- The texts that follow the line feeds of a text are those of its rest, and the rest itself
    after a line feed. -/
theorem forall_after_cons_iff {p : List Char → Prop} {c : Char} {text : List Char} :
    (∀ before after, c :: text = before ++ '\n' :: after → p after) ↔
      (c = '\n' → p text) ∧ ∀ before after, text = before ++ '\n' :: after → p after := by
  constructor
  · intro h
    refine ⟨fun hc => h [] text (by rw [hc]; rfl), fun before after happend => ?_⟩
    exact h (c :: before) after (by rw [happend]; rfl)
  · rintro ⟨hfirst, hrest⟩ before after happend
    cases before with
    | nil =>
      obtain ⟨hc, rfl⟩ := List.cons.inj happend
      exact hfirst hc
    | cons d before => exact hrest before after (List.cons.inj happend).2

/-- The rows after the first are those that follow a line feed. -/
theorem later_iff : Later comment s ↔
    ∀ before after, s.toList = before ++ '\n' :: after → isComment after = comment := by
  rw [Later, rows]
  generalize s.toList = text
  induction text with
  | nil => simp [List.splitOn_nil]
  | cons c text ih =>
    obtain ⟨first, rest, hrows⟩ := List.exists_cons_of_ne_nil (List.splitOn_ne_nil '\n' text)
    rw [hrows, List.tail_cons] at ih
    rw [List.splitOn_cons_eq_if_modifyHead, hrows, forall_after_cons_iff, ← ih]
    split
    · next hc =>
      rw [List.tail_cons, List.forall_mem_cons, isComment_of_splitOn hrows]
      exact and_congr_left' (imp_iff_right (beq_iff_eq.1 hc)).symm
    · next hc =>
      rw [List.modifyHead_cons, List.tail_cons]
      exact (and_iff_right fun he => absurd (beq_iff_eq.2 he) hc).symm

/-- The first row of a text is told by the text. -/
theorem forall_rows_iff : (∀ row ∈ rows s, isComment row = comment) ↔
    isComment s.toList = comment ∧ Later comment s := by
  rw [Later]
  obtain ⟨first, rest, hrows⟩ := List.exists_cons_of_ne_nil (rows_ne_nil s)
  rw [hrows, List.forall_mem_cons, List.tail_cons, isComment_of_splitOn hrows]

theorem bare_iff : Bare s ↔ isComment s.toList = false ∧ Later false s :=
  forall_rows_iff

/-- A literal is checked by its characters. -/
theorem flat_ofList {chars : List Char} (h : '\n' ∉ chars) : Flat (.ofList chars) := by
  rw [Flat, String.toList_ofList]
  exact h

theorem firm_ofList {c : Char} {chars : List Char} (h : c ≠ ' ' ∧ c ≠ '/') :
    Firm (.ofList (c :: chars)) := by
  rw [Firm, String.toList_ofList]
  exact ⟨c, rfl, h⟩

/-- What has no line feed goes in front of the first row. -/
theorem rows_append (h : Flat s) (t : String) :
    rows (s ++ t) = (rows t).modifyHead (s.toList ++ ·) := by
  rw [Flat] at h
  rw [rows, rows, String.toList_append]
  generalize s.toList = text at h
  induction text with
  | nil => exact (congrFun List.modifyHead_id _).symm
  | cons c text ih =>
    obtain ⟨hc, htext⟩ := not_or.1 (List.mem_cons.not.1 h)
    rw [List.cons_append, List.splitOn_cons_eq_if_modifyHead, if_neg (by simpa using Ne.symm hc),
      ih htext, List.modifyHead_modifyHead]
    rfl

theorem Flat.later (h : Flat s) (comment : Bool) : Later comment s := by
  rw [later_iff]
  intro before after happend
  exact absurd (by rw [happend]; simp) h

theorem Flat.later_iff (h : Flat s) : Later comment s ↔ True :=
  iff_true_intro (h.later comment)

/-- Only what has no line feed goes into comments and into code. -/
theorem flat_iff : Flat s ↔ Later true s ∧ Later false s := by
  refine ⟨fun h => ⟨h.later true, h.later false⟩, fun ⟨htrue, hfalse⟩ hmem => ?_⟩
  obtain ⟨before, after, happend⟩ := List.append_of_mem hmem
  have hcomment := later_iff.1 htrue before after happend
  rw [later_iff.1 hfalse before after happend] at hcomment
  cases hcomment

/-! ## Texts put together -/

theorem flat_append_iff : Flat (s ++ t) ↔ Flat s ∧ Flat t := by
  rw [Flat, String.toList_append, List.mem_append, not_or]
  exact Iff.rfl

theorem Firm.append (h : Firm s) (t : String) : Firm (s ++ t) := by
  obtain ⟨c, hc, hne⟩ := h
  refine ⟨c, ?_, hne⟩
  rw [String.toList_append, List.head?_append, Option.mem_def.1 hc]
  rfl

/-- A row goes on without a change when something firm follows it. -/
theorem Firm.isComment_append (h : Firm t) (row : List Char) :
    isComment (row ++ t.toList) = isComment row := by
  obtain ⟨c, hc, hspace, hslash⟩ := h
  have hhead := Option.mem_def.1 hc
  exact Text.isComment_append (by rw [hhead]; simpa using hslash) (by rw [hhead]; simp [hspace])

theorem Firm.isComment_eq_false (h : Firm s) : isComment s.toList = false :=
  h.isComment_append []

/-- The later rows of two texts put together, when the second changes no row of the first. -/
theorem later_append_of_goes_on
    (h : ∀ before after, s.toList = before ++ '\n' :: after →
      isComment (after ++ t.toList) = isComment after) :
    Later comment (s ++ t) ↔ Later comment s ∧ Later comment t := by
  simp only [later_iff, String.toList_append]
  constructor
  · intro hall
    refine ⟨fun before after happend => ?_, fun before after happend => ?_⟩
    · rw [← h before after happend]
      refine hall before _ ?_
      rw [happend, List.append_assoc, List.cons_append]
    · refine hall (s.toList ++ before) after ?_
      rw [happend, List.append_assoc]
  · rintro ⟨hs, ht⟩ before after happend
    rcases List.append_eq_append_iff.1 happend with ⟨more, -, hmore⟩ | ⟨more, hmore, htail⟩
    · exact ht more after hmore
    · cases more with
      | nil => exact ht [] after htail.symm
      | cons c more =>
        have hafter : after = more ++ t.toList := (List.cons.inj htail).2
        obtain rfl := (List.cons.inj htail).1
        rw [hafter, h before more hmore]
        exact hs before more hmore

theorem later_append_firm (h : Firm t) :
    Later comment (s ++ t) ↔ Later comment s ∧ Later comment t :=
  later_append_of_goes_on fun _ after _ => h.isComment_append after

theorem later_append_firm_append (h : Firm t) :
    Later comment (s ++ (t ++ u)) ↔ Later comment s ∧ Later comment (t ++ u) :=
  later_append_firm (h.append u)

theorem later_append_flat (h : Flat s) : Later comment (s ++ t) ↔ Later comment t := by
  refine (later_append_of_goes_on fun before after happend => ?_).trans
    (and_iff_right (h.later comment))
  exact absurd (by rw [happend]; simp) h

theorem bare_of_firm (h : Firm s) : Bare s ↔ Later false s :=
  bare_iff.trans (and_iff_right h.isComment_eq_false)

theorem bare_of_flat (hfirm : Firm s) (hflat : Flat s) : Bare s :=
  (bare_of_firm hfirm).2 (hflat.later false)

theorem bare_append_flat (hfirm : Firm s) (hflat : Flat s) : Bare (s ++ t) ↔ Later false t := by
  rw [bare_of_firm (hfirm.append t), later_append_flat hflat]

theorem bare_append_firm (h : Firm t) : Bare (s ++ t) ↔ Bare s ∧ Later false t := by
  rw [bare_iff, bare_iff, String.toList_append, h.isComment_append, later_append_firm h, and_assoc]

theorem later_intercalate (texts : List String) :
    Later comment (", ".intercalate texts) ↔ ∀ text ∈ texts, Later comment text := by
  induction texts with
  | nil => simp [Later, rows, List.splitOn_nil]
  | cons text texts ih =>
    cases texts with
    | nil => simp
    | cons next texts =>
      have hcomma : Firm (", " ++ ", ".intercalate (next :: texts)) := Firm.append (by decide) _
      rw [String.intercalate_cons_cons, String.append_assoc, later_append_firm hcomma,
        later_append_flat (by decide), ih]
      exact List.forall_mem_cons.symm

/-! ## Stray rows -/

/-- The rows of a text after the first that are no comments. -/
@[irreducible] def stray (s : String) : List (List Char) :=
  (rows s).tail.filter (!isComment ·)

/-- A text whose last row is a comment, unless it is the first. -/
def Capped (s : String) : Prop :=
  ∀ row ∈ (rows s).tail.getLast?, isComment row

instance (s : String) : Decidable (Capped s) :=
  inferInstanceAs (Decidable (∀ row ∈ (rows s).tail.getLast?, _))

theorem mem_stray_iff {row : List Char} :
    row ∈ stray s ↔ row ∈ (rows s).tail ∧ isComment row = false := by
  simp [stray]

theorem stray_eq_nil_iff : stray s = [] ↔ Later true s := by
  simp [stray, Later]

/-- What has no line feed goes on in the last row. -/
theorem exists_rows_append (s : String) (h : Flat t) :
    ∃ before last, rows s = before ++ [last] ∧ rows (s ++ t) = before ++ [last ++ t.toList] := by
  have hsingle : t.toList.splitOn '\n' = [t.toList] := by
    refine List.splitOnP_eq_singleton fun c hc => beq_eq_false_iff_ne.2 ?_
    rintro rfl
    exact h hc
  rw [rows, rows, String.toList_append]
  generalize s.toList = text
  induction text with
  | nil => exact ⟨[], [], rfl, hsingle⟩
  | cons c text ih =>
    obtain ⟨before, last, htext, happend⟩ := ih
    rw [List.cons_append, List.splitOn_cons_eq_if_modifyHead, List.splitOn_cons_eq_if_modifyHead,
      htext, happend]
    split
    · exact ⟨[] :: before, last, rfl, rfl⟩
    · cases before with
      | nil => exact ⟨[], c :: last, rfl, rfl⟩
      | cons row before => exact ⟨(c :: row) :: before, last, rfl, rfl⟩

theorem stray_append_flat (h : Flat s) (t : String) : stray (s ++ t) = stray t := by
  rw [stray, stray, rows_append h, List.tail_modifyHead]

/-- What goes on in a comment makes no row stray. -/
theorem stray_append_firm (h : Capped s) (hflat : Flat t) (hfirm : Firm t) :
    stray (s ++ t) = stray s := by
  obtain ⟨before, last, hrows, happend⟩ := exists_rows_append s hflat
  rw [stray, stray, hrows, happend]
  cases before with
  | nil => rfl
  | cons first before =>
    have hlast : isComment last := h last (by rw [hrows]; simp)
    have hmore : isComment (last ++ t.toList) := by rwa [hfirm.isComment_append]
    rw [List.cons_append, List.cons_append, List.tail_cons, List.tail_cons, List.filter_append,
      List.filter_append, List.filter_cons_of_neg (by simp [hmore]),
      List.filter_cons_of_neg (by simp [hlast])]

/-! ## Literals and types -/

/-- Only digits are in a hexadecimal number. -/
theorem notMem_toDigits {c : Char} (hc : ∀ d < 16, c ≠ Nat.digitChar d) (n : Nat) :
    c ∉ Nat.toDigits 16 n := by
  have hcore : ∀ fuel n acc, c ∉ acc → c ∉ Nat.toDigitsCore 16 fuel n acc := by
    intro fuel
    induction fuel with
    | zero => intro n acc h; exact h
    | succ fuel ih =>
      intro n acc h
      have hnext : c ∉ Nat.digitChar (n % 16) :: acc := fun hmem =>
        (List.mem_cons.1 hmem).elim (hc _ (Nat.mod_lt n (by decide))) h
      rw [Nat.toDigitsCore]
      split
      · exact hnext
      · exact ih _ _ hnext
  exact hcore _ _ _ List.not_mem_nil

theorem newline_notMem_escape (c : Char) : '\n' ∉ escape c := by
  unfold escape
  split
  case h_7 hne _ _ _ =>
    split
    · exact fun hmem => hne (List.mem_singleton.1 hmem).symm
    · have hdigits := notMem_toDigits (c := '\n') (by decide) c.toNat
      simp [codePoint, hdigits]
  all_goals decide

/-- A quoted literal has no line feed in it. -/
theorem flat_quote (s : String) : Flat (quote s) := by
  rw [Flat, quote, String.toList_ofList]
  simp [newline_notMem_escape]

/-- A text that ends in a character that is no blank. -/
def Tight (s : String) : Prop :=
  ∃ start c, s.toList = start ++ [c] ∧ isBlank c = false

theorem tight_trim (h : trim s ≠ "") : Tight (trim s) := by
  have htrim : (trim s).toList = trimmed s.toList := String.toList_ofList
  have hne : ((s.toList.dropWhile isBlank).reverse).dropWhile isBlank ≠ [] := by
    intro hnil
    refine h (String.toList_inj.1 ?_)
    rw [htrim, trimmed, hnil]
    rfl
  obtain ⟨c, rest, hrest⟩ := List.exists_cons_of_ne_nil hne
  refine ⟨rest.reverse, c, ?_, ?_⟩
  · rw [htrim, trimmed, hrest, List.reverse_cons]
  · have hhead := List.head?_dropWhile_not isBlank (s.toList.dropWhile isBlank).reverse
    rw [hrest] at hhead
    exact hhead

/-- A space may follow a text that does not end in a blank. -/
theorem later_append_space (h : Tight s) :
    Later comment (s ++ (" " ++ t)) ↔ Later comment s ∧ Later comment t := by
  obtain ⟨start, c, hlast, hc⟩ := h
  have hspace : (" " ++ t).toList = ' ' :: t.toList := by simp
  have hgoes : ∀ before after, s.toList = before ++ '\n' :: after →
      isComment (after ++ (" " ++ t).toList) = isComment after := by
    intro before after happend
    rw [hspace]
    refine isComment_append (by simp) fun _ => ⟨c, ?_, ?_⟩
    · -- The last character is in the last row, since a line feed is a blank.
      rw [hlast] at happend
      rcases List.eq_nil_or_concat after with rfl | ⟨init, d, rfl⟩
      · rw [List.singleton_inj.1 (List.append_inj' happend rfl).2] at hc
        cases hc
      · have hconcat : start ++ [c] = (before ++ '\n' :: init) ++ [d] := by simpa using happend
        rw [List.singleton_inj.1 (List.append_inj' hconcat rfl).2]
        simp
    · rintro rfl
      cases hc
  rw [later_append_of_goes_on hgoes, later_append_flat (by decide)]

end ImportBinding.Text

/-
  ImportBinding — statements of a text.

  Source is read character by character.  Comments are left out and literals are passed over.  A
  statement goes to the end of its row, or to a semicolon or curly bracket that stands in no
  other bracket, and what follows stands deeper by the brackets that it leaves open.  Rows may
  hold several statements, and indentation plays no part.

  * `Phase.next` is what a character does where a reader is;
  * `statements` are the statements of a text, as lines of code;
  * `Leads`: a text goes on in the statement that it is put in, and `Leads.append` follows how
    texts are put together;
  * `Neat`: a text is of one piece, wherever it is put; `neat_of_forall` says so of names and
    paths, `neat_quote` of literals.
-/
import ImportBinding.Proofs.Source.Reading
import ImportBinding.Proofs.Text.Comment
import ImportBinding.Proofs.Identifier
import ImportBinding.Source.Line

namespace ImportBinding.Source

/-! ## Phases -/

/-- What a reader of source is in. -/
inductive Mode where
  | code
  /-- Behind a slash, which may open a comment. -/
  | slash
  /-- Behind a tick, which opens a character or a lifetime. -/
  | tick
  /-- One character behind a tick. -/
  | ticked
  /-- In a literal, which the mark closes. -/
  | quoted (mark : Char)
  /-- Behind a backslash in a literal. -/
  | escaped (mark : Char)
  /-- In a comment, which the row closes. -/
  | comment
  /-- In a comment, which a star and a slash close. -/
  | block
  /-- Behind a star in such a comment. -/
  | star
  deriving DecidableEq, Repr

/-- How far a statement is read. -/
structure Phase where
  mode : Mode
  /-- How many brackets are open. -/
  opened : Nat
  /-- Whether the statement is complete. -/
  ended : Bool
  deriving DecidableEq, Repr

/-- What becomes of a character. -/
inductive Effect where
  /-- It goes on in the statement. -/
  | keep
  /-- It is left out. -/
  | drop
  /-- It is left out together with the character before it. -/
  | retract
  /-- It starts a statement. -/
  | cut
  /-- It ends the statement and belongs to none. -/
  | stop
  deriving DecidableEq, Repr

/-- Whether a character is a closing bracket. -/
def closes (c : Char) : Bool :=
  c == '}' || c == ')' || c == ']'

namespace Phase

/-- In code, in a statement that leaves so many brackets open. -/
def inside (opened : Nat) : Phase :=
  ⟨.code, opened, false⟩

/-- At the start of a statement. -/
def start : Phase :=
  inside 0

/-- Behind a character of code. -/
def after (p : Phase) (c : Char) : Phase where
  mode :=
    if c = '"' then .quoted c else if c = '\'' then .tick else if c = '/' then .slash else .code
  opened :=
    if c = '(' ∨ c = '[' ∨ (c = '\x7b' ∧ p.opened = 0) then p.opened + 1
    else if c = ')' ∨ c = ']' then p.opened - 1
    else p.opened
  ended := p.ended || (p.opened == 0 && (c == ';' || c == '\x7b' || c == '\x7d'))

/-- What a character of code does, and what it leads to. -/
def nextCode (p : Phase) (c : Char) : Effect × Phase :=
  if c = '\n' then (.stop, start)
  else if Text.isBlank c then (.keep, { p with mode := .code })
  else if (p.ended ∧ c ≠ ';') ∨ (p.opened = 0 ∧ closes c) then (.cut, start.after c)
  else (.keep, p.after c)

/-- What a character does, and what it leads to. -/
def next (p : Phase) (c : Char) : Effect × Phase :=
  match p.mode with
  | .code => p.nextCode c
  | .slash =>
    if c = '/' then (.retract, { p with mode := .comment })
    else if c = '*' then (.retract, { p with mode := .block })
    else p.nextCode c
  | .tick => (.keep, { p with mode := if c = '\\' then .escaped '\'' else .ticked })
  | .ticked => if c = '\'' then (.keep, { p with mode := .code }) else p.nextCode c
  | .quoted mark =>
    (.keep, { p with mode :=
      if c = '\\' then .escaped mark else if c = mark then .code else .quoted mark })
  | .escaped mark => (.keep, { p with mode := .quoted mark })
  | .comment => if c = '\n' then (.stop, start) else (.drop, p)
  | .block => (.drop, { p with mode := if c = '*' then .star else .block })
  | .star =>
    (.drop, { p with mode := if c = '/' then .code else if c = '*' then .star else .block })

end Phase

/-! ## Statements -/

/-- The statement that some characters are, unless they are blank. -/
def statement (level : Nat) (chunk : List Char) : List Line :=
  if Text.trimmed chunk = [] then [] else [.code level (.ofList (Text.trimmed chunk))]

/-- The statements of a text, when `chunk` is read of the first of them. -/
def statementsFrom (level : Nat) (chunk : List Char) (p : Phase) : List Char → List Line
  | [] => statement level chunk
  | c :: rest =>
    match p.next c with
    | (.keep, q) => statementsFrom level (chunk ++ [c]) q rest
    | (.drop, q) => statementsFrom level chunk q rest
    | (.retract, q) => statementsFrom level chunk.dropLast q rest
    | (.cut, q) =>
      statement level chunk ++
        statementsFrom (level + p.opened - if closes c then 1 else 0) [c] q rest
    | (.stop, q) => statement level chunk ++ statementsFrom (level + p.opened) [] q rest

/-- The statements of a text. -/
def statements (source : String) : List Line :=
  statementsFrom 0 [] .start source.toList

variable {p q r : Phase} {c : Char} {level : Nat} {chunk text rest : List Char}

theorem statementsFrom_keep (h : p.next c = (.keep, q)) :
    statementsFrom level chunk p (c :: rest) = statementsFrom level (chunk ++ [c]) q rest := by
  rw [statementsFrom, h]

theorem statementsFrom_drop (h : p.next c = (.drop, q)) :
    statementsFrom level chunk p (c :: rest) = statementsFrom level chunk q rest := by
  rw [statementsFrom, h]

theorem statementsFrom_retract (h : p.next c = (.retract, q)) :
    statementsFrom level chunk p (c :: rest) = statementsFrom level chunk.dropLast q rest := by
  rw [statementsFrom, h]

theorem statementsFrom_cut (h : p.next c = (.cut, q)) :
    statementsFrom level chunk p (c :: rest) = statement level chunk ++
      statementsFrom (level + p.opened - if closes c then 1 else 0) [c] q rest := by
  rw [statementsFrom, h]

theorem statementsFrom_stop (h : p.next c = (.stop, q)) :
    statementsFrom level chunk p (c :: rest) =
      statement level chunk ++ statementsFrom (level + p.opened) [] q rest := by
  rw [statementsFrom, h]

/-! ## Going on -/

namespace Phase

/-- What a character that goes on in the statement leads to. -/
def step? (p : Phase) (c : Char) : Option Phase :=
  match p.next c with
  | (.keep, q) => some q
  | _ => none

theorem step?_eq_some_iff : p.step? c = some q ↔ p.next c = (.keep, q) := by
  unfold step?
  split
  · next q' hnext => rw [hnext, Option.some.injEq, Prod.mk.injEq, and_iff_right rfl]
  · next hnot => exact ⟨nofun, fun h => absurd h (hnot q)⟩

/-- What a text that goes on in the statement leads to. -/
def through (p : Phase) (text : List Char) : Option Phase :=
  text.foldlM step? p

theorem through_cons : p.through (c :: text) = (p.step? c).bind (·.through text) := rfl

theorem through_append (before after : List Char) :
    p.through (before ++ after) = (p.through before).bind (·.through after) :=
  List.foldlM_append

/-- A statement that is complete stays so. -/
theorem ended_of_step (h : p.step? c = some q) (hp : p.ended) : q.ended := by
  rw [step?_eq_some_iff] at h
  have hcode : p.nextCode c = (.keep, q) → q.ended := by
    unfold nextCode
    split
    · nofun
    · split
      · rintro ⟨⟩; exact hp
      · split
        · nofun
        · rintro ⟨⟩; simp [after, hp]
  unfold next at h
  grind

theorem ended_of_through : ∀ {p : Phase}, p.through text = some q → p.ended → q.ended := by
  induction text with
  | nil => rintro p ⟨⟩ hp; exact hp
  | cons c text ih =>
    intro p h hp
    obtain ⟨p', hstep, hrest⟩ := Option.bind_eq_some_iff.1 (through_cons ▸ h)
    exact ih hrest (ended_of_step hstep hp)

/-- Inside so many more brackets. -/
def raised (p : Phase) (n : Nat) : Phase :=
  { p with opened := p.opened + n }

theorem after_raised (h : (p.after c).ended = false) (hcloses : closes c → p.opened ≠ 0) (n : Nat) :
    (p.raised n).after c = (p.after c).raised n := by
  simp only [after, Bool.or_eq_false_iff, Bool.and_eq_false_iff] at h
  simp only [closes, Bool.or_eq_true, beq_iff_eq] at hcloses
  simp only [after, raised, mk.injEq, true_and]
  grind

theorem nextCode_raised (h : p.nextCode c = (.keep, q)) (hq : q.ended = false) (n : Nat) :
    (p.raised n).nextCode c = (.keep, q.raised n) := by
  unfold nextCode at h ⊢
  split at h
  · cases h
  · next hrow =>
    rw [if_neg hrow]
    split at h
    · next hblank =>
      cases h
      rw [if_pos hblank]
      rfl
    · next hblank =>
      split at h
      · cases h
      · next hcut =>
        cases h
        rw [not_or] at hcut
        have hended : p.ended = false := (Bool.or_eq_false_iff.1 hq).1
        have hopened : closes c → p.opened ≠ 0 := fun hc h0 => hcut.2 ⟨h0, hc⟩
        rw [if_neg hblank, after_raised hq hopened, if_neg]
        rintro (⟨hp, -⟩ | ⟨h0, hc⟩)
        · rw [raised, hended] at hp
          cases hp
        · exact hopened hc (Nat.eq_zero_of_add_eq_zero_right h0)

/-- What goes on in a statement without completing it does so inside of brackets too. -/
theorem step_raised (h : p.step? c = some q) (hq : q.ended = false) (n : Nat) :
    (p.raised n).step? c = some (q.raised n) := by
  rw [step?_eq_some_iff] at h ⊢
  have hcode := nextCode_raised (p := p) (c := c) (q := q) (n := n)
  obtain ⟨mode, opened, ended⟩ := p
  cases mode <;> simp only [next, raised] at h hcode ⊢ <;> grind

theorem through_raised (hq : q.ended = false) (n : Nat) :
    ∀ {p : Phase}, p.through text = some q → (p.raised n).through text = some (q.raised n) := by
  induction text with
  | nil => rintro p ⟨⟩; rfl
  | cons c text ih =>
    intro p h
    obtain ⟨p', hstep, hrest⟩ := Option.bind_eq_some_iff.1 (through_cons ▸ h)
    have hp' : p'.ended = false :=
      Bool.eq_false_iff.2 fun htrue => by rw [ended_of_through hrest htrue] at hq; cases hq
    rw [through_cons, step_raised hstep hp', Option.bind_some, ih hrest]

end Phase

/-- What goes on in a statement is read to it. -/
theorem statementsFrom_append (level : Nat) (rest : List Char) : ∀ {p : Phase} {chunk : List Char},
    p.through text = some q →
      statementsFrom level chunk p (text ++ rest) =
        statementsFrom level (chunk ++ text) q rest := by
  induction text with
  | nil =>
    rintro p chunk ⟨⟩
    rw [List.nil_append, List.append_nil]
  | cons c text ih =>
    intro p chunk h
    obtain ⟨p', hstep, hrest⟩ := Option.bind_eq_some_iff.1 (Phase.through_cons ▸ h)
    rw [List.cons_append, statementsFrom_keep (Phase.step?_eq_some_iff.1 hstep), ih hrest,
      List.append_assoc, List.singleton_append]

/-! ## Texts in statements -/

/-- From `p` to `q` a text goes on in the statement that it is put in. -/
def Leads (p : Phase) (text : String) (q : Phase) : Prop :=
  p.through text.toList = some q

instance (p : Phase) (text : String) (q : Phase) : Decidable (Leads p text q) :=
  inferInstanceAs (Decidable (_ = some q))

theorem Leads.append {s t : String} (hs : Leads p s q) (ht : Leads q t r) :
    Leads p (s ++ t) r := by
  rw [Leads, String.toList_append, Phase.through_append, hs]
  exact ht

/-- A text that is of one piece: it closes what it opens, and ends no statement. -/
def Neat (text : String) : Prop :=
  Leads .start text .start

instance (text : String) : Decidable (Neat text) :=
  inferInstanceAs (Decidable (Leads _ _ _))

variable {s t : String} {n : Nat}

/-- A text of one piece is passed wherever it is put. -/
theorem Neat.leads (h : Neat s) (n : Nat) : Leads (.inside n) s (.inside n) := by
  have hraised : Phase.start.raised n = .inside n := by
    rw [Phase.raised, Phase.start, Phase.inside, Phase.inside, Nat.zero_add]
  rw [← hraised]
  exact Phase.through_raised rfl n h

theorem Neat.append (hs : Neat s) (ht : Neat t) : Neat (s ++ t) :=
  Leads.append hs ht

theorem neat_intercalate {texts : List String} (h : ∀ text ∈ texts, Neat text) :
    Neat (", ".intercalate texts) := by
  induction texts with
  | nil => decide
  | cons text texts ih =>
    obtain ⟨htext, htexts⟩ := List.forall_mem_cons.1 h
    cases texts with
    | nil => rwa [String.intercalate_singleton]
    | cons next texts =>
      rw [String.intercalate_cons_cons]
      exact (htext.append (by decide)).append (ih htexts)

theorem isBlank_of_isSpelled (hc : isSpelled c ∨ c = ':') : Text.isBlank c = false := by
  refine Bool.eq_false_iff.2 fun hblank => ?_
  have hpart := Identifier.isPart_of_isBlank c hblank
  rcases hc with hc | rfl
  · rw [isSpelled, hpart, Bool.false_or, beq_iff_eq] at hc
    subst hc
    cases hblank
  · cases hblank

/-- The characters that a reader of code looks for. -/
def marks : List Char :=
  ['\n', '"', '\'', '/', '(', '[', '\x7b', ')', ']', '\x7d', ';']

theorem notMem_marks (hc : isSpelled c ∨ c = ':') : c ∉ marks := by
  have hnone : marks.all fun d => !(isSpelled d || d == ':') := by decide
  intro hmem
  have hnot := List.all_eq_true.1 hnone c hmem
  rw [Bool.not_eq_true', Bool.or_eq_false_iff, beq_eq_false_iff_ne] at hnot
  rcases hc with hc | hc
  · exact Bool.false_ne_true (hnot.1.symm.trans hc)
  · exact hnot.2 hc

/-- A character of names and paths goes on in the statement, and opens nothing. -/
theorem step_of_isSpelled (hc : isSpelled c ∨ c = ':') :
    (Phase.inside n).step? c = some (.inside n) := by
  have hne := notMem_marks hc
  simp only [marks, List.mem_cons, not_or] at hne
  have hblank := isBlank_of_isSpelled hc
  simp [Phase.step?, Phase.next, Phase.nextCode, Phase.after, Phase.inside, closes, hblank, hne]

/-- Names and paths are of one piece. -/
theorem neat_of_forall (h : ∀ c ∈ s.toList, isSpelled c ∨ c = ':') : Neat s := by
  rw [Neat, Leads]
  generalize s.toList = text at h
  induction text with
  | nil => rfl
  | cons c text ih =>
    obtain ⟨hc, htext⟩ := List.forall_mem_cons.1 h
    rw [Phase.through_cons, Phase.start, step_of_isSpelled hc]
    exact ih htext

theorem neat_of_spelled (h : Spelled s) : Neat s :=
  neat_of_forall fun c hc => Or.inl (h c hc)

/-! ## Literals -/

/-- In a literal. -/
def Phase.literal : Phase :=
  ⟨.quoted '"', 0, false⟩

theorem step_literal (hquote : c ≠ '"') (hslash : c ≠ '\\') :
    Phase.literal.step? c = some .literal := by
  simp [Phase.step?, Phase.next, Phase.literal, hquote, hslash]

theorem through_literal (h : ∀ c ∈ text, c ≠ '"' ∧ c ≠ '\\') :
    Phase.literal.through text = some .literal := by
  induction text with
  | nil => rfl
  | cons c text ih =>
    obtain ⟨⟨hquote, hslash⟩, htext⟩ := List.forall_mem_cons.1 h
    rw [Phase.through_cons, step_literal hquote hslash]
    exact ih htext

/-- What a character is spelled by in a literal does not close it. -/
theorem through_escape (c : Char) : Phase.literal.through (Text.escape c) = some .literal := by
  unfold Text.escape
  split
  case h_7 hquote hslash _ _ _ _ =>
    split
    · exact (Phase.through_cons).trans (by rw [step_literal hquote hslash]; rfl)
    · -- The digits of a code point are no quotes and no backslashes.
      have hspelled : Text.codePoint c = ['\\', 'u'] ++
          ('\x7b' :: (Nat.toDigits 16 c.toNat ++ ['\x7d'])) := by
        simp [Text.codePoint]
      have hu : Phase.literal.through ['\\', 'u'] = some .literal := by decide
      have hquote := Text.notMem_toDigits (c := '"') (by decide) c.toNat
      have hslash := Text.notMem_toDigits (c := '\\') (by decide) c.toNat
      rw [hspelled, Phase.through_append, hu, Option.bind_some]
      refine through_literal fun d hd => ⟨?_, ?_⟩ <;>
      · rintro rfl
        simp_all
  all_goals decide

theorem neat_quote (s : String) : Neat (Text.quote s) := by
  have hbody (text : List Char) :
      Phase.literal.through (text.flatMap Text.escape) = some .literal := by
    induction text with
    | nil => rfl
    | cons c text ih => rw [List.flatMap_cons, Phase.through_append, through_escape, Option.bind_some, ih]
  rw [Neat, Leads, Text.quote, String.toList_ofList, Phase.through_append, Phase.through_cons]
  have hopen : Phase.start.step? '"' = some .literal := by decide
  rw [hopen, Option.bind_some, hbody]
  decide

end ImportBinding.Source

/-
  ImportBinding — readers see the value of a text, not its places.

  A tree shows a value when it has its form and no fault in it.  Where its parts stand in
  the text is told by faults only, so what is read from two trees that show one value is
  the same.

  * `Tree.Shows`: a tree shows a value;
  * `Uniform` readers read from a tree what they read from the value it shows;
  * the plain readers are uniform, and so are lists and records of uniform ones.
-/
import ImportBinding.Proofs.Json.Reading

namespace ImportBinding.Json

/-! ## Trees that show a value -/

/-- A literal shows a value: it has it whether it is kept or passed over. -/
def Literal.Shows {α : Type} (l : Literal α) (a : α) : Prop :=
  l.kept = .ok a ∧ l.passed = none

mutual

/-- A tree shows a value. -/
def Tree.Shows : Tree → Json → Prop
  | .string l, v => ∃ s, l.Shows s ∧ v = .string s
  | .scalar l, v => ∃ s, l.Shows s ∧ v = s.toJson
  | .array _ elems, .array items => elems.Shows items
  | .object _ entries, .object ms => entries.Shows ms
  | _, _ => False

def Elems.Shows : Elems → List Json → Prop
  | .stop comma _ next?, vs => comma = false ∧ next? = some 0x5d ∧ vs = []
  | .item value rest, v :: vs => value.Shows v ∧ rest.Shows vs
  | .item _ _, [] => False

def Entries.Shows : Entries → Members → Prop
  | .stop comma _ next?, ms => comma = false ∧ next? = some 0x7d ∧ ms = []
  | .member key _ value rest, (k, v) :: ms => key.Shows k ∧ value.Shows v ∧ rest.Shows ms
  | _, _ => False

end

/-- The forms of a tree that shows a value. -/
theorem Tree.Shows.cases {t : Tree} {v : Json} (h : t.Shows v) :
    (∃ l s, t = .string l ∧ v = .string s ∧ l.Shows s) ∨
    (∃ l s, t = .scalar l ∧ v = Scalar.toJson s ∧ l.Shows s) ∨
    (∃ start elems items, t = .array start elems ∧ v = .array items ∧ elems.Shows items) ∨
    ∃ start entries ms, t = .object start entries ∧ v = .object ms ∧ entries.Shows ms := by
  cases t with
  | absent => exact absurd h (by simp [Tree.Shows])
  | string l =>
    obtain ⟨s, hl, rfl⟩ := h
    exact Or.inl ⟨l, s, rfl, rfl, hl⟩
  | scalar l =>
    obtain ⟨s, hl, rfl⟩ := h
    exact Or.inr (Or.inl ⟨l, s, rfl, rfl, hl⟩)
  | array start elems =>
    cases v with
    | array items => exact Or.inr (Or.inr (Or.inl ⟨start, elems, items, rfl, rfl, h⟩))
    | _ => exact absurd h (by simp [Tree.Shows])
  | object start entries =>
    cases v with
    | object ms => exact Or.inr (Or.inr (Or.inr ⟨start, entries, ms, rfl, rfl, h⟩))
    | _ => exact absurd h (by simp [Tree.Shows])

theorem Entries.Shows.cases {entries : Entries} {ms : Members} (h : entries.Shows ms) :
    (∃ offset, entries = .stop false offset (some 0x7d) ∧ ms = []) ∨
    ∃ key colon value rest k v ns, entries = .member key colon value rest ∧ ms = (k, v) :: ns ∧
      key.Shows k ∧ value.Shows v ∧ rest.Shows ns := by
  cases entries with
  | stop comma offset next? =>
    obtain ⟨rfl, rfl, rfl⟩ := h
    exact Or.inl ⟨offset, rfl, rfl⟩
  | noKey | noColon => exact absurd h (by simp [Entries.Shows])
  | member key colon value rest =>
    cases ms with
    | nil => exact absurd h (by simp [Entries.Shows])
    | cons m ns =>
      obtain ⟨k, v⟩ := m
      exact Or.inr ⟨key, colon, value, rest, k, v, ns, rfl, rfl, h⟩

theorem Tree.ofJson_scalar (s : Scalar) : Tree.ofJson s.toJson = .scalar (.ofValue s) := by
  cases s <;> rfl

mutual

/-- A value that is shown has no fault in its form. -/
theorem Tree.Shows.pass_eq : (t : Tree) → {v : Json} → t.Shows v → t.pass = .ok ()
  | .absent .., _, h => absurd h (by simp [Tree.Shows])
  | .string l, _, h => by
    obtain ⟨s, hl, -⟩ := h
    rw [Tree.pass, Literal.pass, hl.2]
  | .scalar l, _, h => by
    obtain ⟨s, hl, -⟩ := h
    rw [Tree.pass, Literal.pass, hl.2]
  | .array start elems, v, h => by
    cases v with
    | array items => rw [Tree.pass, Elems.Shows.pass_eq elems h]
    | _ => exact absurd h (by simp [Tree.Shows])
  | .object start entries, v, h => by
    cases v with
    | object ms => rw [Tree.pass, Entries.Shows.pass_eq entries h]
    | _ => exact absurd h (by simp [Tree.Shows])

theorem Elems.Shows.pass_eq : (elems : Elems) → {vs : List Json} → elems.Shows vs →
    elems.pass = .ok ()
  | .stop comma offset next?, _, h => by
    obtain ⟨rfl, rfl, -⟩ := h
    rw [Elems.pass]
  | .item value rest, [], h => absurd h id
  | .item value rest, v :: vs, h => by
    rw [Elems.pass, Tree.Shows.pass_eq value h.1, Elems.Shows.pass_eq rest h.2]
    rfl

theorem Entries.Shows.pass_eq : (entries : Entries) → {ms : Members} → entries.Shows ms →
    entries.pass = .ok ()
  | .stop comma offset next?, _, h => by
    obtain ⟨rfl, rfl, -⟩ := h
    rw [Entries.pass]
  | .noKey _, _, h => absurd h (by simp [Entries.Shows])
  | .noColon .., _, h => absurd h (by simp [Entries.Shows])
  | .member .., [], h => absurd h (by simp [Entries.Shows])
  | .member key colon value rest, (k, v) :: ms, h => by
    obtain ⟨hkey, hvalue, hrest⟩ := h
    rw [Entries.pass, Literal.pass, hkey.2, Tree.Shows.pass_eq value hvalue,
      Entries.Shows.pass_eq rest hrest]
    rfl

end

/-! ## Uniform readers -/

/-- A uniform reader reads from a tree what it reads from the value that the tree shows. -/
def Uniform {α : Type} (read : Reader α) : Prop :=
  ∀ ⦃t : Tree⦄ ⦃v : Json⦄, t.Shows v → (read t).toOption = (read (.ofJson v)).toOption

theorem uniform_textAs (expected : String) : Uniform (Tree.textAs expected) := by
  intro t v h
  rcases h.cases with ⟨l, s, rfl, rfl, hl⟩ | ⟨l, s, rfl, rfl, hl⟩ |
    ⟨start, elems, items, rfl, rfl, -⟩ | ⟨start, entries, ms, rfl, rfl, -⟩
  · rw [Tree.textAs, hl.1]; rfl
  · rw [Tree.ofJson_scalar]; rfl
  · rfl
  · rfl

theorem uniform_text : Uniform Tree.text :=
  uniform_textAs "a string"

theorem uniform_boolean : Uniform Tree.boolean := by
  intro t v h
  rcases h.cases with ⟨l, s, rfl, rfl, hl⟩ | ⟨⟨start, stop, kept, passed⟩, s, rfl, rfl, hl⟩ |
    ⟨start, elems, items, rfl, rfl, -⟩ | ⟨start, entries, ms, rfl, rfl, -⟩
  · rfl
  · obtain rfl : kept = .ok s := hl.1
    rw [Tree.ofJson_scalar]
    cases s <;> rfl
  · rfl
  · rfl

theorem uniform_map {α β : Type} {read : Reader α} (hu : Uniform read) (f : α → β) :
    Uniform fun t => f <$> read t := by
  intro t v h
  rw [Except.toOption_map, Except.toOption_map, hu h]

theorem uniform_optional {α : Type} {read : Reader α} (hu : Uniform read) :
    Uniform (Tree.optional read) := by
  intro t v h
  by_cases hnull : v = .null
  · subst hnull
    rcases h.cases with ⟨_, _, -, he, -⟩ | ⟨⟨start, stop, kept, passed⟩, s, rfl, he, hl⟩ |
      ⟨_, _, _, -, he, -⟩ | ⟨_, _, _, -, he, -⟩
    · cases he
    · cases s with
      | null =>
        obtain rfl : kept = .ok .null := hl.1
        rfl
      | bool | number => cases he
    · cases he
    · cases he
  · have htree : Tree.optional read t = some <$> read t := by
      rcases h.cases with ⟨l, s, rfl, -, -⟩ | ⟨⟨start, stop, kept, passed⟩, s, rfl, rfl, hl⟩ |
        ⟨start, elems, items, rfl, -, -⟩ | ⟨start, entries, ms, rfl, -, -⟩
      · rfl
      · obtain rfl : kept = .ok s := hl.1
        cases s with
        | null => exact absurd rfl hnull
        | bool | number => rfl
      · rfl
      · rfl
    rw [htree, optional_ofJson read hnull]
    exact uniform_map hu some h

/-! ## Lists -/

theorem Elems.read_uniform {α : Type} {read : Reader α} (hu : Uniform read) :
    (elems : Elems) → {vs : List Json} → elems.Shows vs →
    (elems.read read).toOption = ((Elems.ofItems vs).read read).toOption
  | .stop comma offset next?, _, h => by
    obtain ⟨rfl, rfl, rfl⟩ := h
    rfl
  | .item _ _, [], h => absurd h id
  | .item value rest, v :: vs, h => by
    simp only [Elems.ofItems, Elems.read, Except.toOption_bind, hu h.1,
      read_uniform hu rest h.2]

theorem uniform_list {α : Type} {read : Option (Reader α)} (hu : ∀ r, read = some r → Uniform r) :
    Uniform (Tree.list read) := by
  intro t v h
  rcases h.cases with ⟨l, s, rfl, rfl, -⟩ | ⟨l, s, rfl, rfl, -⟩ |
    ⟨start, elems, items, rfl, rfl, helems⟩ | ⟨start, entries, ms, rfl, rfl, -⟩
  · rfl
  · rw [Tree.ofJson_scalar]; rfl
  · cases read with
    | none => rfl
    | some r => exact Elems.read_uniform (hu r rfl) elems helems
  · rfl

/-! ## Objects -/

/-- What a pass over an object does with a member depends on the value that is shown. -/
def UniformEnter {σ : Type} (enter : σ → String → Nat → Except Fault (Tree → Except Fault σ)) :
    Prop :=
  ∀ s key offset offset' ⦃t : Tree⦄ ⦃v : Json⦄, t.Shows v →
    (enter s key offset >>= fun read => read t).toOption =
      (enter s key offset' >>= fun read => read (.ofJson v)).toOption

theorem Entries.fold_uniform {σ : Type}
    {enter : σ → String → Nat → Except Fault (Tree → Except Fault σ)} (hu : UniformEnter enter) :
    (entries : Entries) → {ms : Members} → entries.Shows ms → (s : σ) →
    (entries.fold enter s).toOption.map Prod.fst =
      ((Entries.ofMembers ms).fold enter s).toOption.map Prod.fst
  | .stop comma offset next?, _, h, s => by
    obtain ⟨rfl, rfl, rfl⟩ := h
    rfl
  | .noKey _, _, h, _ => absurd h (by simp [Entries.Shows])
  | .noColon .., _, h, _ => absurd h (by simp [Entries.Shows])
  | .member .., [], h, _ => absurd h (by simp [Entries.Shows])
  | .member key colon value rest, (k, v) :: ms, h, s => by
    obtain ⟨hkey, hvalue, hrest⟩ := h
    have hstep := hu s k colon 0 hvalue
    have hmember : ∀ (offset : Nat) (key : Literal String) (t : Tree) (more : Entries),
        key.kept = .ok k → ((Entries.member key offset t more).fold enter s).toOption.map Prod.fst =
          (enter s k offset >>= fun read => read t).toOption.bind fun s =>
            (more.fold enter s).toOption.map Prod.fst := by
      intro offset key t more hkept
      rw [Entries.fold, hkept]
      simp only [bind, Except.bind]
      cases enter s k offset with
      | error => rfl
      | ok read =>
        dsimp only
        cases read t <;> rfl
    rw [hmember _ _ _ _ hkey.1, Entries.ofMembers, hmember _ _ _ _ rfl, hstep]
    exact Option.bind_congr fun s _ => fold_uniform hu rest hrest s

namespace Fields

/-- Fields whose readers are uniform. -/
def Uniform : {α : Type} → Fields α → Prop
  | _, nil => True
  | _, cons field rest => Json.Uniform field.read ∧ rest.Uniform

theorem put_uniform {α : Type} {fs : Fields α} (hu : fs.Uniform) (key : String) {t : Tree}
    {v : Json} (h : t.Shows v) (found : fs.Found) :
    (fs.put key t found).toOption = (fs.put key (.ofJson v) found).toOption := by
  induction fs with
  | nil =>
    have ht := h.pass_eq t
    have hv := Tree.pass_ofJson v
    rw [put, put, ht, hv]
  | cons field rest ih =>
    by_cases hkey : key = field.name
    · simp only [put, if_pos hkey]
      exact Except.toOption_map_congr _ (hu.1 h)
    · simp only [put, if_neg hkey]
      exact Except.toOption_map_congr _ (ih hu.2 _)

theorem uniform_enter {α : Type} {fs : Fields α} (hu : fs.Uniform) : UniformEnter fs.enter := by
  intro found key offset offset' t v h
  unfold enter
  split
  · rfl
  · exact put_uniform hu key h found

theorem ofEntries_uniform {α : Type} {fs : Fields α} (hu : fs.Uniform) {entries : Entries}
    {ms : Members} (h : entries.Shows ms) :
    (fs.ofEntries entries).toOption = (fs.ofEntries (Entries.ofMembers ms)).toOption := by
  have hparts : ∀ entries, (fs.ofEntries entries).toOption =
      ((entries.fold fs.enter fs.start).toOption.map Prod.fst).bind fun found =>
        (fs.finish found).toOption := by
    intro entries
    rw [ofEntries, Except.toOption_bind, Option.bind_map]
    exact Option.bind_congr fun _ _ => Except.toOption_mapError _ _
  rw [hparts, hparts, Entries.fold_uniform (uniform_enter hu) entries h]

/-! ## Arrays -/

/-- The fields of a record in an array, and the elements left. -/
theorem ofElems_uniform {whole : String} {α : Type} {fs : Fields α} (hu : fs.Uniform) :
    ∀ {seen : Nat} {elems : Elems} {vs : List Json}, elems.Shows vs →
      (∃ a left rest, left.Shows rest ∧ fs.ofElems whole seen elems = .ok (a, left) ∧
        fs.ofElems whole seen (Elems.ofItems vs) = .ok (a, Elems.ofItems rest)) ∨
      ((fs.ofElems whole seen elems).toOption = none ∧
        (fs.ofElems whole seen (Elems.ofItems vs)).toOption = none) := by
  induction fs with
  | nil =>
    intro seen elems vs h
    exact Or.inl ⟨(), elems, vs, h, rfl, rfl⟩
  | cons field rest ih =>
    intro seen elems vs h
    cases elems with
    | stop comma offset next? =>
      obtain ⟨rfl, rfl, rfl⟩ := h
      simp only [Elems.ofItems, ofElems]
      cases field.leftOff with
      | none => exact Or.inr ⟨rfl, rfl⟩
      | some a =>
        have hstop : (Elems.stop false offset (some 0x5d)).Shows [] := ⟨rfl, rfl, rfl⟩
        rcases ih hu.2 hstop with ⟨as, left, vs, hleft, h₁, h₂⟩ | ⟨h₁, h₂⟩
        · rw [Elems.ofItems] at h₂
          exact Or.inl ⟨(a, as), left, vs, hleft, by rw [h₁]; rfl, by rw [h₂]; rfl⟩
        · rw [Elems.ofItems] at h₂
          exact Or.inr ⟨by rw [Except.toOption_map, h₁]; rfl, by rw [Except.toOption_map, h₂]; rfl⟩
    | item value more =>
      cases vs with
      | nil => exact absurd h id
      | cons v vs =>
        simp only [Elems.ofItems, ofElems]
        have hv := hu.1 h.1
        cases hread : field.read value with
        | error fault =>
          rw [hread] at hv
          refine Or.inr ⟨rfl, ?_⟩
          rw [Except.toOption_bind, ← hv]
          rfl
        | ok a =>
          rw [hread] at hv
          rw [Except.toOption_eq_some_iff.1 hv.symm]
          rcases ih hu.2 h.2 with ⟨as, left, vs, hleft, h₁, h₂⟩ | ⟨h₁, h₂⟩
          · refine Or.inl ⟨(a, as), left, vs, hleft, ?_, ?_⟩
            · exact Except.bind_eq_ok_iff.2 ⟨a, rfl, Except.bind_eq_ok_iff.2 ⟨_, h₁, rfl⟩⟩
            · exact Except.bind_eq_ok_iff.2 ⟨a, rfl, Except.bind_eq_ok_iff.2 ⟨_, h₂, rfl⟩⟩
          · refine Or.inr ⟨?_, ?_⟩
            · simp only [Except.toOption_bind, h₁]; rfl
            · simp only [Except.toOption_bind, h₂]; rfl

end Fields

theorem Elems.close_uniform {left : Elems} {rest : List Json} (h : left.Shows rest) :
    left.close.toOption = (Elems.ofItems rest).close.toOption := by
  cases left with
  | stop comma offset next? =>
    obtain ⟨rfl, rfl, rfl⟩ := h
    rfl
  | item value more =>
    cases rest with
    | nil => exact absurd h id
    | cons v vs =>
      have hnone : ∀ {value : Tree} {more : Elems}, (Elems.item value more).close.toOption = none :=
        Option.eq_none_iff_forall_ne_some.2 fun _ h =>
          Elems.close_item (Except.toOption_eq_some_iff.1 h)
      rw [Elems.ofItems, hnone, hnone]

/-! ## Records -/

theorem uniform_record {α ρ : Type} {name : String} {fields : Option (Fields α)} {make : α → ρ}
    (hu : ∀ fs, fields = some fs → fs.Uniform) : Uniform (Tree.record name fields make) := by
  intro t v h
  rcases h.cases with ⟨l, s, rfl, rfl, -⟩ | ⟨l, s, rfl, rfl, -⟩ |
    ⟨start, elems, items, rfl, rfl, helems⟩ | ⟨start, entries, ms, rfl, rfl, hentries⟩
  · rfl
  · rw [Tree.ofJson_scalar]; rfl
  · cases fields with
    | none => rfl
    | some fs =>
      simp only [Tree.ofJson, Tree.record]
      rcases Fields.ofElems_uniform (hu fs rfl) helems with ⟨a, left, rest, hleft, h₁, h₂⟩ | ⟨h₁, h₂⟩
      · rw [h₁, h₂]
        have hclose := Elems.close_uniform hleft
        simp only [bind, Except.bind]
        exact Except.toOption_map_congr (fun _ => make a) hclose
      · rw [Except.toOption_bind, Except.toOption_bind, h₁, h₂]
  · cases fields with
    | none => rfl
    | some fs => exact Except.toOption_map_congr make (Fields.ofEntries_uniform (hu fs rfl) hentries)

/-! ## Any value -/

theorem Entries.read_uniform {α : Type} {read : Reader α} (hu : Uniform read) {entries : Entries}
    {ms : Members} (h : entries.Shows ms) :
    (entries.read read).toOption = ((Entries.ofMembers ms).read read).toOption := by
  have henter : UniformEnter fun (acc : List (String × α)) k _ =>
      .ok fun t => do return (k, ← read t) :: acc :=
    fun acc key _ _ t v ht => Except.toOption_map_congr (fun a => (key, a) :: acc) (hu ht)
  have hparts : ∀ entries : Entries, (entries.read read).toOption =
      ((entries.fold (fun acc k _ => .ok fun t => do return (k, ← read t) :: acc)
        []).toOption.map Prod.fst).map List.reverse := by
    intro entries
    rw [Entries.read, Except.toOption_bind, Option.map_map]
    exact (Option.map_eq_bind ..).symm
  rw [hparts, hparts, Entries.fold_uniform henter entries h]

theorem uniform_content (depth : Nat) : Uniform (Tree.content depth) := by
  induction depth with
  | zero =>
    intro t v h
    rcases h.cases with ⟨l, s, rfl, rfl, hl⟩ | ⟨l, s, rfl, rfl, hl⟩ |
      ⟨start, elems, items, rfl, rfl, -⟩ | ⟨start, entries, ms, rfl, rfl, -⟩
    · rw [Tree.content, hl.1]; rfl
    · rw [Tree.ofJson_scalar, Tree.content, hl.1]; rfl
    · rfl
    · rfl
  | succ depth ih =>
    intro t v h
    rcases h.cases with ⟨l, s, rfl, rfl, hl⟩ | ⟨l, s, rfl, rfl, hl⟩ |
      ⟨start, elems, items, rfl, rfl, helems⟩ | ⟨start, entries, ms, rfl, rfl, hentries⟩
    · rw [Tree.content, hl.1]; rfl
    · rw [Tree.ofJson_scalar, Tree.content, hl.1]; rfl
    · exact Except.toOption_map_congr Json.array (Elems.read_uniform ih elems helems)
    · exact Except.toOption_map_congr Json.object (Entries.read_uniform ih hentries)

theorem uniform_value (depth : Nat) : Uniform (Tree.value depth) :=
  uniform_map (uniform_content depth) canonical

end ImportBinding.Json

/-
  ImportBinding — reading a text and reading its value.

  A reader is stable when it reads from the value of a text what it reads from the text.
  The readers of the plain shapes are stable, and so are lists and records of stable ones.

  * `Stable` is the property;
  * `stable_text`, `stable_boolean`, `stable_optional`, `stable_list` and `stable_value`
    are the plain readers;
  * `stable_record` is a record with stable fields, in either form.
-/
import ImportBinding.Proofs.Json.Record
import Mathlib.Data.List.Forall2

namespace ImportBinding.Json

/-- What a stable reader reads from a text it also reads from the value of the text. -/
def Stable {α : Type} (read : Reader α) : Prop :=
  ∀ ⦃D : Nat⦄ ⦃t : Tree⦄ ⦃v : Json⦄ ⦃a : α⦄, read t = .ok a → t.content D = .ok v →
    read (.ofJson v.canonical) = .ok a

/-! ## Plain shapes -/

theorem content_string {D : Nat} {l : Literal String} {v : Json}
    (h : (Tree.string l).content D = .ok v) : ∃ s, l.kept = .ok s ∧ v = .string s := by
  rw [Tree.content.eq_def] at h
  obtain ⟨s, hs, rfl⟩ := Except.map_eq_ok_iff.1 h
  exact ⟨s, hs, rfl⟩

theorem content_scalar {D : Nat} {l : Literal Scalar} {v : Json}
    (h : (Tree.scalar l).content D = .ok v) : ∃ s, l.kept = .ok s ∧ v = s.toJson := by
  rw [Tree.content.eq_def] at h
  obtain ⟨s, hs, rfl⟩ := Except.map_eq_ok_iff.1 h
  exact ⟨s, hs, rfl⟩

theorem content_array {D start : Nat} {elems : Elems} {v : Json}
    (h : (Tree.array start elems).content D = .ok v) :
    ∃ d vs, elems.read (Tree.content d) = .ok vs ∧ v = .array vs := by
  cases D with
  | zero => cases h
  | succ d =>
    obtain ⟨vs, hvs, rfl⟩ := Except.map_eq_ok_iff.1 h
    exact ⟨d, vs, hvs, rfl⟩

theorem content_object {D start : Nat} {entries : Entries} {v : Json}
    (h : (Tree.object start entries).content D = .ok v) :
    ∃ d ms, entries.read (Tree.content d) = .ok ms ∧ v = .object ms := by
  cases D with
  | zero => cases h
  | succ d =>
    obtain ⟨ms, hms, rfl⟩ := Except.map_eq_ok_iff.1 h
    exact ⟨d, ms, hms, rfl⟩

theorem stable_textAs (expected : String) : Stable (Tree.textAs expected) := by
  intro D t v a h hv
  cases t with
  | string l =>
    obtain ⟨s, hs, rfl⟩ := content_string hv
    exact hs.symm.trans h
  | _ => cases h

theorem stable_text : Stable Tree.text :=
  stable_textAs "a string"

theorem stable_boolean : Stable Tree.boolean := by
  intro D t v a h hv
  unfold Tree.boolean at h
  split at h
  · next b =>
    obtain ⟨s, hs, rfl⟩ := content_scalar hv
    obtain rfl := Except.ok.inj hs
    exact h
  · cases h

theorem stable_map {α β : Type} {read : Reader α} (hs : Stable read) (f : α → β) :
    Stable fun t => f <$> read t := by
  intro D t v b h hv
  obtain ⟨a, ha, rfl⟩ := Except.map_eq_ok_iff.1 h
  exact Except.map_eq_ok_iff.2 ⟨a, hs ha hv, rfl⟩

/-- Only the word for it has the value null. -/
theorem content_eq_null {D : Nat} {t : Tree} (h : t.content D = .ok .null) :
    ∃ start stop passed, t = .scalar ⟨start, stop, .ok .null, passed⟩ := by
  cases t with
  | absent => rw [Tree.content.eq_def] at h; cases h
  | string => obtain ⟨s, -, hv⟩ := content_string h; cases hv
  | scalar l =>
    obtain ⟨s, hs, hv⟩ := content_scalar h
    obtain ⟨start, stop, kept, passed⟩ := l
    cases s with
    | null => exact ⟨start, stop, passed, by rw [show kept = .ok .null from hs]⟩
    | bool | number => cases hv
  | array => obtain ⟨_, _, -, hv⟩ := content_array h; cases hv
  | object => obtain ⟨_, _, -, hv⟩ := content_object h; cases hv

theorem canonical_eq_null {v : Json} (h : v.canonical = .null) : v = .null := by
  cases v with
  | null => rfl
  | _ => simp [canonical] at h

theorem optional_ofJson {α : Type} (read : Reader α) {v : Json} (hv : v ≠ .null) :
    Tree.optional read (.ofJson v) = some <$> read (.ofJson v) := by
  unfold Tree.optional
  split
  · next he =>
    cases v with
    | null => exact absurd rfl hv
    | _ => simp [Tree.ofJson, Literal.ofValue] at he
  · rfl

theorem stable_optional {α : Type} {read : Reader α} (hs : Stable read) :
    Stable (Tree.optional read) := by
  intro D t v a h hv
  by_cases hnull : v = .null
  · subst hnull
    obtain ⟨start, stop, passed, rfl⟩ := content_eq_null hv
    exact h
  · have hne : v.canonical ≠ .null := fun hc => hnull (canonical_eq_null hc)
    rw [optional_ofJson read hne]
    unfold Tree.optional at h
    split at h
    · obtain ⟨s, hk, rfl⟩ := content_scalar hv
      cases hk
      exact absurd rfl hnull
    · exact stable_map hs some h hv

/-! ## Lists -/

theorem Elems.read_stop {α : Type} {read : Reader α} {comma : Bool} {offset : Nat}
    {next? : Option UInt8} {as : List α} (h : (Elems.stop comma offset next?).read read = .ok as) :
    comma = false ∧ next? = some 0x5d ∧ as = [] := by
  rw [Elems.read.eq_def] at h
  split at h
  · next he => cases he; cases h; exact ⟨rfl, rfl, rfl⟩
  · cases h
  · next he => cases he

theorem Elems.read_item {α : Type} {read : Reader α} {value : Tree} {rest : Elems} {as : List α}
    (h : (Elems.item value rest).read read = .ok as) :
    ∃ a as', read value = .ok a ∧ rest.read read = .ok as' ∧ as = a :: as' := by
  rw [Elems.read] at h
  obtain ⟨a, ha, h⟩ := Except.bind_eq_ok_iff.1 h
  obtain ⟨as', has, h⟩ := Except.bind_eq_ok_iff.1 h
  cases h
  exact ⟨a, as', ha, has, rfl⟩

/-- The items of a list that comes from no text are read one by one. -/
theorem Elems.read_ofItems_iff {α : Type} {read : Reader α} {vs : List Json} {as : List α} :
    (Elems.ofItems vs).read read = .ok as ↔
      List.Forall₂ (fun v a => read (.ofJson v) = .ok a) vs as := by
  induction vs generalizing as with
  | nil =>
    rw [Elems.ofItems, Elems.read]
    constructor
    · intro h; cases h; exact .nil
    · intro h; cases h; rfl
  | cons v rest ih =>
    rw [Elems.ofItems]
    constructor
    · intro h
      obtain ⟨a, as', ha, has, rfl⟩ := Elems.read_item h
      exact .cons ha (ih.1 has)
    · intro h
      cases h with
      | cons ha has =>
        rw [Elems.read]
        exact Except.bind_eq_ok_iff.2 ⟨_, ha, Except.bind_eq_ok_iff.2 ⟨_, ih.2 has, rfl⟩⟩

theorem Elems.read_stable {α : Type} {read : Reader α} (hs : Stable read) {D : Nat} :
    (elems : Elems) → {as : List α} → {vs : List Json} → elems.read read = .ok as →
    elems.read (Tree.content D) = .ok vs →
    (Elems.ofItems (canonicalItems vs)).read read = .ok as
  | .stop comma offset next?, as, vs, h, hv => by
    obtain ⟨rfl, rfl, rfl⟩ := Elems.read_stop h
    obtain ⟨-, -, rfl⟩ := Elems.read_stop hv
    rfl
  | .item value rest, as, vs, h, hv => by
    obtain ⟨a, as', ha, has, rfl⟩ := Elems.read_item h
    obtain ⟨v, vs', hv', hvs, rfl⟩ := Elems.read_item hv
    rw [canonicalItems, Elems.ofItems, Elems.read]
    exact Except.bind_eq_ok_iff.2 ⟨a, hs ha hv',
      Except.bind_eq_ok_iff.2 ⟨as', read_stable hs rest has hvs, rfl⟩⟩

theorem Elems.forall₂_canonical {D : Nat} (hr : ∀ {t v}, Tree.content D t = .ok v →
    (Tree.ofJson v.canonical).content D = .ok v.canonical) : (elems : Elems) → {vs : List Json} →
    elems.read (Tree.content D) = .ok vs →
    List.Forall₂ (fun v w => (Tree.ofJson v).content D = .ok w) (canonicalItems vs)
      (canonicalItems vs)
  | .stop .., _, h => by
    obtain ⟨-, -, rfl⟩ := Elems.read_stop h
    exact .nil
  | .item value rest, _, h => by
    obtain ⟨v, vs, hv, hvs, rfl⟩ := Elems.read_item h
    exact .cons (hr hv) (forall₂_canonical hr rest hvs)

theorem stable_list {α : Type} {read : Option (Reader α)} (hs : ∀ r, read = some r → Stable r) :
    Stable (Tree.list read) := by
  intro D t v as h hv
  cases t with
  | array start elems =>
    obtain ⟨d, vs, hvs, rfl⟩ := content_array hv
    cases read with
    | none => cases h
    | some r => exact Elems.read_stable (hs r rfl) elems h hvs
  | _ => cases h

/-! ## Objects -/

/-- The members of an object in the order of the text, each value read by `read`. -/
def Entries.Collects {α : Type} (read : Reader α) : Entries → List (String × α) → Prop
  | .stop _ _ _, ms => ms = []
  | .member key _ value rest, ms => ∃ k a ms', key.kept = .ok k ∧ read value = .ok a ∧
      rest.Collects read ms' ∧ ms = (k, a) :: ms'
  | _, _ => False

theorem Entries.collects_of_fold {α : Type} {read : Reader α} : (entries : Entries) →
    {acc out : List (String × α)} → {offset : Nat} →
    entries.fold (fun acc k _ => .ok fun t => do return (k, ← read t) :: acc) acc =
      .ok (out, offset) →
    ∃ ms, entries.Collects read ms ∧ out = ms.reverse ++ acc
  | .stop comma offset next?, acc, out, o, h => by
    rw [Entries.fold.eq_def] at h
    split at h <;> first | cases h; exact ⟨[], rfl, rfl⟩ | contradiction
  | .noKey _, _, _, _, h => by simp [Entries.fold] at h
  | .noColon key offset next?, acc, out, o, h => by
    simp only [Entries.fold] at h
    obtain ⟨k, -, h⟩ := Except.bind_eq_ok_iff.1 h
    obtain ⟨_, -, h⟩ := Except.bind_eq_ok_iff.1 h
    cases next? <;> exact absurd h Except.throw_ne_ok
  | .member key colon value rest, acc, out, o, h => by
    simp only [Entries.fold] at h
    obtain ⟨k, hk, h₁⟩ := Except.bind_eq_ok_iff.1 h
    obtain ⟨_, he, h₂⟩ := Except.bind_eq_ok_iff.1 h₁
    cases he
    obtain ⟨acc', hacc, hrest⟩ := Except.bind_eq_ok_iff.1 h₂
    obtain ⟨a, ha, hacc⟩ := Except.bind_eq_ok_iff.1 hacc
    cases hacc
    obtain ⟨ms, hms, rfl⟩ := collects_of_fold rest hrest
    exact ⟨(k, a) :: ms, ⟨k, a, ms, hk, ha, hms, rfl⟩, by simp⟩

theorem Entries.collects_of_read {α : Type} {read : Reader α} {entries : Entries}
    {ms : List (String × α)} (h : entries.read read = .ok ms) : entries.Collects read ms := by
  obtain ⟨⟨out, offset⟩, hf, h⟩ := Except.bind_eq_ok_iff.1 h
  cases h
  obtain ⟨ms, hms, rfl⟩ := collects_of_fold entries hf
  simpa using hms

/-- The last value that is given to a key is the one it holds. -/
theorem find?_canonicalMembers (name : String) : (ms : Members) → (acc : Members) →
    (canonicalMembers acc ms).find? name =
      match (ms.filter (·.1 = name)).getLast? with
      | some m => some m.2.canonical
      | none => acc.find? name
  | [], acc => rfl
  | (k, v) :: rest, acc => by
    rw [canonicalMembers, find?_canonicalMembers name rest]
    by_cases hk : k = name
    · subst hk
      simp only [List.filter_cons, decide_true, if_true, Members.find?_insert_self,
        List.getLast?_cons]
      cases (rest.filter (·.1 = k)).getLast? <;> rfl
    · simp [hk, Members.find?_insert_of_ne (Ne.symm hk)]

theorem Entries.Collects.values {α : Type} {read : Reader α} (name : String) :
    {entries : Entries} → {ms : List (String × α)} → entries.Collects read ms →
    List.Forall₂ (fun t m => read t = .ok m.2) (entries.values name) (ms.filter (·.1 = name))
  | .stop .., _, h => by
    obtain rfl : _ = [] := h
    exact .nil
  | .noKey _, _, h => absurd h id
  | .noColon .., _, h => absurd h id
  | .member key colon value rest, _, h => by
    obtain ⟨k, a, ms, hk, ha, hms, rfl⟩ := h
    rw [Entries.values, hk]
    by_cases hkn : k = name
    · simpa [hkn] using ⟨ha, hms.values name⟩
    · simpa [hkn] using hms.values name

theorem Entries.Collects.of_mem {α : Type} {read : Reader α} {k : String} {a : α} :
    {entries : Entries} → {ms : List (String × α)} → entries.Collects read ms → (k, a) ∈ ms →
    ∃ t, read t = .ok a
  | .stop .., _, h, hm => by
    obtain rfl : _ = [] := h
    exact absurd hm (by simp)
  | .noKey _, _, h, _ => absurd h id
  | .noColon .., _, h, _ => absurd h id
  | .member _ _ value _, _, h, hm => by
    obtain ⟨_, _, _, _, ha, hms, rfl⟩ := h
    rcases List.mem_cons.1 hm with he | hm
    · cases he
      exact ⟨value, ha⟩
    · exact hms.of_mem hm

namespace Fields

/-- Fields whose readers are stable. -/
def Stable : {α : Type} → Fields α → Prop
  | _, nil => True
  | _, cons field rest => Json.Stable field.read ∧ rest.Stable

theorem holds_of_read {entries : Entries} {D : Nat} {ms : Members}
    (hms : entries.Collects (Tree.content D) ms) {α : Type} {fs : Fields α} (hs : fs.Stable)
    {a : α} (h : fs.Read entries a) : fs.Holds (canonicalMembers [] ms) a := by
  induction fs with
  | nil => trivial
  | cons field rest ih =>
    obtain ⟨a, as⟩ := a
    obtain ⟨h₁, h₂⟩ := h
    refine ⟨?_, ih hs.2 h₂⟩
    have hv := hms.values field.name
    rw [Field.Holds, find?_canonicalMembers]
    split at h₁
    · next he =>
      rw [he] at hv
      rw [List.forall₂_nil_left_iff.1 hv]
      exact h₁
    · next t he =>
      rw [he] at hv
      obtain ⟨m, rest, hm, hrest, hf⟩ := List.forall₂_cons_left_iff.1 hv
      rw [hf, List.forall₂_nil_left_iff.1 hrest]
      exact hs.1 h₁ hm
    · exact absurd h₁ id

end Fields

/-! ## Arrays -/

theorem Elems.close_item {value : Tree} {rest : Elems} :
    (Elems.item value rest).close ≠ .ok () := by
  intro h
  rw [Elems.close.eq_def] at h
  split at h
  · next he => cases he
  all_goals contradiction

namespace Fields

/-- The fields of a record in an array with nothing left over. -/
theorem ofElems_stable {D : Nat} {whole : String} {α : Type} {fs : Fields α} (hs : fs.Stable) :
    ∀ {seen : Nat} {elems left : Elems} {a : α} {vs : List Json},
      fs.ofElems whole seen elems = .ok (a, left) → left.close = .ok () →
      elems.read (Tree.content D) = .ok vs →
      ∃ left', fs.ofElems whole seen (Elems.ofItems (canonicalItems vs)) = .ok (a, left') ∧
        left'.close = .ok () := by
  induction fs with
  | nil =>
    intro seen elems left a vs h hc hv
    cases h
    cases elems with
    | stop comma offset next? =>
      obtain ⟨-, -, rfl⟩ := Elems.read_stop hv
      exact ⟨_, rfl, rfl⟩
    | item value rest => exact absurd hc Elems.close_item
  | cons field rest ih =>
    intro seen elems left a vs h hc hv
    obtain ⟨a, as⟩ := a
    cases elems with
    | stop comma offset next? =>
      obtain ⟨rfl, rfl, rfl⟩ := Elems.read_stop hv
      rw [ofElems] at h
      cases hl : field.leftOff with
      | none => rw [hl] at h; cases h
      | some _ =>
        rw [hl] at h
        obtain ⟨⟨as', left'⟩, hrest, he⟩ := Except.map_eq_ok_iff.1 h
        cases he
        obtain ⟨left', hl', hc'⟩ := ih hs.2 hrest hc hv
        refine ⟨left', ?_, hc'⟩
        simp only [canonicalItems, Elems.ofItems, ofElems, hl] at hl' ⊢
        rw [hl']; rfl
    | item value more =>
      obtain ⟨v, vs', hv', hvs, rfl⟩ := Elems.read_item hv
      rw [ofElems] at h
      obtain ⟨b, hb, h⟩ := Except.bind_eq_ok_iff.1 h
      obtain ⟨⟨as', left'⟩, hrest, he⟩ := Except.bind_eq_ok_iff.1 h
      cases he
      obtain ⟨left', hl', hc'⟩ := ih hs.2 hrest hc hvs
      refine ⟨left', ?_, hc'⟩
      rw [canonicalItems, Elems.ofItems, ofElems]
      exact Except.bind_eq_ok_iff.2 ⟨a, hs.1 hb hv', Except.bind_eq_ok_iff.2 ⟨_, hl', rfl⟩⟩

end Fields

/-! ## Any value -/

theorem Elems.read_determined {α : Type} {read₁ read₂ : Reader α}
    (hr : ∀ {t a b}, read₁ t = .ok a → read₂ t = .ok b → a = b) : (elems : Elems) →
    {as bs : List α} → elems.read read₁ = .ok as → elems.read read₂ = .ok bs → as = bs
  | .stop .., _, _, h₁, h₂ => by
    obtain ⟨-, -, rfl⟩ := Elems.read_stop h₁
    obtain ⟨-, -, rfl⟩ := Elems.read_stop h₂
    rfl
  | .item value rest, _, _, h₁, h₂ => by
    obtain ⟨a, as, ha, has, rfl⟩ := Elems.read_item h₁
    obtain ⟨b, bs, hb, hbs, rfl⟩ := Elems.read_item h₂
    rw [hr ha hb, read_determined hr rest has hbs]

theorem Entries.collects_determined {α : Type} {read₁ read₂ : Reader α}
    (hr : ∀ {t a b}, read₁ t = .ok a → read₂ t = .ok b → a = b) : (entries : Entries) →
    {ms ns : List (String × α)} → entries.Collects read₁ ms → entries.Collects read₂ ns → ms = ns
  | .stop .., _, _, h₁, h₂ => h₁.trans h₂.symm
  | .noKey _, _, _, h, _ => absurd h id
  | .noColon .., _, _, h, _ => absurd h id
  | .member _ _ _ rest, _, _, h₁, h₂ => by
    obtain ⟨k, a, ms, hk, ha, hms, h₁⟩ := h₁
    obtain ⟨l, b, ns, hl, hb, hns, h₂⟩ := h₂
    obtain rfl := Except.ok.inj (hk.symm.trans hl)
    rw [h₁, h₂, hr ha hb, collects_determined hr rest hms hns]

/-- A value does not depend on how deep brackets may be. -/
theorem content_determined (D : Nat) : ∀ {D' : Nat} {t : Tree} {v w : Json},
    t.content D = .ok v → t.content D' = .ok w → v = w := by
  induction D with
  | zero =>
    intro D' t v w hv hw
    cases t with
    | absent => rw [Tree.content.eq_def] at hv; cases hv
    | string | scalar =>
      rw [Tree.content.eq_def] at hv hw
      exact Except.ok.inj (hv.symm.trans hw)
    | array | object => cases hv
  | succ d ih =>
    intro D' t v w hv hw
    cases t with
    | absent => rw [Tree.content.eq_def] at hv; cases hv
    | string | scalar =>
      rw [Tree.content.eq_def] at hv hw
      exact Except.ok.inj (hv.symm.trans hw)
    | array start elems =>
      obtain ⟨vs, hvs, rfl⟩ := Except.map_eq_ok_iff.1 hv
      obtain ⟨_, ws, hws, rfl⟩ := content_array hw
      rw [Elems.read_determined ih elems hvs hws]
    | object start entries =>
      obtain ⟨ms, hms, rfl⟩ := Except.map_eq_ok_iff.1 hv
      obtain ⟨_, ns, hns, rfl⟩ := content_object hw
      rw [Entries.collects_determined ih entries (Entries.collects_of_read hms)
        (Entries.collects_of_read hns)]

theorem Entries.fold_ofMembers {α : Type} {read : Reader α} {g : Json → α} :
    (ms : Members) → (∀ m ∈ ms, read (.ofJson m.2) = .ok (g m.2)) → (acc : List (String × α)) →
    (Entries.ofMembers ms).fold (fun acc k _ => .ok fun t => do return (k, ← read t) :: acc) acc =
      .ok ((ms.map fun m => (m.1, g m.2)).reverse ++ acc, 1)
  | [], _, acc => by simp [Entries.ofMembers, Entries.fold]
  | (k, v) :: rest, h, acc => by
    have hv : read (.ofJson v) = .ok (g v) := h (k, v) List.mem_cons_self
    have hrest :=
      fold_ofMembers rest (fun m hm => h m (List.mem_cons_of_mem _ hm)) ((k, g v) :: acc)
    rw [Entries.ofMembers, Entries.fold]
    refine Except.bind_eq_ok_iff.2 ⟨k, rfl, Except.bind_eq_ok_iff.2 ⟨_, rfl, ?_⟩⟩
    refine Except.bind_eq_ok_iff.2 ⟨(k, g v) :: acc, ?_, by simpa using hrest⟩
    exact Except.bind_eq_ok_iff.2 ⟨g v, hv, rfl⟩

/-- The members of an object that comes from no text are read one by one. -/
theorem Entries.read_ofMembers {α : Type} {read : Reader α} {g : Json → α} {ms : Members}
    (h : ∀ m ∈ ms, read (.ofJson m.2) = .ok (g m.2)) :
    (Entries.ofMembers ms).read read = .ok (ms.map fun m => (m.1, g m.2)) := by
  refine Except.bind_eq_ok_iff.2 ⟨_, fold_ofMembers ms h [], ?_⟩
  simp [pure, Except.pure]

/-- What a value holds that can be read at some depth can be read there. -/
theorem content_canonical (D : Nat) : ∀ {t : Tree} {v : Json}, t.content D = .ok v →
    (Tree.ofJson v.canonical).content D = .ok v.canonical := by
  induction D with
  | zero =>
    intro t v h
    cases t with
    | absent => rw [Tree.content.eq_def] at h; cases h
    | string => obtain ⟨s, -, rfl⟩ := content_string h; rfl
    | scalar => obtain ⟨s, -, rfl⟩ := content_scalar h; cases s <;> rfl
    | array | object => cases h
  | succ d ih =>
    intro t v h
    cases t with
    | absent => rw [Tree.content.eq_def] at h; cases h
    | string => obtain ⟨s, -, rfl⟩ := content_string h; rfl
    | scalar => obtain ⟨s, -, rfl⟩ := content_scalar h; cases s <;> rfl
    | array start elems =>
      obtain ⟨vs, hvs, rfl⟩ := Except.map_eq_ok_iff.1 h
      have hcs : (Elems.ofItems (canonicalItems vs)).read (Tree.content d) =
          .ok (canonicalItems vs) :=
        Elems.read_ofItems_iff.2 (Elems.forall₂_canonical ih elems hvs)
      exact Except.map_eq_ok_iff.2 ⟨_, hcs, rfl⟩
    | object start entries =>
      obtain ⟨ms, hms, rfl⟩ := Except.map_eq_ok_iff.1 h
      have hcm : (Entries.ofMembers (canonicalMembers [] ms)).read (Tree.content d) =
          .ok ((canonicalMembers [] ms).map fun m => (m.1, m.2)) := by
        refine Entries.read_ofMembers (g := id) fun m hm => ?_
        rcases mem_canonicalMembers hm with hm | ⟨w, hw, he⟩
        · exact absurd hm (by simp)
        · rw [he]
          obtain ⟨t, ht⟩ := (Entries.collects_of_read hms).of_mem hw
          exact ih ht
      exact Except.map_eq_ok_iff.2 ⟨_, hcm, by simp [canonical]⟩

theorem stable_value (depth : Nat) : Stable (Tree.value depth) := by
  intro D t v a h hv
  obtain ⟨w, hw, rfl⟩ := Except.map_eq_ok_iff.1 h
  obtain rfl := content_determined D hv hw
  exact Except.map_eq_ok_iff.2
    ⟨_, content_canonical depth hw, canonical_eq_self (canonical_canonical v)⟩

/-! ## Records -/

/-- A record with stable fields of different names is stable, in either form. -/
theorem stable_record {α ρ : Type} {name : String} {fields : Option (Fields α)} {make : α → ρ}
    (hs : ∀ fs, fields = some fs → fs.Stable ∧ fs.names.Nodup) :
    Stable (Tree.record name fields make) := by
  intro D t v r h hv
  cases t with
  | array start elems =>
    obtain ⟨d, vs, hvs, rfl⟩ := content_array hv
    cases fields with
    | none => cases h
    | some fs =>
      obtain ⟨⟨a, left⟩, ha, h⟩ := Except.bind_eq_ok_iff.1 h
      obtain ⟨_, hc, h⟩ := Except.bind_eq_ok_iff.1 h
      cases h
      obtain ⟨left', hl', hc'⟩ := Fields.ofElems_stable (hs fs rfl).1 ha hc hvs
      exact Except.bind_eq_ok_iff.2 ⟨_, hl', Except.bind_eq_ok_iff.2 ⟨_, hc', rfl⟩⟩
  | object start entries =>
    obtain ⟨d, ms, hms, rfl⟩ := content_object hv
    cases fields with
    | none => cases h
    | some fs =>
      obtain ⟨a, ha, rfl⟩ := Except.map_eq_ok_iff.1 h
      have hh := Fields.holds_of_read (Entries.collects_of_read hms) (hs fs rfl).1
        (Fields.read_of_ofEntries (hs fs rfl).2 ha)
      have hsorted : (canonicalMembers [] ms).Sorted :=
        sorted_canonicalMembers ms List.Pairwise.nil
      exact Except.map_eq_ok_iff.2
        ⟨a, (Fields.ofEntries_ofMembers_iff hsorted.nodup_keys (hs fs rfl).2).2 hh, rfl⟩
  | _ => cases h

end ImportBinding.Json

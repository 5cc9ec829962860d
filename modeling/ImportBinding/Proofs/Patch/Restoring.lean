/-
  ImportBinding — operations are written and read again.

  An operation is read in two steps: its kind is told first, and the value that is left,
  which is kept as it is, gives the fields.  What is kept can be written inside as many
  brackets as it was read in.

  * `Kept`: a value that comes from inside some brackets;
  * `kept_of_tagged`: what is left without the kind has kept parts;
  * `tagged_object` reads a kind that is written first;
  * `Op.restores_read`: operations are read again from what is written of them.
-/
import ImportBinding.Patch.Format
import ImportBinding.Proofs.Json.Restoring

namespace ImportBinding

variable {P : Json.Number → Prop}

namespace Json

/-! ## Values that are kept -/

/-- A value that is read from inside `depth` brackets, with numbers of the property `P`. -/
def Kept (P : Number → Prop) (depth : Nat) (v : Json) : Prop :=
  v.Numbers P ∧ ∃ t : Tree, t.content depth = .ok v

theorem Entries.Collects.eq_members {read : Reader Json}
    (hr : ∀ {v w}, read (.ofJson v) = .ok w → w = v) : {members ms : Members} →
    (Entries.ofMembers members).Collects read ms → ms = members
  | [], _, h => h
  | (k, v) :: members, ms, h => by
    obtain ⟨l, w, ns, hl, hw, hns, rfl⟩ := h
    rw [hr hw, eq_members hr hns, ← Except.ok.inj hl]

/-- Reading a value that comes from no text gives the value. -/
theorem content_ofJson (depth : Nat) : ∀ {v w : Json},
    (Tree.ofJson v).content depth = .ok w → w = v := by
  induction depth with
  | zero =>
    intro v w h
    cases v with
    | array | object => cases h
    | _ => cases h; rfl
  | succ depth ih =>
    intro v w h
    cases v with
    | array items =>
      obtain ⟨vs, hvs, rfl⟩ := Except.map_eq_ok_iff.1 h
      have hsame : List.Forall₂ (· = ·) items vs :=
        (Elems.read_ofItems_iff.1 hvs).imp fun _ _ h => (ih h).symm
      rw [List.forall₂_eq_eq_eq] at hsame
      rw [hsame]
    | object members =>
      obtain ⟨ms, hms, rfl⟩ := Except.map_eq_ok_iff.1 h
      rw [(Entries.collects_of_read hms).eq_members ih]
    | _ => cases h; rfl

/-- A kept value that is read again is written with its numbers, and is read again as often
    as one likes. -/
theorem Kept.value {depth depth' : Nat} {v w : Json} (h : Kept P depth v)
    (hv : (Tree.ofJson v).value depth' = .ok w) :
    w.Numbers P ∧ (Tree.ofJson w).content depth = .ok w ∧ (Tree.ofJson w).value depth' = .ok w := by
  obtain ⟨hnumbers, t, ht⟩ := h
  obtain ⟨u, hu, rfl⟩ := Except.map_eq_ok_iff.1 hv
  obtain rfl := content_ofJson depth' hu
  exact ⟨Numbers.canonical u hnumbers, content_canonical depth ht,
    Except.map_eq_ok_iff.2 ⟨_, content_canonical depth' hu, canonical_eq_self (canonical_canonical u)⟩⟩

/-! ## Kinds -/

theorem variant_eq_ok {known : List String} {t : Tree} {kind : String}
    (h : t.variant known = .ok kind) : kind ∈ known := by
  obtain ⟨name, -, h⟩ := Except.bind_eq_ok_iff.1 h
  split at h
  · next hk => cases h; simpa using hk
  · cases h

theorem Elems.kept_of_read {depth : Nat} : (elems : Elems) → {vs : List Json} → elems.Numbers P →
    elems.read (Tree.content depth) = .ok vs → ∀ v ∈ vs, Kept P depth v
  | .stop .., _, _, h => by
    obtain ⟨-, -, rfl⟩ := Elems.read_stop h
    exact fun _ hv => absurd hv (by simp)
  | .item value rest, _, hn, h => by
    obtain ⟨v, vs, hv, hvs, rfl⟩ := Elems.read_item h
    intro w hw
    rcases List.mem_cons.1 hw with rfl | hw
    · exact ⟨numbers_content depth hn.1 hv, value, hv⟩
    · exact kept_of_read rest hn.2 hvs w hw

/-- What every step of a pass over an object keeps, the pass keeps. -/
theorem Entries.fold_keeps {σ : Type} {I : σ → Prop} {Q : Tree → Prop}
    {enter : σ → String → Nat → Except Fault (Tree → Except Fault σ)}
    (hstep : ∀ {s key offset read t s'}, I s → enter s key offset = .ok read → Q t →
      read t = .ok s' → I s') : (entries : Entries) → entries.Forall Q → {s s' : σ} →
    {offset : Nat} → I s → entries.fold enter s = .ok (s', offset) → I s'
  | .stop comma offset next?, _, s, s', o, hs, h => by
    rw [Entries.fold.eq_def] at h
    split at h <;> first | cases h; exact hs | contradiction
  | .noKey _, _, _, _, _, _, h => by simp [Entries.fold] at h
  | .noColon key offset next?, _, s, s', o, _, h => by
    simp only [Entries.fold] at h
    obtain ⟨k, -, h⟩ := Except.bind_eq_ok_iff.1 h
    obtain ⟨_, -, h⟩ := Except.bind_eq_ok_iff.1 h
    cases next? <;> exact absurd h Except.throw_ne_ok
  | .member key colon value rest, hq, s, s', o, hs, h => by
    simp only [Entries.fold] at h
    obtain ⟨k, -, h⟩ := Except.bind_eq_ok_iff.1 h
    obtain ⟨read, hread, h⟩ := Except.bind_eq_ok_iff.1 h
    obtain ⟨s₁, hs₁, h⟩ := Except.bind_eq_ok_iff.1 h
    exact fold_keeps hstep rest hq.2 (hstep hs hread hq.1 hs₁) h

/-- The parts of a value, as they are read where the value comes from no text. -/
def PartsKept (P : Number → Prop) (depth : Nat) : Json → Prop
  | array items => ∀ v ∈ items, Kept P depth v
  | object members => ∀ m ∈ members, Kept P depth m.2
  | _ => True

/-- What a pass for a kind has found: a known kind, if any, and kept values. -/
structure Sorts (P : Number → Prop) (known : List String) (depth : Nat)
    (s : Option String × Members) : Prop where
  kind : ∀ k, s.1 = some k → k ∈ known
  members : ∀ m ∈ s.2, Kept P depth m.2

theorem Sorts.setKind {known : List String} {depth : Nat} {s s' : Option String × Members}
    {t : Tree} (h : Sorts P known depth s)
    (hs : (do return (some (← t.variant known), s.2)) = Except.ok (ε := Fault) s') :
    Sorts P known depth s' := by
  obtain ⟨k, hk, he⟩ := Except.bind_eq_ok_iff.1 hs
  cases he
  refine ⟨fun l hl => ?_, h.members⟩
  cases hl
  exact variant_eq_ok hk

theorem Sorts.push {known : List String} {depth : Nat} {s s' : Option String × Members}
    {key : String} {t : Tree} (h : Sorts P known depth s) (ht : t.Numbers P)
    (hs : (do return (s.1, (key, ← t.content depth) :: s.2)) = Except.ok (ε := Fault) s') :
    Sorts P known depth s' := by
  obtain ⟨v, hv, he⟩ := Except.bind_eq_ok_iff.1 hs
  cases he
  refine ⟨h.kind, fun m hm => ?_⟩
  rcases List.mem_cons.1 hm with rfl | hm
  · exact ⟨numbers_content depth ht hv, t, hv⟩
  · exact h.members m hm

/-- A kind is one of the known ones, and what is left without it has kept parts. -/
theorem kept_of_tagged {expected tag : String} {known : List String} {depth : Nat} {t : Tree}
    {kind : String} {rest : Json} (hn : t.Numbers P)
    (h : t.tagged expected tag known depth = .ok (kind, rest)) :
    ∃ d, depth = d + 1 ∧ kind ∈ known ∧ PartsKept P d rest := by
  cases depth with
  | zero => cases t <;> cases h
  | succ d =>
    refine ⟨d, rfl, ?_⟩
    cases t with
    | array start elems =>
      cases elems with
      | stop comma offset next? =>
        simp only [Tree.tagged] at h
        split at h
        · next he => cases he
        · cases h
        · cases h
      | item value more =>
        obtain ⟨k, hk, h⟩ := Except.bind_eq_ok_iff.1 h
        obtain ⟨vs, hvs, h⟩ := Except.bind_eq_ok_iff.1 h
        cases h
        exact ⟨variant_eq_ok hk, Elems.kept_of_read more hn.2 hvs⟩
    | object start entries =>
      obtain ⟨⟨⟨kind?, acc⟩, offset⟩, hfold, h⟩ := Except.bind_eq_ok_iff.1 h
      have hsorts : Sorts P known d (kind?, acc) := by
        refine Entries.fold_keeps (fun {s key offset read t s'} hs hread ht hs' => ?_) entries
          (Entries.Numbers.forall hn) ⟨by simp, by simp⟩ hfold
        split at hread
        · split at hread
          · cases hread
          · cases hread
            exact hs.setKind hs'
        · cases hread
          exact hs.push ht hs'
      cases kind? with
      | none => cases h
      | some k =>
        cases h
        exact ⟨hsorts.kind kind rfl, fun m hm => hsorts.members m (List.mem_reverse.1 hm)⟩
    | _ => cases h

/-- A pass over members each of which is taken in takes them in one after the other. -/
theorem Entries.fold_foldl {σ : Type}
    {enter : σ → String → Nat → Except Fault (Tree → Except Fault σ)}
    (next : σ → String × Json → σ) : (ms : Members) →
    (∀ s, ∀ m ∈ ms, (enter s m.1 0 >>= fun read => read (.ofJson m.2)) = .ok (next s m)) →
    (s : σ) → (Entries.ofMembers ms).fold enter s = .ok (ms.foldl next s, 1)
  | [], _, s => by simp [Entries.ofMembers, Entries.fold]
  | (k, v) :: rest, h, s => by
    obtain ⟨read, hread, hnext⟩ := Except.bind_eq_ok_iff.1 (h s (k, v) List.mem_cons_self)
    have hrest := fold_foldl next rest (fun s m hm => h s m (List.mem_cons_of_mem _ hm)) (next s (k, v))
    rw [Entries.ofMembers, Entries.fold]
    exact Except.bind_eq_ok_iff.2 ⟨k, rfl, Except.bind_eq_ok_iff.2 ⟨read, hread,
      Except.bind_eq_ok_iff.2 ⟨_, hnext, hrest⟩⟩⟩

theorem foldl_cons_snd {β : Type} (kind? : Option String) (ms : List β) : ∀ acc : List β,
    ms.foldl (fun s m => (s.1, m :: s.2)) (kind?, acc) = (kind?, ms.reverse ++ acc) := by
  induction ms with
  | nil => intro acc; rfl
  | cons m ms ih => intro acc; rw [List.foldl_cons, ih]; simp

theorem variant_string {known : List String} {kind : String} (h : kind ∈ known) :
    Tree.variant known (.string (.ofValue kind)) = .ok kind := by
  refine Except.bind_eq_ok_iff.2 ⟨kind, rfl, ?_⟩
  rw [if_pos (by simpa using h)]
  rfl

/-- A kind that is written as the first member is told from it. -/
theorem tagged_object {expected tag : String} {known : List String} {depth : Nat} {kind : String}
    {ms : Members} (hkind : kind ∈ known) (htag : tag ∉ ms.keys)
    (hms : ∀ m ∈ ms, (Tree.ofJson m.2).content depth = .ok m.2) :
    Tree.tagged expected tag known (depth + 1) (.ofJson (.object ((tag, .string kind) :: ms))) =
      .ok (kind, .object ms) := by
  rw [Tree.ofJson, Tree.tagged, Entries.ofMembers, Entries.fold]
  refine Except.bind_eq_ok_iff.2 ⟨((some kind, ms.reverse), 1), ?_, by simp [pure, Except.pure]⟩
  refine Except.bind_eq_ok_iff.2 ⟨tag, rfl, ?_⟩
  rw [if_pos rfl]
  refine Except.bind_eq_ok_iff.2 ⟨_, rfl, ?_⟩
  refine Except.bind_eq_ok_iff.2 ⟨(some kind, []),
    Except.bind_eq_ok_iff.2 ⟨kind, variant_string hkind, rfl⟩, ?_⟩
  rw [Entries.fold_foldl (fun s m => (s.1, m :: s.2)), foldl_cons_snd, List.append_nil]
  intro s m hm
  have hne : m.1 ≠ tag := by rintro rfl; exact htag (List.mem_map_of_mem hm)
  rw [if_neg hne]
  exact Except.bind_eq_ok_iff.2 ⟨_, rfl, Except.bind_eq_ok_iff.2 ⟨m.2, hms m hm, rfl⟩⟩

/-! ## Fields of a kind -/

theorem Elems.forall_ofItems {Q : Json → Prop} : {items : List Json} → (∀ v ∈ items, Q v) →
    (Elems.ofItems items).Forall fun t => ∃ v, t = .ofJson v ∧ Q v
  | [], _ => trivial
  | v :: _, h => ⟨⟨v, rfl, h v List.mem_cons_self⟩,
      forall_ofItems fun w hw => h w (List.mem_cons_of_mem _ hw)⟩

theorem Entries.forall_ofMembers {Q : Json → Prop} : {ms : Members} → (∀ m ∈ ms, Q m.2) →
    (Entries.ofMembers ms).Forall fun t => ∃ v, t = .ofJson v ∧ Q v
  | [], _ => trivial
  | (k, v) :: _, h => ⟨⟨v, rfl, h (k, v) List.mem_cons_self⟩,
      forall_ofMembers fun m hm => h m (List.mem_cons_of_mem _ hm)⟩

/-- The fields of a kind have values that they can have. -/
theorem gives_of_fieldsOf {α : Type} {name : String} {fs : Fields α} (hn : fs.names.Nodup)
    {depth : Nat} {v : Json} (hv : PartsKept P depth v) {a : α}
    (h : Tree.fieldsOf name fs v = .ok a) :
    fs.Gives (fun t => ∃ v, t = .ofJson v ∧ Kept P depth v) a := by
  cases v with
  | array items =>
    obtain ⟨⟨b, left⟩, hb, h⟩ := Except.bind_eq_ok_iff.1 h
    have he : b = a := by
      dsimp only at h
      split at h
      · exact absurd h Except.throw_ne_ok
      · exact Except.ok.inj h
    exact he ▸ Fields.gives_of_ofElems (Elems.forall_ofItems hv) hb
  | object ms =>
    exact Fields.gives_of_read (Entries.forall_ofMembers hv) (Fields.read_of_ofEntries hn h)
  | _ => cases h

/-- Fields that are written are read again as those of a kind. -/
theorem fieldsOf_members {α : Type} {name : String} {fs : Fields α} (hn : fs.names.Nodup)
    {values : List (Option Json)} {a : α} (h : fs.Written P values a) :
    Tree.fieldsOf name fs (.object (fs.members values)) = .ok a :=
  h.ofEntries hn

end Json

namespace Patch

open Json (Tree)

/-! ## Operations -/

/-- A value that can be written inside `depth` brackets and read again as the value of an
    operation. -/
def Rewritable (P : Json.Number → Prop) (depth : Nat) (value : Json) : Prop :=
  value.Numbers P ∧ (Tree.ofJson value).content depth = .ok value ∧
    (Tree.ofJson value).value Json.maxDepth = .ok value

/-- The value of an operation, if it has one, can be written and read again. -/
def Op.Kept (P : Json.Number → Prop) (depth : Nat) : Op → Prop
  | add _ value | replace _ value | test _ value => Rewritable P depth value
  | remove _ => True

theorem rewritable_of_fieldsOf {name : String} {depth : Nat} {v : Json}
    (hv : Json.PartsKept P depth v) {path : String} {value : Json} {u : Unit}
    (h : Tree.fieldsOf name pathAndValue v = .ok (path, value, u)) : Rewritable P depth value := by
  obtain ⟨-, hvalue, -⟩ := Json.gives_of_fieldsOf (by decide) hv h
  rcases hvalue with hvalue | hvalue | ⟨_, ⟨w, rfl, hw⟩, hvalue⟩
  · cases hvalue
  · cases hvalue
  · exact hw.value hvalue

/-- An operation that is read has a value that can be written and read again. -/
theorem Op.kept_of_read {depth : Nat} {t : Tree} {op : Op} (ht : t.Numbers P)
    (h : Op.read depth t = .ok op) : ∃ d, depth = d + 1 ∧ op.Kept P d := by
  obtain ⟨⟨kind, rest⟩, hkind, h⟩ := Except.bind_eq_ok_iff.1 h
  obtain ⟨d, rfl, hknown, hrest⟩ := Json.kept_of_tagged ht hkind
  refine ⟨d, rfl, ?_⟩
  simp only [kinds, List.mem_cons, List.not_mem_nil, or_false] at hknown
  rcases hknown with rfl | rfl | rfl | rfl <;>
    obtain ⟨⟨path, value⟩, hfields, h⟩ := Except.bind_eq_ok_iff.1 h <;> cases h
  · exact rewritable_of_fieldsOf hrest hfields
  · trivial
  · exact rewritable_of_fieldsOf hrest hfields
  · exact rewritable_of_fieldsOf hrest hfields

/-- A kind with a path and a value is read from what is written of them. -/
theorem exists_tagged_value {depth : Nat} {value : Json} (h : Rewritable P depth value)
    {kind : String} (hkind : kind ∈ Op.kinds) (name path : String) :
    ∃ rest, Tree.tagged "internally tagged enum PatchOp" "op" Op.kinds (depth + 1)
        (.ofJson (.object [("op", .string kind), ("path", .string path), ("value", value)])) =
          .ok (kind, rest) ∧
      Tree.fieldsOf name pathAndValue rest = .ok (path, value, ()) := by
  have hw : pathAndValue.Written P [some (.string path), some value] (path, value, ()) :=
    ⟨⟨trivial, rfl⟩, ⟨h.1, h.2.2⟩, rfl⟩
  refine ⟨.object [("path", .string path), ("value", value)],
    Json.tagged_object hkind (by simp [Json.Members.keys]) ?_, Json.fieldsOf_members (by decide) hw⟩
  intro m hm
  simp only [List.mem_cons, List.not_mem_nil, or_false] at hm
  rcases hm with rfl | rfl
  · cases depth <;> rfl
  · exact h.2.1

theorem Op.numbers_toJson {depth : Nat} {op : Op} (h : op.Kept P depth) : op.toJson.Numbers P := by
  cases op with
  | remove path => exact ⟨trivial, trivial, trivial⟩
  | add path value | replace path value | test path value =>
    exact ⟨trivial, trivial, h.1, trivial⟩

/-- An operation is read from what is written of it. -/
theorem Op.read_toJson {depth : Nat} {op : Op} (h : op.Kept P depth) :
    Op.read (depth + 1) (.ofJson op.toJson) = .ok op := by
  cases op with
  | remove path =>
    have htag : Tree.tagged "internally tagged enum PatchOp" "op" kinds (depth + 1)
        (.ofJson (.object [("op", .string "remove"), ("path", .string path)])) =
          .ok ("remove", .object [("path", .string path)]) := by
      refine Json.tagged_object (by decide) (by simp [Json.Members.keys]) fun m hm => ?_
      rw [List.mem_singleton.1 hm]
      cases depth <;> rfl
    exact Except.bind_eq_ok_iff.2 ⟨_, htag, rfl⟩
  | add path value =>
    obtain ⟨rest, htag, hfields⟩ :=
      exists_tagged_value h (by decide : "add" ∈ kinds) "struct variant PatchOp::Add" path
    exact Except.bind_eq_ok_iff.2 ⟨_, htag, Except.bind_eq_ok_iff.2 ⟨_, hfields, rfl⟩⟩
  | replace path value =>
    obtain ⟨rest, htag, hfields⟩ :=
      exists_tagged_value h (by decide : "replace" ∈ kinds) "struct variant PatchOp::Replace" path
    exact Except.bind_eq_ok_iff.2 ⟨_, htag, Except.bind_eq_ok_iff.2 ⟨_, hfields, rfl⟩⟩
  | test path value =>
    obtain ⟨rest, htag, hfields⟩ :=
      exists_tagged_value h (by decide : "test" ∈ kinds) "struct variant PatchOp::Test" path
    exact Except.bind_eq_ok_iff.2 ⟨_, htag, Except.bind_eq_ok_iff.2 ⟨_, hfields, rfl⟩⟩

theorem Op.restores_read (depth : Nat) : Json.Restores P (Op.read depth) toJson := by
  intro t op ht h
  obtain ⟨d, rfl, hkept⟩ := Op.kept_of_read ht h
  exact ⟨Op.numbers_toJson hkept, Op.read_toJson hkept⟩

end Patch

end ImportBinding

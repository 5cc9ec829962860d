/-
  ImportBinding — the readers of the model see values only.

  Every reader of the model is uniform: it reads from a text what it reads from the value
  that the text shows.

  * `uniform_inside` and `uniform_list_inside` are records and lists behind one more bracket;
  * `uniform_tagged` and `uniform_unitVariant` are the readers of kinds;
  * then comes one lemma for each type.
-/
import ImportBinding.Report.Format
import ImportBinding.Proofs.Declaration.Reading
import ImportBinding.Proofs.Json.Form

namespace ImportBinding

open Json (Fields Members Reader Tree Uniform)

/-! ## Kinds -/

namespace Json

/-- A step that follows a uniform reader sees values only. -/
theorem uniform_bind {α β : Type} {read : Reader α} (hu : Uniform read)
    (f : α → Except Fault β) : Uniform fun t => read t >>= f := by
  intro t v h
  rw [Except.toOption_bind, Except.toOption_bind, hu h]

theorem uniform_variant (known : List String) : Uniform (Tree.variant known) := by
  intro t v h
  rw [Tree.variant, Tree.variant, Except.toOption_bind, Except.toOption_bind, uniform_textAs _ h]
  refine Option.bind_congr fun name _ => ?_
  split <;> rfl

/-- What a pass over an object leaves depends on the members that are shown. -/
theorem tagged_object_uniform {tag : String} {entries : Entries} {ms : Members}
    {enter : Option String × Members → String → Nat →
      Except Fault (Tree → Except Fault (Option String × Members))}
    (hu : UniformEnter enter) (h : entries.Shows ms) :
    Except.toOption (do
      let ((kind?, acc), offset) ← entries.fold enter (none, [])
      match kind? with
      | some kind => return (kind, Json.object acc.reverse)
      | none => throw (misshapen (.missingField tag) offset)) =
    Except.toOption (do
      let ((kind?, acc), offset) ← (Entries.ofMembers ms).fold enter (none, [])
      match kind? with
      | some kind => return (kind, Json.object acc.reverse)
      | none => throw (misshapen (.missingField tag) offset)) := by
  have hfold := Entries.fold_uniform hu entries h (none, [])
  generalize entries.fold enter (none, []) = x at hfold ⊢
  generalize (Entries.ofMembers ms).fold enter (none, []) = y at hfold ⊢
  rcases x with _ | ⟨⟨kind?, acc⟩, offset⟩ <;> rcases y with _ | ⟨⟨kind?', acc'⟩, offset'⟩
  · rfl
  · cases hfold
  · cases hfold
  · cases hfold
    cases kind? <;> rfl

theorem uniform_tagged (expected tag : String) (known : List String) (depth : Nat) :
    Uniform (Tree.tagged expected tag known depth) := by
  intro t v h
  rcases h.cases with ⟨l, s, rfl, rfl, -⟩ | ⟨l, s, rfl, rfl, -⟩ |
    ⟨start, elems, items, rfl, rfl, helems⟩ | ⟨start, entries, ms, rfl, rfl, hentries⟩
  · cases depth <;> rfl
  · rw [Tree.ofJson_scalar]
    cases depth <;> rfl
  · cases depth with
    | zero => rfl
    | succ depth =>
      cases elems with
      | stop comma offset next? =>
        obtain ⟨rfl, rfl, rfl⟩ := helems
        rfl
      | item value rest =>
        cases items with
        | nil => exact absurd helems id
        | cons v vs =>
          simp only [Tree.ofJson, Elems.ofItems, Tree.tagged, Except.toOption_bind,
            uniform_variant known helems.1,
            Elems.read_uniform (uniform_content depth) rest helems.2]
  · cases depth with
    | zero => rfl
    | succ depth =>
      refine tagged_object_uniform (fun s key offset offset' t v ht => ?_) hentries
      by_cases hkey : key = tag
      · subst hkey
        by_cases hs : s.1.isSome
        · simp only [hs, if_true]
          rfl
        · simp only [hs, if_true]
          exact Except.toOption_map_congr (fun kind => (some kind, s.2))
            (uniform_variant known ht)
      · simp only [hkey, if_false]
        exact Except.toOption_map_congr (fun v => (s.1, (key, v) :: s.2))
          (uniform_content depth ht)

/-- What is read from a first member depends on what is shown. -/
theorem unitVariant_member {known : List String} {depth start colon : Nat} {key : Literal String}
    {value : Tree} {rest : Entries} {k : String} {v : Json} {ms : Members} (hkey : key.Shows k)
    (hvalue : value.Shows v) (hrest : rest.Shows ms) :
    (Tree.unitVariant known (depth + 1) (.object start (.member key colon value rest))).toOption =
      (Tree.unitVariant known (depth + 1) (.ofJson (.object ((k, v) :: ms)))).toOption := by
  have hname : (Tree.variant known (.string key)).toOption =
      (Tree.variant known (.string (.ofValue k))).toOption :=
    uniform_variant known (v := .string k) ⟨k, hkey, rfl⟩
  simp only [Tree.ofJson, Entries.ofMembers, Tree.unitVariant, Except.toOption_bind, hname]
  refine Option.bind_congr fun name _ => ?_
  rcases hvalue.cases with ⟨l, s, rfl, rfl, -⟩ | ⟨⟨start, stop, kept, passed⟩, s, rfl, rfl, hl⟩ |
    ⟨start, elems, items, rfl, rfl, -⟩ | ⟨start, entries, ms, rfl, rfl, -⟩
  · rfl
  · obtain rfl : kept = .ok s := hl.1
    rw [Tree.ofJson_scalar]
    cases s with
    | null =>
      rcases hrest.cases with ⟨offset, rfl, rfl⟩ | ⟨_, _, _, _, _, _, _, rfl, rfl, -⟩
      · rfl
      · rfl
    | bool | number => rfl
  · rfl
  · rfl

theorem uniform_unitVariant (known : List String) (depth : Nat) :
    Uniform (Tree.unitVariant known depth) := by
  intro t v h
  rcases h.cases with ⟨l, s, rfl, rfl, -⟩ | ⟨l, s, rfl, rfl, -⟩ |
    ⟨start, elems, items, rfl, rfl, -⟩ | ⟨start, entries, ms, rfl, rfl, hentries⟩
  · exact uniform_variant known h
  · rw [Tree.ofJson_scalar]
    rfl
  · rfl
  · cases depth with
    | zero => rfl
    | succ depth =>
      rcases hentries.cases with ⟨offset, rfl, rfl⟩ |
        ⟨key, colon, value, rest, k, v, ns, rfl, rfl, hkey, hvalue, hrest⟩
      · rfl
      · exact unitVariant_member hkey hvalue hrest

end Json

/-! ## Types -/

/-- A record whose fields are uniform inside any number of brackets. -/
theorem uniform_inside {α ρ : Type} {name : String} {depth : Nat} {fields : Nat → Fields α}
    {make : α → ρ} (h : ∀ d < depth, (fields d).Uniform) :
    Uniform (Tree.record name (Json.inside depth fields) make) := by
  refine Json.uniform_record fun fs hfs => ?_
  obtain ⟨d, hd, rfl⟩ := Json.inside_eq_some_iff.1 hfs
  exact h d (by omega)

theorem uniform_list_inside {α : Type} {depth : Nat} {read : Nat → Reader α}
    (h : ∀ d < depth, Uniform (read d)) : Uniform (Tree.list (Json.inside depth read)) := by
  refine Json.uniform_list fun r hr => ?_
  obtain ⟨d, hd, rfl⟩ := Json.inside_eq_some_iff.1 hr
  exact h d (by omega)

theorem Metadata.uniform_read (depth : Nat) : Uniform (Metadata.read depth) :=
  uniform_inside fun _ _ => ⟨Json.uniform_text, Json.uniform_boolean, trivial⟩

theorem Passing.uniform_read : Uniform Passing.read :=
  Json.uniform_map Json.uniform_text Passing.ofString

theorem Parameter.uniform_read (depth : Nat) : Uniform (Parameter.read depth) :=
  uniform_inside fun _ _ => ⟨Json.uniform_text, Json.uniform_text, Passing.uniform_read, trivial⟩

theorem Signature.uniform_read (depth : Nat) : Uniform (Signature.read depth) :=
  uniform_inside fun _ _ => ⟨Json.uniform_text,
    uniform_list_inside fun _ _ => Parameter.uniform_read _,
    Json.uniform_optional Json.uniform_text, trivial⟩

theorem ImportMark.uniform_read (depth : Nat) : Uniform (ImportMark.read depth) :=
  uniform_inside fun _ _ =>
    ⟨Json.uniform_optional Json.uniform_text, Json.uniform_optional Json.uniform_boolean, trivial⟩

theorem Method.uniform_read (depth : Nat) : Uniform (Method.read depth) :=
  uniform_inside fun d _ => ⟨Json.uniform_text, Json.uniform_boolean,
    uniform_list_inside fun _ _ => Parameter.uniform_read _,
    Json.uniform_optional Json.uniform_text, Json.uniform_optional (Json.uniform_value d), trivial⟩

theorem Container.uniform_read (depth : Nat) : Uniform (Container.read depth) := by
  induction depth using Nat.strongRecOn with
  | ind depth ih =>
    cases depth with
    | zero => exact Json.uniform_record fun _ h => nomatch h
    | succ depth =>
      rw [read_succ]
      refine Json.uniform_record fun fs hfs => ?_
      obtain rfl := Option.some.inj hfs
      exact ⟨Json.uniform_text, Json.uniform_boolean,
        Json.uniform_optional (ImportMark.uniform_read depth),
        uniform_list_inside fun _ _ => Method.uniform_read _,
        uniform_list_inside fun d hd => ih d (by omega), trivial⟩

theorem Document.uniform_read (depth : Nat) : Uniform (Document.read depth) :=
  uniform_inside fun _ _ =>
    ⟨Json.uniform_text, uniform_list_inside fun _ _ => Container.uniform_read _, trivial⟩

theorem Patch.Op.uniform_read (depth : Nat) : Uniform (Patch.Op.read depth) :=
  Json.uniform_bind (Json.uniform_tagged _ _ _ depth) _

theorem Location.uniform_read (depth : Nat) : Uniform (Location.read depth) :=
  Json.uniform_bind (Json.uniform_tagged _ _ _ depth) _

theorem QuickfixKind.uniform_read (depth : Nat) : Uniform (QuickfixKind.read depth) :=
  Json.uniform_bind (Json.uniform_unitVariant _ depth) _

theorem Quickfix.uniform_read (depth : Nat) : Uniform (Quickfix.read depth) :=
  uniform_inside fun d _ => ⟨QuickfixKind.uniform_read d,
    uniform_list_inside fun _ _ => Patch.Op.uniform_read _,
    Json.uniform_optional Json.uniform_text, trivial⟩

end ImportBinding

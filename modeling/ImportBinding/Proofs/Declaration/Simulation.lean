/-
  ImportBinding — edits of a value and of the document in it.

  The operations are found on a document, and done to a value of which only the document is
  known.  Unless a record in array form is in the way, an edit of the value is an edit of
  the document that is read from it.

  * `list_edits` is the edit of one item of a list, given what happens in the item;
  * `Method.Target.exists_edits`, `Container.Target.exists_edits` and
    `Document.Target.exists_edits` are this simulation for the three kinds of records.
-/
import ImportBinding.Proofs.Declaration.Mend
import ImportBinding.Proofs.Declaration.Reading
import ImportBinding.Proofs.Patch.Edit

namespace ImportBinding

open Json (Fields Field Members Reader Tree)
open Patch (Edits)

/-! ## Records -/

theorem Json.record_cases {α ρ : Type} {name : String} {fields : Option (Fields α)} {make : α → ρ}
    {u : Json} {r : ρ} (h : Tree.record name fields make (.ofJson u) = .ok r) :
    (∃ items, u = .array items) ∨ ∃ ms : Members, u = .object ms := by
  cases u with
  | array items => exact Or.inl ⟨items, rfl⟩
  | object ms => exact Or.inr ⟨ms, rfl⟩
  | _ => cases h

/-- A record that a path of edits passes is an object. -/
theorem Json.object_of_record {α ρ : Type} {name : String} {fields : Option (Fields α)}
    {make : α → ρ} {u : Json} {r : ρ} (h : Tree.record name fields make (.ofJson u) = .ok r)
    {token : String} {p : Json.Pointer} (hm : ¬ u.MeetsArray (token :: p)) :
    ∃ ms : Members, u = .object ms := by
  rcases record_cases h with ⟨items, rfl⟩ | h
  · exact absurd .record hm
  · exact h

/-- A record is read from members in order iff it holds there. -/
theorem Json.record_object_iff {α ρ : Type} {name : String} {fs : Fields α} {make : α → ρ}
    {ms : Members} {r : ρ} (hs : ms.Sorted) (hn : fs.names.Nodup) :
    Tree.record name (some fs) make (.ofJson (.object ms)) = .ok r ↔
      ∃ a, fs.Holds ms a ∧ make a = r := by
  simp only [← Fields.ofEntries_ofMembers_iff hs.nodup_keys hn]
  exact Except.map_eq_ok_iff

/-! ## Lists -/

theorem forall₂_set {α β : Type*} {R : α → β → Prop} {as : List α} {bs : List β}
    (h : List.Forall₂ R as bs) {a : α} {b : β} (hab : R a b) :
    ∀ i, List.Forall₂ R (as.set i a) (bs.set i b) := by
  induction h with
  | nil => intro i; exact .nil
  | cons hab' htail ih =>
    intro i
    cases i with
    | zero => exact .cons hab htail
    | succ i => exact .cons hab' (ih i)

theorem exists_getElem?_of_forall₂ {α β : Type*} {R : α → β → Prop} {as : List α} {bs : List β}
    (h : List.Forall₂ R as bs) {b : β} : ∀ {i : Nat}, bs[i]? = some b →
      ∃ a, as[i]? = some a ∧ R a b := by
  induction h with
  | nil => intro i hi; simp at hi
  | cons hab _ ih =>
    intro i hi
    cases i with
    | zero =>
      obtain rfl := Option.some.inj hi
      exact ⟨_, rfl, hab⟩
    | succ i => exact ih hi

/-- A list of records that is not empty is read from a list of values. -/
theorem exists_values_of_holds {α : Type} {read : Option (Reader α)} {key : String} {ms : Members}
    {as : List α} (h : (Field.orElse key (Tree.list read) []).Holds ms as) {i : Nat} {a : α}
    (ha : as[i]? = some a) : ∃ r us, read = some r ∧ ms.find? key = some (.array us) ∧
      List.Forall₂ (fun u a => r (.ofJson u) = .ok a) us as := by
  rw [Field.Holds] at h
  split at h
  · rw [← Option.some.inj h] at ha
    simp at ha
  · next v hv =>
    cases v with
    | array us =>
      cases read with
      | none => cases h
      | some r => exact ⟨r, us, rfl, hv, Json.Elems.read_ofItems_iff.1 h⟩
    | _ => cases h

/-- The edit of one item of a list of records. -/
theorem list_edits {α : Type} {read : Option (Reader α)} {f : Selection → α → α} {S : Selection}
    {key : String} (hkey : key = "containers" ∨ key = "methods") {i : Nat} {p : Json.Pointer}
    {ms : Members} {as : List α} {a : α} (hu : (Json.object ms).Addressable)
    (hm : ¬ (Json.object ms).MeetsArray (key :: Nat.repr i :: p)) (ha : as[i]? = some a)
    (hr : (Field.orElse key (Tree.list read) []).Holds ms
      (as.mapIdx fun j a => f (S.inside key j) a))
    (step : ∀ r u, read = some r → u.Addressable → ¬ u.MeetsArray p →
      r (.ofJson u) = .ok (f (S.inside key i) a) →
      ∃ u', Edits p u u' ∧ r (.ofJson u') = .ok (f ((S.inside key i).insert p) a)) :
    ∃ us, Edits (key :: Nat.repr i :: p) (.object ms) (.object (ms.insert key (.array us))) ∧
      (Field.orElse key (Tree.list read) []).Holds (ms.insert key (.array us))
        (as.mapIdx fun j a => f ((S.insert (key :: Nat.repr i :: p)).inside key j) a) := by
  have hmapped : (as.mapIdx fun j a => f (S.inside key j) a)[i]? = some (f (S.inside key i) a) := by
    rw [List.getElem?_mapIdx, ha]
    rfl
  obtain ⟨r, us, rfl, hv, hall⟩ := exists_values_of_holds hr hmapped
  obtain ⟨u, hi, hru⟩ := exists_getElem?_of_forall₂ hall hmapped
  obtain ⟨hlt, hitem⟩ := (hu.member hv).item hi
  have hmi : ¬ u.MeetsArray p := fun h => hm (.item hkey hv hi h)
  obtain ⟨u', he, hru'⟩ := step r u rfl hitem hmi hru
  refine ⟨us.set i u', .item hkey hv hi hlt he, ?_⟩
  rw [Field.Holds, Field.orElse, Members.find?_insert_self, mapIdx_insert ha]
  exact Json.Elems.read_ofItems_iff.2 (forall₂_set hall hru' i)

/-! ## Methods -/

/-- What a method finds in members in order. -/
theorem Method.read_object_iff {d : Nat} {ms : Members} {m : Method} (hs : ms.Sorted) :
    Method.read (d + 1) (.ofJson (.object ms)) = .ok m ↔
      (fields d).Holds ms (m.name, m.isPartial, m.params, m.returns, m.body, ()) := by
  refine (Json.record_object_iff hs (names_nodup d)).trans ⟨?_, fun h => ⟨_, h, rfl⟩⟩
  rintro ⟨_, h, rfl⟩
  exact h

/-- A mark that is set holds. -/
theorem holds_partial (ms : Members) :
    (Field.orElse "partial" Tree.boolean false).Holds (ms.insert "partial" (.bool true)) true := by
  rw [Field.Holds, Field.orElse, Members.find?_insert_self]
  rfl

/-- An edit of a method in a value is an edit of the method that is read there. -/
theorem Method.Target.exists_edits {D : Nat} {u : Json} {m : Method} {S : Selection}
    {T : Json.Pointer} (hT : m.Target T) (hS : T.isBody = true → S T = false) (hu : u.Addressable)
    (hm : ¬ u.MeetsArray T) (hr : Method.read D (.ofJson u) = .ok (m.mend S)) :
    ∃ u', Edits T u u' ∧ Method.read D (.ofJson u') = .ok (m.mend (S.insert T)) := by
  have hobject : ∃ ms : Members, u = .object ms := by
    cases hT <;> exact Json.object_of_record hr hm
  obtain ⟨ms, rfl⟩ := hobject
  cases D with
  | zero => cases hr
  | succ d =>
    obtain ⟨hname, hpartial, hparams, hreturns, hbody, -⟩ := (Method.read_object_iff hu.sorted).1 hr
    cases hT with
    | notPartial hp =>
      refine ⟨_, .setPartial, (Method.read_object_iff (hu.sorted.insert ..)).2 ?_⟩
      rw [isPartial_mend, body_mend, Selection.insert_self, Bool.or_true,
        Selection.insert_of_ne (by decide), ← body_mend]
      exact ⟨hname.insert (by simp) _, holds_partial ms, hparams.insert (by simp) _,
        hreturns.insert (by simp) _, hbody.insert (by simp) _, trivial⟩
    | body hb =>
      have hnone : (ms.erase "body").find? "body" = none := hu.sorted.find?_erase_self "body"
      -- a body that was cleared before is not there to be removed again
      have hkept : (m.mend S).body = m.body := by
        rw [body_mend, hS rfl]
        rfl
      have hthere : ∃ b, ms.find? "body" = some b := by
        cases hf : ms.find? "body" with
        | some b => exact ⟨b, rfl⟩
        | none =>
          rw [Field.Holds, Field.optional, Field.orElse, hf, hkept] at hbody
          rw [← Option.some.inj hbody] at hb
          cases hb
      obtain ⟨b, hb'⟩ := hthere
      refine ⟨_, .clearBody hb', (Method.read_object_iff (hu.sorted.erase _)).2 ?_⟩
      rw [isPartial_mend, body_mend, Selection.insert_self, if_pos rfl,
        Selection.insert_of_ne (by decide), ← isPartial_mend]
      refine ⟨hname.erase (by simp), hpartial.erase (by simp), hparams.erase (by simp),
        hreturns.erase (by simp), ?_, trivial⟩
      rw [Field.Holds, Field.optional, Field.orElse, hnone]

/-! ## Containers -/

/-- What a container finds in members in order. -/
theorem Container.read_object_iff {d : Nat} {ms : Members} {c : Container} (hs : ms.Sorted) :
    Container.read (d + 1) (.ofJson (.object ms)) = .ok c ↔
      (fields d (Tree.list (Json.inside d Container.read))).Holds ms
        (c.name, c.isPartial, c.mark, c.methods, c.containers, ()) := by
  rw [read_succ]
  refine (Json.record_object_iff hs (names_nodup ..)).trans ⟨?_, fun h => ⟨_, h, by cases c; rfl⟩⟩
  rintro ⟨_, h, rfl⟩
  exact h

/-- What a mended container finds in members in order. -/
theorem Container.read_mend_iff {d : Nat} {ms : Members} {c : Container} {S : Selection}
    (hs : ms.Sorted) : Container.read (d + 1) (.ofJson (.object ms)) = .ok (c.mend S) ↔
      (fields d (Tree.list (Json.inside d Container.read))).Holds ms
        (c.name, c.isPartial || S ["partial"], c.mark,
          c.methods.mapIdx fun i m => m.mend (S.inside "methods" i),
          c.containers.mapIdx fun i c => c.mend (S.inside "containers" i), ()) := by
  rw [read_object_iff hs, name_mend, isPartial_mend, mark_mend, methods_mend, containers_mend]

theorem Container.exists_read_succ {D : Nat} {ms : Members} {c : Container}
    (h : Container.read D (.ofJson (.object ms)) = .ok c) : ∃ d, D = d + 1 := by
  cases D with
  | zero => cases h
  | succ d => exact ⟨d, rfl⟩

theorem Container.object_of_read {D : Nat} {u : Json} {c : Container}
    (h : Container.read D (.ofJson u) = .ok c) {token : String} {p : Json.Pointer}
    (hm : ¬ u.MeetsArray (token :: p)) : ∃ ms : Members, u = .object ms := by
  cases D with
  | zero => exact Json.object_of_record h hm
  | succ d =>
    rw [read_succ] at h
    exact Json.object_of_record h hm

/-- A target inside an item is a body iff it is one from the item. -/
theorem isBody_cons_cons {key token : String} {p : Json.Pointer} (hp : p ≠ []) :
    Json.Pointer.isBody (key :: token :: p) = Json.Pointer.isBody p :=
  Json.Pointer.isBody_append (p := [key, token]) hp

theorem Container.Target.ne_nil {c : Container} {T : Json.Pointer} (h : c.Target T) : T ≠ [] := by
  cases h <;> simp

theorem Method.Target.ne_nil {m : Method} {T : Json.Pointer} (h : m.Target T) : T ≠ [] := by
  cases h <;> simp

/-- An edit of a container in a value is an edit of the container that is read there. -/
theorem Container.Target.exists_edits {c : Container} {T : Json.Pointer} (hT : c.Target T) :
    ∀ {D : Nat} {u : Json} {S : Selection}, (T.isBody = true → S T = false) → u.Addressable →
      ¬ u.MeetsArray T → Container.read D (.ofJson u) = .ok (c.mend S) →
      ∃ u', Edits T u u' ∧ Container.read D (.ofJson u') = .ok (c.mend (S.insert T)) := by
  induction hT with
  | notPartial =>
    intro D u S hS hu hm hr
    obtain ⟨ms, rfl⟩ := object_of_read hr hm
    obtain ⟨d, rfl⟩ := exists_read_succ hr
    obtain ⟨hname, hpartial, hmark, hmethods, hcontainers, -⟩ := (read_mend_iff hu.sorted).1 hr
    refine ⟨_, .setPartial, (read_mend_iff (hu.sorted.insert ..)).2 ?_⟩
    rw [Selection.insert_self, Bool.or_true]
    simp only [Selection.inside_insert_singleton]
    exact ⟨hname.insert (by simp) _, holds_partial ms, hmark.insert (by simp) _,
      hmethods.insert (by simp) _, hcontainers.insert (by simp) _, trivial⟩
  | @method c i m p hmark hi h =>
    intro D u S hS hu hm hr
    obtain ⟨ms, rfl⟩ := object_of_read hr hm
    obtain ⟨d, rfl⟩ := exists_read_succ hr
    obtain ⟨hname, hpartial, hmark, hmethods, hcontainers, -⟩ := (read_mend_iff hu.sorted).1 hr
    obtain ⟨us, he, hus⟩ := list_edits (Or.inr rfl) hu hm hi hmethods fun r x hr hx hmx hrx => by
      obtain ⟨e, rfl, rfl⟩ := Json.inside_eq_some_iff.1 hr
      exact h.exists_edits (fun hb => hS ((isBody_cons_cons h.ne_nil).trans hb)) hx hmx hrx
    refine ⟨_, he, (read_mend_iff (hu.sorted.insert ..)).2 ?_⟩
    rw [Selection.insert_of_ne (by simp),
      mapIdx_insert_of_ne (show "containers" ≠ "methods" by decide)]
    exact ⟨hname.insert (by simp) _, hpartial.insert (by simp) _, hmark.insert (by simp) _, hus,
      hcontainers.insert (by simp) _, trivial⟩
  | @nested c c' i p hi h ih =>
    intro D u S hS hu hm hr
    obtain ⟨ms, rfl⟩ := object_of_read hr hm
    obtain ⟨d, rfl⟩ := exists_read_succ hr
    obtain ⟨hname, hpartial, hmark, hmethods, hcontainers, -⟩ := (read_mend_iff hu.sorted).1 hr
    obtain ⟨us, he, hus⟩ := list_edits (Or.inl rfl) hu hm hi hcontainers fun r x hr hx hmx hrx => by
      obtain ⟨e, rfl, rfl⟩ := Json.inside_eq_some_iff.1 hr
      exact ih (fun hb => hS ((isBody_cons_cons h.ne_nil).trans hb)) hx hmx hrx
    refine ⟨_, he, (read_mend_iff (hu.sorted.insert ..)).2 ?_⟩
    rw [Selection.insert_of_ne (by simp),
      mapIdx_insert_of_ne (show "methods" ≠ "containers" by decide)]
    exact ⟨hname.insert (by simp) _, hpartial.insert (by simp) _, hmark.insert (by simp) _,
      hmethods.insert (by simp) _, hus, trivial⟩

/-! ## Documents -/

/-- What a document finds in members in order. -/
theorem Document.read_object_iff {d : Nat} {ms : Members} {doc : Document} (hs : ms.Sorted) :
    Document.read (d + 1) (.ofJson (.object ms)) = .ok doc ↔
      (fields d).Holds ms (doc.version, doc.containers, ()) := by
  refine (Json.record_object_iff hs (names_nodup d)).trans ⟨?_, fun h => ⟨_, h, rfl⟩⟩
  rintro ⟨_, h, rfl⟩
  exact h

/-- An edit of the value of a document is an edit of the document. -/
theorem Document.Target.exists_edits {D : Nat} {u : Json} {doc : Document} {S : Selection}
    {T : Json.Pointer} (hT : doc.Target T) (hS : T.isBody = true → S T = false)
    (hu : u.Addressable) (hm : ¬ u.MeetsArray T)
    (hr : Document.read D (.ofJson u) = .ok (doc.mend S)) :
    ∃ u', Edits T u u' ∧ Document.read D (.ofJson u') = .ok (doc.mend (S.insert T)) := by
  obtain ⟨hi, h⟩ := hT
  obtain ⟨ms, rfl⟩ := Json.object_of_record hr hm
  cases D with
  | zero => cases hr
  | succ d =>
    obtain ⟨hversion, hcontainers, -⟩ := (read_object_iff hu.sorted).1 hr
    rw [containers_mend] at hcontainers
    obtain ⟨us, he, hus⟩ := list_edits (Or.inl rfl) hu hm hi hcontainers fun r x hr hx hmx hrx => by
      obtain ⟨e, rfl, rfl⟩ := Json.inside_eq_some_iff.1 hr
      exact h.exists_edits (fun hb => hS ((isBody_cons_cons h.ne_nil).trans hb)) hx hmx hrx
    refine ⟨_, he, (read_object_iff (hu.sorted.insert ..)).2 ?_⟩
    rw [containers_mend]
    exact ⟨hversion.insert (by simp) _, hus, trivial⟩

end ImportBinding

/-
  ImportBinding — a declaration document and the value of its text.

  The readers of declarations are stable.  So whoever reads the value of a text finds
  there the document of the text.

  * `Document.read_value_of_parse` is that theorem;
  * `Container.read_succ` is the reader of a container, by the brackets inside it.
-/
import ImportBinding.Declaration.Format
import ImportBinding.Proofs.Json.Reading

namespace ImportBinding

open Json (Fields Reader Stable Tree)

/-! ## Stable readers -/

theorem Json.inside_eq_some_iff {β : Type*} {depth : Nat} {f : Nat → β} {b : β} :
    Json.inside depth f = some b ↔ ∃ d, depth = d + 1 ∧ f d = b := by
  cases depth with
  | zero => exact ⟨nofun, nofun⟩
  | succ d =>
    constructor
    · intro h
      exact ⟨d, rfl, Option.some.inj h⟩
    · rintro ⟨_, h, hf⟩
      rw [Nat.succ.inj h]
      exact congrArg some hf

/-- A record whose fields are stable inside any number of brackets. -/
theorem stable_inside {α ρ : Type} {name : String} {depth : Nat} {fields : Nat → Fields α}
    {make : α → ρ} (h : ∀ d < depth, (fields d).Stable ∧ (fields d).names.Nodup) :
    Stable (Tree.record name (Json.inside depth fields) make) := by
  refine Json.stable_record fun fs hfs => ?_
  obtain ⟨d, hd, rfl⟩ := Json.inside_eq_some_iff.1 hfs
  exact h d (by omega)

theorem stable_list_inside {α : Type} {depth : Nat} {read : Nat → Reader α}
    (h : ∀ d < depth, Stable (read d)) : Stable (Tree.list (Json.inside depth read)) := by
  refine Json.stable_list fun r hr => ?_
  obtain ⟨d, hd, rfl⟩ := Json.inside_eq_some_iff.1 hr
  exact h d (by omega)

theorem Parameter.stable_read (depth : Nat) : Stable (Parameter.read depth) := by
  refine stable_inside fun _ _ => ⟨?_, by decide⟩
  exact ⟨Json.stable_text, Json.stable_text, Json.stable_map Json.stable_text Passing.ofString,
    trivial⟩

theorem ImportMark.stable_read (depth : Nat) : Stable (ImportMark.read depth) := by
  refine stable_inside fun _ _ => ⟨?_, by decide⟩
  exact ⟨Json.stable_optional Json.stable_text, Json.stable_optional Json.stable_boolean, trivial⟩

theorem Method.names_nodup (depth : Nat) : (fields depth).names.Nodup :=
  show ["name", "partial", "params", "returns", "body"].Nodup by decide

theorem Method.stable_read (depth : Nat) : Stable (Method.read depth) := by
  refine stable_inside fun d _ => ⟨?_, names_nodup d⟩
  exact ⟨Json.stable_text, Json.stable_boolean,
    stable_list_inside fun _ _ => Parameter.stable_read _,
    Json.stable_optional Json.stable_text, Json.stable_optional (Json.stable_value d), trivial⟩

/-- The reader of a container, inside which `depth` brackets may be opened. -/
theorem Container.read_succ (depth : Nat) : Container.read (depth + 1) =
    Tree.record "struct ContainerDecl"
      (some (fields depth (Tree.list (Json.inside depth Container.read)))) ofFields := by
  cases depth <;> rfl

theorem Container.fields_stable {depth : Nat} {nested : Reader (List Container)}
    (h : Stable nested) : (fields depth nested).Stable :=
  ⟨Json.stable_text, Json.stable_boolean, Json.stable_optional (ImportMark.stable_read depth),
    stable_list_inside fun _ _ => Method.stable_read _, h, trivial⟩

theorem Container.names_nodup (depth : Nat) (nested : Reader (List Container)) :
    (fields depth nested).names.Nodup :=
  show ["name", "partial", "import", "methods", "containers"].Nodup by decide

theorem Container.stable_read (depth : Nat) : Stable (Container.read depth) := by
  induction depth using Nat.strongRecOn with
  | ind depth ih =>
    cases depth with
    | zero => exact Json.stable_record fun _ h => nomatch h
    | succ depth =>
      rw [read_succ]
      refine Json.stable_record fun fs hfs => ?_
      obtain rfl := Option.some.inj hfs
      exact ⟨fields_stable (stable_list_inside fun d hd => ih d (by omega)), names_nodup ..⟩

theorem Document.names_nodup (depth : Nat) : (fields depth).names.Nodup :=
  show ["schema_version", "containers"].Nodup by decide

theorem Document.stable_read (depth : Nat) : Stable (Document.read depth) := by
  refine stable_inside fun d _ => ⟨?_, names_nodup d⟩
  exact ⟨Json.stable_text, stable_list_inside fun _ _ => Container.stable_read _, trivial⟩

/-! ## Texts -/

theorem Json.readAll_eq_ok {α : Type} {read : Reader α} {text : List UInt8} {a : α}
    (h : Json.readAll read text = .ok a) : read (Tree.read text).1 = .ok a := by
  rw [Json.readAll] at h
  generalize Tree.read text = parsed at h ⊢
  obtain ⟨tree, after⟩ := parsed
  obtain ⟨b, hb, h⟩ := Except.bind_eq_ok_iff.1 h
  dsimp only at h
  split at h
  · cases h; exact hb
  · cases h

theorem Json.content_of_ofText {text : List UInt8} {v : Json} (h : Json.ofText text = .ok v) :
    ∃ w, (Tree.read text).1.content Json.maxDepth = .ok w ∧ v = w.canonical := by
  obtain ⟨w, hw, rfl⟩ := Except.map_eq_ok_iff.1 (Json.readAll_eq_ok h)
  exact ⟨w, hw, rfl⟩

/-- A document is read from its text when it has the known version. -/
theorem Document.parse_eq_ok_iff {text : List UInt8} {d : Document} : parse text = .ok d ↔
    Json.readAll (read Json.maxDepth) text = .ok d ∧ Text.trim d.version = knownVersion := by
  unfold parse
  simp only [Except.bind_eq_ok_iff, Except.mapError_eq_ok_iff]
  constructor
  · rintro ⟨d', hd', h⟩
    split at h
    · next hv => cases h; exact ⟨hd', hv⟩
    · cases h
  · rintro ⟨hd, hv⟩
    exact ⟨d, hd, by rw [if_pos hv]; rfl⟩

/-- Whoever reads the value of a text finds the document of the text. -/
theorem Document.read_value_of_parse {text : List UInt8} {d : Document} {v : Json}
    (hd : Document.parse text = .ok d) (hv : Json.ofText text = .ok v) :
    Document.read Json.maxDepth (Tree.ofJson v) = .ok d := by
  obtain ⟨w, hw, rfl⟩ := Json.content_of_ofText hv
  exact Document.stable_read _ (Json.readAll_eq_ok (parse_eq_ok_iff.1 hd).1) hw

end ImportBinding

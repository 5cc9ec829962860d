/-
  ImportBinding — the types of the model are written and read again.

  Every type that has a reader and a writer is restored: what a reader gives, from an object
  or from an array, with defaults, nulls and unknown members, is read again from what is
  written of it.

  * one lemma for each type says so, `Container.restores_read` by induction on the brackets;
  * `formats_reread` is all of them, from a text to what is printed and read again.
-/
import ImportBinding.Proofs.Patch.Restoring
import ImportBinding.Proofs.Report.Form

namespace ImportBinding

open Json (Fields Members Number Reader Restores Tree)

variable {P : Number → Prop}

/-! ## Records -/

/-- A record behind one more bracket is restored when its fields are. -/
theorem restores_inside {α ρ : Type} {name : String} {depth : Nat} {fields : Nat → Fields α}
    {make : α → ρ} {write : ρ → Json} (hn : ∀ d, (fields d).names.Nodup)
    (hw : ∀ d a, depth = d + 1 → (fields d).Gives (Tree.Numbers P) a →
      ∃ values, write (make a) = .object ((fields d).members values) ∧
        (fields d).Written P values a) :
    Restores P (Tree.record name (Json.inside depth fields) make) write := by
  refine Json.restores_record (fun fs hfs => ?_) fun fs a hfs h => ?_
  · obtain ⟨d, -, rfl⟩ := Json.inside_eq_some_iff.1 hfs
    exact hn d
  · obtain ⟨d, hd, rfl⟩ := Json.inside_eq_some_iff.1 hfs
    exact hw d a hd h

theorem Metadata.restores_read (depth : Nat) : Restores P (Metadata.read depth) toJson := by
  refine restores_inside (fun _ => by decide) fun d a _ h => ?_
  obtain ⟨surface, required, _⟩ := a
  obtain ⟨h₁, h₂, -⟩ := h
  exact ⟨[some (.string surface), some (.bool required)], rfl,
    Json.Field.written_required Json.restores_text h₁,
    Json.Field.written_orElse Json.restores_boolean ⟨trivial, rfl⟩ h₂, rfl⟩

/-- A mode that is not known keeps the text verbatim. -/
theorem Passing.ofString_eq_unsupported {s t : String} (h : ofString s = .unsupported t) :
    t = s := by
  unfold ofString at h
  split at h <;> cases h
  rfl

theorem Passing.ofString_spelling (s : String) : ofString (ofString s).spelling = ofString s := by
  generalize hm : ofString s = m
  cases m with
  | unsupported t => rw [spelling, ofString_eq_unsupported hm, hm, ofString_eq_unsupported hm]
  | _ => decide

theorem Passing.restores_read : Restores P Passing.read toJson := by
  intro t m _ h
  obtain ⟨s, -, rfl⟩ := Except.map_eq_ok_iff.1 h
  exact ⟨trivial, congrArg Except.ok (ofString_spelling s)⟩

theorem Parameter.restores_read (depth : Nat) : Restores P (Parameter.read depth) toJson := by
  refine restores_inside (fun _ => by decide) fun d a _ h => ?_
  obtain ⟨name, ty, mode, _⟩ := a
  obtain ⟨h₁, h₂, h₃, -⟩ := h
  exact ⟨[some (.string name), some (.string ty), some mode.toJson], rfl,
    Json.Field.written_required Json.restores_text h₁,
    Json.Field.written_required Json.restores_text h₂,
    Json.Field.written_orElse Passing.restores_read ⟨trivial, by decide⟩ h₃, rfl⟩

theorem restores_list_inside {α : Type} {depth : Nat} {read : Nat → Reader α} {write : α → Json}
    (h : ∀ d, Restores P (read d) write) :
    ∀ r, Json.inside depth read = some r → Restores P r write := by
  intro r hr
  obtain ⟨d, -, rfl⟩ := Json.inside_eq_some_iff.1 hr
  exact h d

theorem Signature.names_nodup (depth : Nat) : (fields depth).names.Nodup :=
  show ["name", "params", "returns"].Nodup by decide

theorem Signature.restores_read (depth : Nat) :
    Restores P (Signature.read (depth + 2)) toJson := by
  refine restores_inside names_nodup fun d a hd h => ?_
  obtain ⟨name, params, returns, _⟩ := a
  obtain ⟨h₁, h₂, h₃, -⟩ := h
  obtain rfl : depth + 1 = d := by omega
  refine ⟨[some (.string name), some (.array (params.map Parameter.toJson)),
    returns.map .string], ?_, Json.Field.written_required Json.restores_text h₁,
    Json.Field.written_orElse (Json.restores_list (restores_list_inside Parameter.restores_read))
      ⟨trivial, rfl⟩ h₂,
    Json.Field.written_optional rfl (Or.inr rfl) rfl Json.restores_text (fun _ _ _ => nofun) h₃,
    rfl⟩
  simp [toJson, fields, Fields.members, Json.member?]

theorem ImportMark.restores_read (depth : Nat) : Restores P (ImportMark.read depth) toJson := by
  refine restores_inside (fun _ => by decide) fun d a _ h => ?_
  obtain ⟨surface, required, _⟩ := a
  obtain ⟨h₁, h₂, -⟩ := h
  refine ⟨[surface.map .string, required.map .bool], ?_,
    Json.Field.written_optional rfl (Or.inr rfl) rfl Json.restores_text (fun _ _ _ => nofun) h₁,
    Json.Field.written_optional rfl (Or.inr rfl) rfl Json.restores_boolean (fun _ _ _ => nofun) h₂,
    rfl⟩
  simp [toJson, fields, Fields.members]

/-- A body that is read is not null: null is no body. -/
theorem Json.optional_value_ne_null {depth : Nat} {t : Tree} {v : Json}
    (h : Tree.optional (Tree.value depth) t = .ok (some v)) : v ≠ .null := by
  rintro rfl
  unfold Tree.optional at h
  split at h
  · cases h
  · next hne =>
    obtain ⟨w, hw, he⟩ := Except.map_eq_ok_iff.1 h
    cases he
    obtain ⟨u, hu, hnull⟩ := Except.map_eq_ok_iff.1 hw
    obtain rfl := canonical_eq_null hnull
    obtain ⟨start, stop, passed, rfl⟩ := content_eq_null hu
    exact hne start stop passed rfl

theorem Method.restores_read (depth : Nat) : Restores P (Method.read depth) toJson := by
  refine restores_inside names_nodup fun d a _ h => ?_
  obtain ⟨name, isPartial, params, returns, body, _⟩ := a
  obtain ⟨h₁, h₂, h₃, h₄, h₅, -⟩ := h
  refine ⟨[some (.string name), some (.bool isPartial),
    if (params.map Parameter.toJson).isEmpty then none
      else some (.array (params.map Parameter.toJson)),
    returns.map .string, body.map id], ?_,
    Json.Field.written_required Json.restores_text h₁,
    Json.Field.written_orElse Json.restores_boolean ⟨trivial, rfl⟩ h₂,
    Json.Field.written_list (restores_list_inside Parameter.restores_read) h₃,
    Json.Field.written_optional rfl (Or.inr rfl) rfl Json.restores_text (fun _ _ _ => nofun) h₄,
    Json.Field.written_optional rfl (Or.inr rfl) rfl (Json.restores_value d)
      (fun _ _ => Json.optional_value_ne_null) h₅, rfl⟩
  simp [toJson, fields, Fields.members, Json.member?, Json.listMember?]

/-! ## Containers and documents -/

theorem containersToJson_eq_map (cs : List Container) :
    containersToJson cs = cs.map Container.toJson := by
  induction cs with
  | nil => rw [containersToJson, List.map_nil]
  | cons c cs ih => rw [containersToJson, ih, List.map_cons]

theorem Container.restores_read (depth : Nat) : Restores P (Container.read depth) toJson := by
  induction depth using Nat.strongRecOn with
  | ind depth ih =>
    cases depth with
    | zero => exact Json.restores_record (fun _ h => nomatch h) fun _ _ h => nomatch h
    | succ depth =>
      rw [read_succ]
      refine Json.restores_record (fun fs hfs => ?_) fun fs a hfs h => ?_
      · obtain rfl := Option.some.inj hfs
        exact names_nodup ..
      · obtain rfl := Option.some.inj hfs
        obtain ⟨name, isPartial, mark, methods, containers, _⟩ := a
        obtain ⟨h₁, h₂, h₃, h₄, h₅, -⟩ := h
        have hnested : ∀ r, Json.inside depth read = some r → Restores P r toJson := by
          intro r hr
          obtain ⟨d, hd, rfl⟩ := Json.inside_eq_some_iff.1 hr
          exact ih d (by omega)
        refine ⟨[some (.string name), some (.bool isPartial), mark.map ImportMark.toJson,
          if (methods.map Method.toJson).isEmpty then none
            else some (.array (methods.map Method.toJson)),
          if (containers.map toJson).isEmpty then none
            else some (.array (containers.map toJson))], ?_,
          Json.Field.written_required Json.restores_text h₁,
          Json.Field.written_orElse Json.restores_boolean ⟨trivial, rfl⟩ h₂,
          Json.Field.written_optional rfl (Or.inr rfl) rfl (ImportMark.restores_read depth)
            (fun _ _ _ => nofun) h₃,
          Json.Field.written_list (restores_list_inside Method.restores_read) h₄,
          Json.Field.written_list hnested h₅, rfl⟩
        simp [ofFields, toJson, fields, Fields.members, Json.member?, Json.listMember?,
          containersToJson_eq_map]

theorem Document.restores_read (depth : Nat) : Restores P (Document.read (depth + 2)) toJson := by
  refine restores_inside names_nodup fun d a hd h => ?_
  obtain ⟨version, containers, _⟩ := a
  obtain ⟨h₁, h₂, -⟩ := h
  obtain rfl : depth + 1 = d := by omega
  refine ⟨[some (.string version), some (.array (containers.map Container.toJson))], ?_,
    Json.Field.written_required Json.restores_text h₁,
    Json.Field.written_orElse (Json.restores_list (restores_list_inside Container.restores_read))
      ⟨trivial, rfl⟩ h₂, rfl⟩
  simp [toJson, fields, Fields.members, Json.member?, containersToJson_eq_map]

/-! ## Places and quickfixes -/

theorem Location.restores_read (depth : Nat) : Restores P (Location.read depth) toJson := by
  intro t l ht h
  obtain ⟨⟨kind, rest⟩, hkind, h⟩ := Except.bind_eq_ok_iff.1 h
  obtain ⟨⟨pointer, _⟩, -, h⟩ := Except.bind_eq_ok_iff.1 h
  cases h
  obtain ⟨d, rfl, -⟩ := Json.kept_of_tagged ht hkind
  have htag : Tree.tagged "internally tagged enum Location" "kind" ["decl"] (d + 1)
      (.ofJson (.object [("kind", .string "decl"), ("ptr", .string pointer)])) =
        .ok ("decl", .object [("ptr", .string pointer)]) := by
    refine Json.tagged_object (by decide) (by simp [Members.keys]) fun m hm => ?_
    rw [List.mem_singleton.1 hm]
    cases d <;> rfl
  have hw : fields.Written P [some (.string pointer)] (pointer, ()) := ⟨⟨trivial, rfl⟩, rfl⟩
  exact ⟨⟨trivial, trivial, trivial⟩, Except.bind_eq_ok_iff.2 ⟨_, htag,
    Except.bind_eq_ok_iff.2 ⟨_, Json.fieldsOf_members (by decide) hw, rfl⟩⟩⟩

theorem QuickfixKind.restores_read (depth : Nat) :
    Restores P (QuickfixKind.read depth) fun kind => .string kind.name := by
  intro t kind _ _
  cases kind
  exact ⟨trivial, by rfl⟩

theorem Quickfix.names_nodup (depth : Nat) : (fields depth).names.Nodup :=
  show ["kind", "patch", "note"].Nodup by decide

theorem Quickfix.restores_read (depth : Nat) : Restores P (Quickfix.read depth) toJson := by
  refine restores_inside names_nodup fun d a _ h => ?_
  obtain ⟨kind, patch, note, _⟩ := a
  obtain ⟨h₁, h₂, h₃, -⟩ := h
  refine ⟨[some (.string kind.name), some (.array (patch.map Patch.Op.toJson)),
    note.map .string], ?_,
    Json.Field.written_required (QuickfixKind.restores_read d) h₁,
    Json.Field.written_required
      (Json.restores_list (restores_list_inside Patch.Op.restores_read)) h₂,
    Json.Field.written_optional rfl (Or.inl rfl) rfl Json.restores_text (fun _ _ _ => nofun) h₃,
    rfl⟩
  simp [toJson, fields, Fields.members, Json.member?, Patch.read]

/-! ## Texts -/

theorem Json.readAll_map {α β : Type} (read : Reader α) (f : α → β) (text : List UInt8) :
    readAll (fun t => f <$> read t) text = f <$> readAll read text := by
  unfold readAll
  cases hread : read (Tree.read text).1 with
  | error => simp [hread, bind, Except.bind, Functor.map, Except.map]
  | ok a =>
    simp only [hread, bind, Except.bind, Functor.map, Except.map]
    cases (Tree.read text).2.skipBlank.next? <;> rfl

/-- The words of a mode that is known tell it, whatever stands between them. -/
theorem Passing.ofString_of_words {s : String} {m : Passing} (hm : m.projection? ≠ none)
    (h : Text.words s = Text.words m.spelling ∨ m = .value ∧ Text.words s = []) :
    ofString s = m := by
  unfold ofString
  rcases h with h | ⟨rfl, h⟩
  · rw [h]
    cases m with
    | unsupported t => exact absurd rfl hm
    | _ => rfl
  · rw [h]

/-- A body that is read is not null. -/
theorem Method.body_ne_null {depth : Nat} {t : Tree} {m : Method} (ht : t.Numbers P)
    (h : Method.read depth t = .ok m) : m.body ≠ some .null := by
  have hn : ∀ fs, Json.inside depth fields = some fs → fs.names.Nodup := by
    intro fs hfs
    obtain ⟨d, -, rfl⟩ := Json.inside_eq_some_iff.1 hfs
    exact names_nodup d
  obtain ⟨fs, ⟨name, isPartial, params, returns, body, _⟩, hfs, hgives, rfl⟩ :=
    Json.gives_of_record hn ht h
  obtain ⟨d, -, rfl⟩ := Json.inside_eq_some_iff.1 hfs
  rcases hgives.2.2.2.2.1 with hbody | hbody | ⟨t, -, hbody⟩
  · cases hbody; exact nofun
  · cases hbody; exact nofun
  · rintro rfl
    exact Json.optional_value_ne_null hbody rfl

/-- What is read from a text, in either form of a record, is written so that it is read again
    as the same value.  A null body is read as none.  A mode that is known is told by its
    words alone, and one that is not known is its text. -/
theorem formats_reread :
    Json.Reread (Document.read Json.maxDepth) Document.toJson ∧
    Json.Reread (Container.read Json.maxDepth) Container.toJson ∧
    Json.Reread (ImportMark.read Json.maxDepth) ImportMark.toJson ∧
    Json.Reread (Method.read Json.maxDepth) Method.toJson ∧
    Json.Reread (Metadata.read Json.maxDepth) Metadata.toJson ∧
    Json.Reread Passing.read Passing.toJson ∧
    Json.Reread (Parameter.read Json.maxDepth) Parameter.toJson ∧
    Json.Reread (Signature.read Json.maxDepth) Signature.toJson ∧
    Json.Reread (Location.read Json.maxDepth) Location.toJson ∧
    Json.Reread (Patch.Op.read Json.maxDepth) Patch.Op.toJson ∧
    Json.Reread (Quickfix.read Json.maxDepth) Quickfix.toJson ∧
    (∀ text m, Json.readAll (Method.read Json.maxDepth) text = .ok m → m.body ≠ some .null) ∧
    ∀ text s, Json.readAll Tree.text text = .ok s →
      ∃ m, Json.readAll Passing.read text = .ok m ∧
        (m.projection? = none → m = .unsupported s) ∧
        ∀ k : Passing, k.projection? ≠ none →
          Text.words s = Text.words k.spelling ∨ k = .value ∧ Text.words s = [] → m = k := by
  refine ⟨Json.reread_of_restores (Document.uniform_read _) (Document.restores_read 125),
    Json.reread_of_restores (Container.uniform_read _) (Container.restores_read _),
    Json.reread_of_restores (ImportMark.uniform_read _) (ImportMark.restores_read _),
    Json.reread_of_restores (Method.uniform_read _) (Method.restores_read _),
    Json.reread_of_restores (Metadata.uniform_read _) (Metadata.restores_read _),
    Json.reread_of_restores Passing.uniform_read Passing.restores_read,
    Json.reread_of_restores (Parameter.uniform_read _) (Parameter.restores_read _),
    Json.reread_of_restores (Signature.uniform_read _) (Signature.restores_read 125),
    Json.reread_of_restores (Location.uniform_read _) (Location.restores_read _),
    Json.reread_of_restores (Patch.Op.uniform_read _) (Patch.Op.restores_read _),
    Json.reread_of_restores (Quickfix.uniform_read _) (Quickfix.restores_read _),
    fun text m h => Method.body_ne_null (Json.fits_readValue _ _) (Json.readAll_eq_ok h),
    fun text s h => ?_⟩
  refine ⟨Passing.ofString s, ?_, fun hm => ?_,
    fun k hk hwords => Passing.ofString_of_words hk hwords⟩
  · exact (Json.readAll_map Tree.text Passing.ofString text).trans (congrArg _ h)
  · obtain ⟨raw, hraw⟩ := Passing.projection?_eq_none_iff.1 hm
    rw [hraw, Passing.ofString_eq_unsupported hraw]

namespace Rewritten

/-- A method in array form, with a null where nothing is returned and with members of its
    body that are not in order. -/
def text : List UInt8 :=
  Json.bytes "[\"Add\",true,[[\"a\",\"i32\",\" ref  readonly\"]],null,\x7b\"b\":1,\"a\":[]\x7d]"

def method : Method where
  name := "Add"
  isPartial := true
  params := [{ name := "a", ty := "i32", mode := .readonlyRef }]
  returns := none
  body := some (.object [("a", .array []), ("b", .number (.integer 1))])

set_option maxRecDepth 10000 in
theorem read_text : Json.readAll (Method.read Json.maxDepth) text = .ok method := by rfl

/-- It is written in object form and read from that again. -/
theorem formats_reread_method :
    method.toJson.compact = "\x7b\"name\":\"Add\",\"partial\":true,\"params\":[\x7b\"name\":\"a\"," ++
      "\"ty\":\"i32\",\"mode\":\"ref readonly\"\x7d],\"body\":\x7b\"a\":[],\"b\":1\x7d\x7d" ∧
      Json.readAll (Method.read Json.maxDepth) (Json.bytes method.toJson.compact) = .ok method := by
  have hwhole : method.toJson.Numbers Number.Whole := by
    simp [Method.toJson, method, Parameter.toJson, Passing.toJson, Json.listMember?, Json.member?,
      Json.Numbers, Json.NumbersMembers, Json.NumbersItems, Number.Whole]
  exact ⟨by decide +kernel, (formats_reread.2.2.2.1 text method read_text hwhole).1⟩

end Rewritten

end ImportBinding

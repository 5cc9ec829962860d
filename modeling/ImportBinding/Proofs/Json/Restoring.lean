/-
  ImportBinding — values that are written and read again.

  A writer restores a reader when the value it writes for whatever the reader gives is read
  as that again.  A record is written as the members of its fields, some of which are left
  out; what is left out must be what stands for the field.

  * `Restores` is the property, and `restores_list` and its companions the plain shapes;
  * `Field.Gives` are the values that a field can have, in either form of a record;
  * `Field.Written`: a member, or none, from which a field has its value again;
  * `restores_record` is a record whose fields are written so;
  * `Reread` is the same for texts, and follows for uniform readers.
-/
import ImportBinding.Surface.Format
import ImportBinding.Proofs.Declaration.Reading
import ImportBinding.Proofs.Json.Number

namespace ImportBinding.Json

variable {P : Number → Prop} {α β : Type}

/-! ## Plain shapes -/

/-- Whatever is read from numbers with the property `P` is written with such numbers, and
    read again from what is written. -/
def Restores (P : Number → Prop) (read : Reader α) (write : α → Json) : Prop :=
  ∀ ⦃t : Tree⦄ ⦃a : α⦄, t.Numbers P → read t = .ok a →
    (write a).Numbers P ∧ read (.ofJson (write a)) = .ok a

theorem restores_text : Restores P Tree.text .string :=
  fun _ _ _ _ => ⟨trivial, rfl⟩

theorem restores_boolean : Restores P Tree.boolean .bool :=
  fun _ _ _ _ => ⟨trivial, rfl⟩

theorem restores_value (depth : Nat) : Restores P (Tree.value depth) id := by
  intro t v hn h
  refine ⟨numbers_value hn h, ?_⟩
  obtain ⟨w, hw, rfl⟩ := Except.map_eq_ok_iff.1 h
  exact Except.map_eq_ok_iff.2
    ⟨_, content_canonical depth hw, canonical_eq_self (canonical_canonical w)⟩

theorem Elems.restores {read : Reader α} {write : α → Json} (hr : Restores P read write) :
    (elems : Elems) → {as : List α} → elems.Numbers P → elems.read read = .ok as →
    NumbersItems P (as.map write) ∧ (Elems.ofItems (as.map write)).read read = .ok as
  | .stop .., _, _, h => by
    obtain ⟨-, -, rfl⟩ := Elems.read_stop h
    exact ⟨trivial, rfl⟩
  | .item value rest, _, hn, h => by
    obtain ⟨a, as, ha, has, rfl⟩ := Elems.read_item h
    obtain ⟨hna, ha⟩ := hr hn.1 ha
    obtain ⟨hnas, has⟩ := Elems.restores hr rest hn.2 has
    refine ⟨⟨hna, hnas⟩, ?_⟩
    rw [List.map_cons, Elems.ofItems, Elems.read]
    exact Except.bind_eq_ok_iff.2 ⟨a, ha, Except.bind_eq_ok_iff.2 ⟨as, has, rfl⟩⟩

theorem restores_list {read : Option (Reader α)} {write : α → Json}
    (hr : ∀ r, read = some r → Restores P r write) :
    Restores P (Tree.list read) fun as => .array (as.map write) := by
  intro t as hn h
  cases t with
  | array start elems =>
    cases read with
    | none => cases h
    | some r => exact Elems.restores (hr r rfl) elems hn h
  | _ => cases h

/-! ## Fields -/

/-- Every element has the property `Q`. -/
def Elems.Forall (Q : Tree → Prop) : Elems → Prop
  | .stop .. => True
  | .item value rest => Q value ∧ rest.Forall Q

/-- The value of every member has the property `Q`. -/
def Entries.Forall (Q : Tree → Prop) : Entries → Prop
  | .member _ _ value rest => Q value ∧ rest.Forall Q
  | _ => True

theorem Elems.Numbers.forall : {elems : Elems} → elems.Numbers P → elems.Forall (Tree.Numbers P)
  | .stop .., _ => trivial
  | .item .., h => ⟨h.1, Numbers.forall h.2⟩

theorem Entries.Numbers.forall : {entries : Entries} → entries.Numbers P →
    entries.Forall (Tree.Numbers P)
  | .stop .., _ | .noKey _, _ | .noColon .., _ => trivial
  | .member .., h => ⟨h.1, Numbers.forall h.2⟩

theorem Entries.Forall.of_mem_values {Q : Tree → Prop} {name : String} {t : Tree} :
    {entries : Entries} → entries.Forall Q → t ∈ entries.values name → Q t
  | .stop .., _, ht | .noKey _, _, ht | .noColon .., _, ht => absurd ht (by simp [Entries.values])
  | .member key colon value rest, h, ht => by
    rw [Entries.values] at ht
    split at ht
    · split at ht
      · rcases List.mem_cons.1 ht with rfl | ht
        · exact h.1
        · exact h.2.of_mem_values ht
      · exact h.2.of_mem_values ht
    · exact h.2.of_mem_values ht

/-- A value that a field can have: one that stands for it, or one that is read from a tree
    with the property `Q`. -/
def Field.Gives (Q : Tree → Prop) (field : Field α) (a : α) : Prop :=
  field.absent = some a ∨ field.leftOff = some a ∨ ∃ t, Q t ∧ field.read t = .ok a

/-- A member's value, or no member, from which a field has its value. -/
def Field.Written (P : Number → Prop) (field : Field α) (value : Option Json) (a : α) : Prop :=
  match value with
  | none => field.absent = some a
  | some v => v.Numbers P ∧ field.read (.ofJson v) = .ok a

theorem Members.find?_append {k : String} (ms ns : Members) :
    (ms ++ ns).find? k = (ms.find? k).or (ns.find? k) := by
  induction ms with
  | nil => rfl
  | cons m ms ih =>
    obtain ⟨l, v⟩ := m
    rw [List.cons_append, Members.find?, Members.find?]
    split
    · rfl
    · exact ih

namespace Fields

/-- The fields can have these values. -/
def Gives (Q : Tree → Prop) : {α : Type} → Fields α → α → Prop
  | _, nil => fun _ => True
  | _, cons field rest => fun (a, as) => field.Gives Q a ∧ rest.Gives Q as

/-- The members of some fields, of which those without a value are left out. -/
def members : {α : Type} → Fields α → List (Option Json) → Members
  | _, cons field rest, value :: values => member? field.name value ++ rest.members values
  | _, _, _ => []

/-- The fields have their values from what is written. -/
def Written (P : Number → Prop) : {α : Type} → Fields α → List (Option Json) → α → Prop
  | _, nil, values => fun _ => values = []
  | _, cons field rest, value :: values => fun (a, as) =>
    field.Written P value a ∧ rest.Written P values as
  | _, cons _ _, [] => fun _ => False

variable {Q : Tree → Prop}

theorem gives_of_ofElems {whole : String} {fs : Fields α} : ∀ {seen : Nat} {elems left : Elems}
    {a : α}, elems.Forall Q → fs.ofElems whole seen elems = .ok (a, left) → fs.Gives Q a := by
  induction fs with
  | nil => exact fun _ _ => trivial
  | cons field rest ih =>
    intro seen elems left a hq h
    obtain ⟨a, as⟩ := a
    cases elems with
    | stop comma offset next? =>
      rw [ofElems.eq_def] at h
      dsimp only at h
      split at h
      · next he => cases he
      · next he =>
        cases he
        cases hl : field.leftOff with
        | none => rw [hl] at h; cases h
        | some b =>
          rw [hl] at h
          obtain ⟨⟨bs, left'⟩, hrest, he⟩ := Except.map_eq_ok_iff.1 h
          cases he
          exact ⟨Or.inr (Or.inl hl), ih hq hrest⟩
      · cases h
    | item value more =>
      rw [ofElems] at h
      obtain ⟨b, hb, h⟩ := Except.bind_eq_ok_iff.1 h
      obtain ⟨⟨bs, left'⟩, hrest, he⟩ := Except.bind_eq_ok_iff.1 h
      cases he
      exact ⟨Or.inr (Or.inr ⟨value, hq.1, hb⟩), ih hq.2 hrest⟩

theorem gives_of_read {entries : Entries} (hq : entries.Forall Q) {fs : Fields α} {a : α}
    (h : fs.Read entries a) : fs.Gives Q a := by
  induction fs with
  | nil => trivial
  | cons field rest ih =>
    obtain ⟨a, as⟩ := a
    obtain ⟨h₁, h₂⟩ := h
    refine ⟨?_, ih h₂⟩
    split at h₁
    · exact Or.inl h₁
    · next t ht => exact Or.inr (Or.inr ⟨t, hq.of_mem_values (ht ▸ List.mem_cons_self), h₁⟩)
    · exact absurd h₁ id

theorem keys_members_sublist (fs : Fields α) (values : List (Option Json)) :
    (fs.members values).keys.Sublist fs.names := by
  induction fs generalizing values with
  | nil => exact List.Sublist.slnil
  | cons field rest ih =>
    cases values with
    | nil => exact List.nil_sublist _
    | cons value values =>
      rw [members, Members.keys, List.map_append, names]
      cases value with
      | none => exact (ih values).cons _
      | some v => exact (ih values).cons_cons _

theorem find?_members_eq_none {fs : Fields α} {values : List (Option Json)} {name : String}
    (h : name ∉ fs.names) : (fs.members values).find? name = none :=
  Members.find?_eq_none_iff.2 fun hk => h ((keys_members_sublist fs values).subset hk)

/-- Fields of different names have their values from members that agree with what is
    written. -/
theorem Written.holds {fs : Fields α} (hn : fs.names.Nodup) : ∀ {values : List (Option Json)} {a : α}
    {ms : Members}, (∀ name ∈ fs.names, ms.find? name = (fs.members values).find? name) →
    fs.Written P values a → fs.Holds ms a := by
  induction fs with
  | nil => exact fun _ _ => trivial
  | cons field rest ih =>
    intro values a ms hms h
    obtain ⟨hname, hn⟩ := List.nodup_cons.1 hn
    cases values with
    | nil => exact absurd h id
    | cons value values =>
      obtain ⟨a, as⟩ := a
      obtain ⟨h₁, h₂⟩ := h
      have hfind : ∀ name, ((cons field rest).members (value :: values)).find? name =
          if name = field.name then value.or ((rest.members values).find? name)
          else (rest.members values).find? name := by
        intro name
        rw [members, Members.find?_append]
        cases value with
        | none => simp [member?, Members.find?]
        | some v =>
          by_cases he : name = field.name <;> simp [member?, Members.find?, he]
      refine ⟨?_, ih hn (fun name hmem => ?_) h₂⟩
      · have hfield := hms field.name List.mem_cons_self
        rw [hfind, if_pos rfl, find?_members_eq_none hname, Option.or_none] at hfield
        rw [Field.Holds, hfield]
        cases value with
        | none => exact h₁
        | some v => exact h₁.2
      · have hne : name ≠ field.name := by rintro rfl; exact hname hmem
        rw [hms name (List.mem_cons_of_mem _ hmem), hfind, if_neg hne]

theorem Written.numbers {fs : Fields α} : ∀ {values : List (Option Json)} {a : α},
    fs.Written P values a → NumbersMembers P (fs.members values) := by
  induction fs with
  | nil => intro values a h; obtain rfl : values = [] := h; trivial
  | cons field rest ih =>
    intro values a h
    cases values with
    | nil => exact absurd h id
    | cons value values =>
      obtain ⟨a, as⟩ := a
      cases value with
      | none => exact ih h.2
      | some v => exact ⟨h.1.1, ih h.2⟩

/-- Fields are read again from the members that are written of them. -/
theorem Written.ofEntries {fs : Fields α} (hn : fs.names.Nodup) {values : List (Option Json)} {a : α}
    (h : fs.Written P values a) :
    fs.ofEntries (Entries.ofMembers (fs.members values)) = .ok a :=
  (ofEntries_ofMembers_iff ((keys_members_sublist fs values).nodup hn) hn).2
    (h.holds hn fun _ _ => rfl)

end Fields

/-! ## Records -/

/-- Whatever a record is read from, its fields have values that they can have. -/
theorem gives_of_record {ρ : Type} {name : String} {fields : Option (Fields α)} {make : α → ρ}
    (hn : ∀ fs, fields = some fs → fs.names.Nodup) {t : Tree} (ht : t.Numbers P) {r : ρ}
    (h : Tree.record name fields make t = .ok r) :
    ∃ fs a, fields = some fs ∧ fs.Gives (Tree.Numbers P) a ∧ make a = r := by
  cases t with
  | array start elems =>
    cases fields with
    | none => cases h
    | some fs =>
      obtain ⟨⟨a, left⟩, ha, h⟩ := Except.bind_eq_ok_iff.1 h
      obtain ⟨_, -, h⟩ := Except.bind_eq_ok_iff.1 h
      cases h
      exact ⟨fs, a, rfl, Fields.gives_of_ofElems (Elems.Numbers.forall ht) ha, rfl⟩
  | object start entries =>
    cases fields with
    | none => cases h
    | some fs =>
      obtain ⟨a, ha, rfl⟩ := Except.map_eq_ok_iff.1 h
      exact ⟨fs, a, rfl, Fields.gives_of_read (Entries.Numbers.forall ht)
        (Fields.read_of_ofEntries (hn fs rfl) ha), rfl⟩
  | _ => cases h

/-- A record is restored when its fields are, whatever values they can have. -/
theorem restores_record {ρ : Type} {name : String} {fields : Option (Fields α)} {make : α → ρ}
    {write : ρ → Json} (hn : ∀ fs, fields = some fs → fs.names.Nodup)
    (hw : ∀ fs a, fields = some fs → fs.Gives (Tree.Numbers P) a →
      ∃ values, write (make a) = .object (fs.members values) ∧ fs.Written P values a) :
    Restores P (Tree.record name fields make) write := by
  intro t r ht h
  obtain ⟨fs, a, rfl, hgives, rfl⟩ := gives_of_record hn ht h
  obtain ⟨values, hvalues, hwritten⟩ := hw fs a rfl hgives
  rw [hvalues]
  exact ⟨hwritten.numbers, Except.map_eq_ok_iff.2 ⟨a, hwritten.ofEntries (hn fs rfl), rfl⟩⟩

/-! ## Members of a record -/

namespace Field

variable {name : String} {read : Reader α} {write : α → Json} {a : α}

/-- A field that must be there is written. -/
theorem written_required (hr : Restores P read write)
    (h : (required name read).Gives (Tree.Numbers P) a) :
    (required name read).Written P (some (write a)) a := by
  rcases h with h | h | ⟨t, ht, h⟩
  · cases h
  · cases h
  · exact hr ht h

/-- A field with a default is written when that is read again, too. -/
theorem written_orElse {default : α} (hr : Restores P read write)
    (hd : (write default).Numbers P ∧ read (.ofJson (write default)) = .ok default)
    (h : (orElse name read default).Gives (Tree.Numbers P) a) :
    (orElse name read default).Written P (some (write a)) a := by
  rcases h with h | h | ⟨t, ht, h⟩
  · cases h; exact hd
  · cases h; exact hd
  · exact hr ht h

/-- A list is written unless it is empty. -/
theorem written_list {read : Option (Reader α)} {write : α → Json} {as : List α}
    (hr : ∀ r, read = some r → Restores P r write)
    (h : (orElse name (Tree.list read) []).Gives (Tree.Numbers P) as) :
    (orElse name (Tree.list read) []).Written P
      (if (as.map write).isEmpty then none else some (.array (as.map write))) as := by
  cases as with
  | nil => exact rfl
  | cons b bs =>
    rcases h with h | h | ⟨t, ht, h⟩
    · cases h
    · cases h
    · exact restores_list hr ht h

/-- A value is written unless it is missing; the value null would be taken for that. -/
theorem written_optional {field : Field (Option α)} {a : Option α}
    (habsent : field.absent = some none) (hleft : field.leftOff = none ∨ field.leftOff = some none)
    (hread : field.read = Tree.optional read) (hr : Restores P read write)
    (hnull : ∀ t a, Tree.optional read t = .ok (some a) → write a ≠ .null)
    (h : field.Gives (Tree.Numbers P) a) : field.Written P (a.map write) a := by
  cases a with
  | none => exact habsent
  | some b =>
    rcases h with h | h | ⟨t, ht, h⟩
    · rw [habsent] at h; cases h
    · rcases hleft with hleft | hleft <;> rw [hleft] at h <;> cases h
    · rw [hread] at h
      have hb : read t = .ok b := by
        unfold Tree.optional at h
        split at h
        · cases h
        · obtain ⟨c, hc, he⟩ := Except.map_eq_ok_iff.1 h
          cases he
          exact hc
      obtain ⟨hnumbers, hagain⟩ := hr ht hb
      refine ⟨hnumbers, ?_⟩
      rw [hread, optional_ofJson read (hnull t b h)]
      exact Except.map_eq_ok_iff.2 ⟨b, hagain, rfl⟩

end Field

/-! ## Texts -/

/-- Whatever is read from a text, and has whole numbers only, is written as a text, with or
    without lines, from which it is read again. -/
def Reread (read : Reader α) (write : α → Json) : Prop :=
  ∀ text a, readAll read text = .ok a → (write a).Numbers Number.Whole →
    readAll read (bytes (write a).compact) = .ok a ∧
      readAll read (bytes (write a).pretty) = .ok a

/-- From a text that spells a value a uniform reader reads what it reads from the value. -/
theorem readAll_of_spells {read : Reader α} (hu : Uniform read) {v : Json} {text : List UInt8}
    (h : v.Spells text) {a : α} (ha : read (.ofJson v) = .ok a) : readAll read text = .ok a := by
  have := readAll_spells hu h blanks_nil
  rw [List.append_nil, ha] at this
  exact Except.toOption_eq_some_iff.1 this

/-- What is restored is reread when only values count for the reader. -/
theorem reread_of_restores {read : Reader α} {write : α → Json} (hu : Uniform read)
    (hr : Restores Number.Fits read write) : Reread read write := by
  intro text a h hwhole
  obtain ⟨hfits, hagain⟩ := hr (fits_readValue _ _) (readAll_eq_ok h)
  have hplain : (write a).Numbers Number.Plain := Numbers.and _ hwhole hfits
  exact ⟨readAll_of_spells hu (spells_compact _ hplain) hagain,
    readAll_of_spells hu (spells_pretty hplain) hagain⟩

end ImportBinding.Json

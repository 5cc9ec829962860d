/-
  ImportBinding — records read from the members of an object.

  The fields of a record are read in one pass over the members, in the order of the text.
  What comes out depends only on what each field finds under its name.

  * `Fields.Read`: every field is read from the one member of its name, or stands for
    itself when there is none;
  * `Fields.read_of_ofEntries`: a pass that succeeds has read the fields so;
  * `Fields.ofEntries_ofMembers_iff`: from members with different keys a pass succeeds with a
    record iff the record `Fields.Holds` there.
-/
import ImportBinding.Json.Record
import ImportBinding.Proofs.Json.Members
import ImportBinding.Proofs.Outcome

namespace ImportBinding.Json

/-! ## The values of a key -/

/-- The values that an object gives to a key, in its order. -/
def Entries.values (name : String) : Entries → List Tree
  | .member key _ value rest =>
    match key.kept with
    | .ok k => if k = name then value :: rest.values name else rest.values name
    | .error _ => rest.values name
  | _ => []

/-- Members with different keys give at most one value to a key. -/
theorem Entries.values_ofMembers {name : String} : {ms : Members} → ms.keys.Nodup →
    (Entries.ofMembers ms).values name = ((ms.find? name).map Tree.ofJson).toList
  | [], _ => rfl
  | (k, v) :: rest, h => by
    obtain ⟨hk, hrest⟩ := List.nodup_cons.1 h
    rw [Entries.ofMembers, Entries.values, Members.find?, values_ofMembers hrest]
    simp only [Literal.ofValue]
    split
    · next he =>
      subst he
      have hnone : Members.find? k rest = none := Members.find?_eq_none_iff.2 hk
      simp [hnone]
    · next he => simp [Ne.symm he]

namespace Fields

/-- The names of the fields, in their order. -/
def names : {α : Type} → Fields α → List String
  | _, nil => []
  | _, cons field rest => field.name :: rest.names

/-- A record whose fields are each read from the one member of its name, or stand for
    themselves when there is none. -/
def Read (entries : Entries) : {α : Type} → Fields α → α → Prop
  | _, nil => fun _ => True
  | _, cons field rest => fun (a, as) =>
    (match entries.values field.name with
      | [] => field.absent = some a
      | [t] => field.read t = .ok a
      | _ => False) ∧ rest.Read entries as

/-- What was found before some entries and what is found after them. -/
def Filled (entries : Entries) : {α : Type} → (fs : Fields α) → fs.Found → fs.Found → Prop
  | _, nil => fun _ _ => True
  | _, cons field rest => fun (v, vs) (v', vs') =>
    (match entries.values field.name with
      | [] => v' = v
      | [t] => v = none ∧ ∃ a, field.read t = .ok a ∧ v' = some a
      | _ => False) ∧ rest.Filled entries vs vs'

theorem filled_self {entries : Entries} (h : ∀ name, entries.values name = []) {α : Type}
    (fs : Fields α) (found : fs.Found) : fs.Filled entries found found := by
  induction fs with
  | nil => trivial
  | cons field rest ih => exact ⟨by rw [h], ih found.2⟩

theorem Filled.congr {entries entries' : Entries} {α : Type} {fs : Fields α}
    {found found' : fs.Found} (h : ∀ name ∈ fs.names, entries'.values name = entries.values name)
    (hf : fs.Filled entries found found') : fs.Filled entries' found found' := by
  induction fs with
  | nil => trivial
  | cons field rest ih =>
    obtain ⟨h₁, h₂⟩ := hf
    refine ⟨?_, ih (fun name hn => h name (List.mem_cons_of_mem _ hn)) h₂⟩
    rw [h field.name List.mem_cons_self]
    exact h₁

/-- One member read before the others. -/
theorem Filled.member {key : Literal String} {k : String} (hk : key.kept = .ok k) {colon : Nat}
    {t : Tree} {rest : Entries} {α : Type} {fs : Fields α} (hn : fs.names.Nodup)
    {found found₁ found' : fs.Found} (hh : fs.has k found = false)
    (hp : fs.put k t found = .ok found₁) (hf : fs.Filled rest found₁ found') :
    fs.Filled (.member key colon t rest) found found' := by
  induction fs with
  | nil => trivial
  | cons field more ih =>
    obtain ⟨v, vs⟩ := found
    obtain ⟨hne, hn⟩ := List.nodup_cons.1 hn
    simp only [has] at hh
    simp only [put] at hp
    by_cases hkey : k = field.name
    · rw [if_pos hkey] at hh hp
      obtain ⟨a, hr, rfl⟩ := Except.map_eq_ok_iff.1 hp
      obtain ⟨hv, hvs⟩ := hf
      have hv₀ : v = none := by simpa using hh
      refine ⟨?_, hvs.congr fun name hname => ?_⟩
      · simp only [Entries.values, hk, hkey, if_true]
        split at hv
        · next he => rw [he]; exact ⟨hv₀, a, hr, hv⟩
        · exact absurd hv.1 (by simp)
        · exact absurd hv id
      · have : k ≠ name := by rintro rfl; exact hne (hkey ▸ hname)
        simp [Entries.values, hk, this]
    · rw [if_neg hkey] at hh hp
      obtain ⟨vs₁, hr, rfl⟩ := Except.map_eq_ok_iff.1 hp
      obtain ⟨hv, hvs⟩ := hf
      refine ⟨?_, ih hn hh hr hvs⟩
      simpa only [Entries.values, hk, if_neg hkey] using hv

/-- A pass over an object that succeeds has found each field under its name. -/
theorem filled_of_fold {α : Type} {fs : Fields α} (hn : fs.names.Nodup) :
    (entries : Entries) → {found found' : fs.Found} → {offset : Nat} →
    entries.fold fs.enter found = .ok (found', offset) → fs.Filled entries found found'
  | .stop comma offset next?, found, found', o, h => by
    have he : found = found' := by
      rw [Entries.fold.eq_def] at h
      split at h <;> first | cases h; rfl | contradiction
    exact he ▸ filled_self (fun _ => rfl) fs found
  | .noKey _, _, _, _, h => absurd h (by simp [Entries.fold])
  | .noColon key offset next?, found, found', o, h => by
    simp only [Entries.fold] at h
    obtain ⟨k, -, h⟩ := Except.bind_eq_ok_iff.1 h
    obtain ⟨_, -, h⟩ := Except.bind_eq_ok_iff.1 h
    cases next? <;> exact absurd h Except.throw_ne_ok
  | .member key colon value rest, found, found', o, h => by
    simp only [Entries.fold] at h
    obtain ⟨k, hk, h₁⟩ := Except.bind_eq_ok_iff.1 h
    obtain ⟨read, hread, h₂⟩ := Except.bind_eq_ok_iff.1 h₁
    obtain ⟨found₁, hp, hrest⟩ := Except.bind_eq_ok_iff.1 h₂
    rw [enter] at hread
    split at hread
    · cases hread
    · next hh =>
      obtain rfl := Except.ok.inj hread
      exact Filled.member hk hn (by simpa using hh) hp (filled_of_fold hn rest hrest)

theorem finish_cons {α β : Type} {field : Field α} {rest : Fields β} {v : Option α}
    {vs : rest.Found} {a : α} {as : β} (h : (cons field rest).finish (v, vs) = .ok (a, as)) :
    (v <|> field.absent) = some a ∧ rest.finish vs = .ok as := by
  simp only [finish] at h
  split at h
  · next b hb =>
    obtain ⟨bs, hbs, he⟩ := Except.map_eq_ok_iff.1 h
    cases he
    exact ⟨hb, hbs⟩
  · cases h

theorem read_of_filled {entries : Entries} {α : Type} {fs : Fields α} {found : fs.Found} {a : α}
    (hf : fs.Filled entries fs.start found) (h : fs.finish found = .ok a) : fs.Read entries a := by
  induction fs with
  | nil => trivial
  | cons field rest ih =>
    obtain ⟨v, vs⟩ := found
    obtain ⟨a, as⟩ := a
    obtain ⟨hv, hvs⟩ := hf
    obtain ⟨ha, has⟩ := finish_cons h
    refine ⟨?_, ih hvs has⟩
    split at hv
    · subst hv; simpa using ha
    · obtain ⟨-, b, hb, rfl⟩ := hv
      obtain rfl : b = a := by simpa using ha
      exact hb
    · exact absurd hv id

/-- A record that comes from an object is read from what its fields find there. -/
theorem read_of_ofEntries {α : Type} {fs : Fields α} (hn : fs.names.Nodup) {entries : Entries}
    {a : α} (h : fs.ofEntries entries = .ok a) : fs.Read entries a := by
  obtain ⟨⟨found, offset⟩, hr, h⟩ := Except.bind_eq_ok_iff.1 h
  exact read_of_filled (filled_of_fold hn entries hr) (Except.mapError_eq_ok_iff.1 h)

/-! ## Members with different keys -/

end Fields

@[simp] theorem Field.name_required {α : Type} (name : String) (read : Reader α) :
    (required name read).name = name := rfl

@[simp] theorem Field.name_orElse {α : Type} (name : String) (read : Reader α) (default : α) :
    (orElse name read default).name = name := rfl

@[simp] theorem Field.name_optional {α : Type} (name : String) (read : Reader α) :
    (optional name read).name = name := rfl

/-- A field that is read from the value of its name, or stands for itself when there is
    none. -/
def Field.Holds {α : Type} (ms : Members) (field : Field α) (a : α) : Prop :=
  match ms.find? field.name with
  | none => field.absent = some a
  | some v => field.read (.ofJson v) = .ok a

/-- A field holds what the value of its name says. -/
theorem Field.Holds.congr {α : Type} {ms ns : Members} {field : Field α} {a : α}
    (h : field.Holds ms a) (hn : ns.find? field.name = ms.find? field.name) :
    field.Holds ns a := by
  rw [Holds, hn]
  exact h

theorem Field.Holds.insert {α : Type} {ms : Members} {field : Field α} {a : α}
    (h : field.Holds ms a) {key : String} (hne : field.name ≠ key) (v : Json) :
    field.Holds (ms.insert key v) a :=
  h.congr (Members.find?_insert_of_ne hne v ms)

theorem Field.Holds.erase {α : Type} {ms : Members} {field : Field α} {a : α}
    (h : field.Holds ms a) {key : String} (hne : field.name ≠ key) :
    field.Holds (ms.erase key) a :=
  h.congr (Members.find?_erase_of_ne hne ms)

namespace Fields

/-- A record whose fields all hold. -/
def Holds (ms : Members) : {α : Type} → Fields α → α → Prop
  | _, nil => fun _ => True
  | _, cons field rest => fun (a, as) => field.Holds ms a ∧ rest.Holds ms as

theorem read_ofMembers_iff {ms : Members} (h : ms.keys.Nodup) {α : Type} {fs : Fields α} {a : α} :
    fs.Read (Entries.ofMembers ms) a ↔ fs.Holds ms a := by
  induction fs with
  | nil => exact Iff.rfl
  | cons field rest ih =>
    obtain ⟨a, as⟩ := a
    simp only [Read, Holds, Field.Holds, ih, Entries.values_ofMembers h]
    cases ms.find? field.name <;> exact Iff.rfl

end Fields

mutual

/-- A value that comes from no text has no fault in its form. -/
theorem Tree.pass_ofJson : (v : Json) → (Tree.ofJson v).pass = .ok ()
  | .null | .bool _ | .number _ | .string _ => by
    simp [Tree.ofJson, Tree.pass, Literal.pass, Literal.ofValue]
  | .array items => by rw [Tree.ofJson, Tree.pass, Elems.pass_ofItems items]
  | .object members => by rw [Tree.ofJson, Tree.pass, Entries.pass_ofMembers members]

theorem Elems.pass_ofItems : (vs : List Json) → (Elems.ofItems vs).pass = .ok ()
  | [] => by rw [Elems.ofItems, Elems.pass]
  | v :: rest => by
    rw [Elems.ofItems, Elems.pass, Tree.pass_ofJson v, Elems.pass_ofItems rest]; rfl

theorem Entries.pass_ofMembers : (ms : Members) → (Entries.ofMembers ms).pass = .ok ()
  | [] => by rw [Entries.ofMembers, Entries.pass]
  | (k, v) :: rest => by
    rw [Entries.ofMembers, Entries.pass, Tree.pass_ofJson v, Entries.pass_ofMembers rest]; rfl

end

namespace Fields

/-- A value that a record holds, or that none of its fields asks for, can be read at any
    time, and nothing is found by it but its key. -/
theorem exists_put {ms : Members} {α : Type} {fs : Fields α} {a : α} (h : fs.Holds ms a)
    {k : String} {v : Json} (hv : ms.find? k = some v) (found : fs.Found) :
    ∃ found', fs.put k (.ofJson v) found = .ok found' ∧
      ∀ l, l ≠ k → fs.has l found' = fs.has l found := by
  induction fs with
  | nil => exact ⟨(), Tree.pass_ofJson v, fun _ _ => rfl⟩
  | cons field rest ih =>
    obtain ⟨a, as⟩ := a
    obtain ⟨w, ws⟩ := found
    obtain ⟨h₁, h₂⟩ := h
    by_cases hkey : k = field.name
    · rw [Field.Holds, ← hkey, hv] at h₁
      refine ⟨(some a, ws), ?_, fun l hl => ?_⟩
      · simp only [put, if_pos hkey]; rw [h₁]; rfl
      · simp [has, hkey ▸ hl]
    · obtain ⟨ws', hp, hhas⟩ := ih h₂ ws
      refine ⟨(w, ws'), ?_, fun l hl => ?_⟩
      · simp only [put, if_neg hkey]; rw [hp]; rfl
      · simp [has, hhas l hl]

theorem exists_fold {ms : Members} {α : Type} {fs : Fields α} {a : α} (h : fs.Holds ms a) :
    (ns : Members) → (∀ m ∈ ns, ms.find? m.1 = some m.2) → ns.keys.Nodup → (found : fs.Found) →
    (∀ k ∈ ns.keys, fs.has k found = false) →
    ∃ r, (Entries.ofMembers ns).fold fs.enter found = .ok r
  | [], _, _, found, _ => ⟨(found, 1), by simp [Entries.ofMembers, Entries.fold]⟩
  | (k, v) :: rest, hm, hs, found, hh => by
    obtain ⟨found', hp, hhas⟩ := exists_put h (hm (k, v) List.mem_cons_self) found
    have hrest : ∀ l ∈ Members.keys rest, fs.has l found' = false := by
      intro l hl
      have hne : l ≠ k := by rintro rfl; exact (List.nodup_cons.1 hs).1 hl
      rw [hhas l hne]
      exact hh l (List.mem_cons_of_mem _ hl)
    obtain ⟨r, hr⟩ := exists_fold h rest (fun m hmem => hm m (List.mem_cons_of_mem _ hmem))
      (List.nodup_cons.1 hs).2 found' hrest
    refine ⟨r, ?_⟩
    rw [Entries.ofMembers, Entries.fold]
    simp only [Literal.ofValue, bind, Except.bind, enter, hh k List.mem_cons_self,
      Bool.false_eq_true, if_false, hp]
    exact hr

theorem has_start {α : Type} (fs : Fields α) (k : String) : fs.has k fs.start = false := by
  induction fs with
  | nil => rfl
  | cons field rest ih => simp [has, start, ih]

theorem finish_of_filled {ms : Members} (hs : ms.keys.Nodup) {α : Type} {fs : Fields α}
    {found : fs.Found} {a : α} (hf : fs.Filled (Entries.ofMembers ms) fs.start found)
    (h : fs.Holds ms a) : fs.finish found = .ok a := by
  induction fs with
  | nil => rfl
  | cons field rest ih =>
    obtain ⟨v, vs⟩ := found
    obtain ⟨a, as⟩ := a
    obtain ⟨hv, hvs⟩ := hf
    obtain ⟨h₁, h₂⟩ := h
    have hrest := ih hvs h₂
    have ha : (v <|> field.absent) = some a := by
      rw [Field.Holds] at h₁
      rw [Entries.values_ofMembers hs] at hv
      cases hfind : ms.find? field.name with
      | none =>
        rw [hfind] at hv h₁
        obtain rfl : v = none := hv
        simpa using h₁
      | some w =>
        rw [hfind] at hv h₁
        obtain ⟨-, b, hb, rfl⟩ := hv
        obtain rfl : b = a := Except.ok.inj (hb.symm.trans h₁)
        rfl
    simp only [finish, ha, hrest]
    rfl

/-- From members with different keys a record is read iff it holds there. -/
theorem ofEntries_ofMembers_iff {ms : Members} (hs : ms.keys.Nodup) {α : Type} {fs : Fields α}
    (hn : fs.names.Nodup) {a : α} :
    fs.ofEntries (Entries.ofMembers ms) = .ok a ↔ fs.Holds ms a := by
  constructor
  · intro h
    exact (read_ofMembers_iff hs).1 (read_of_ofEntries hn h)
  · intro h
    obtain ⟨⟨found, offset⟩, hr⟩ := exists_fold h ms (fun m hm => Members.find?_of_mem hs hm) hs fs.start
      fun k _ => has_start fs k
    have hfin := finish_of_filled hs (filled_of_fold hn _ hr) h
    simp [ofEntries, hr, bind, Except.bind, hfin, Except.mapError_ok]

end Fields

end ImportBinding.Json

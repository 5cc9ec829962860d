/-
  ImportBinding — what generated lines say.

  A generated module speaks of its slots in six kinds of lines, and declares items in a few
  more.  Each kind is read here from the text of a line and of the lines that it stands under.

  * `Entry` is what a line says of the slots, and `Entry.read` reads it;
  * `Entry.kinds` tells how items start, and `Entry.item?` reads one; `Entry.constant?`,
    `Entry.value?` and `Entry.type?` pick the names of constants, of values and of types;
  * `read_slot` and its companions: what was written of a method is read again.
-/
import ImportBinding.Proofs.Identifier
import ImportBinding.Proofs.Source.Reading
import ImportBinding.Proofs.Surface.Plan
import ImportBinding.Source.Calls

namespace ImportBinding

namespace Source

/-! ## Entries -/

/-- What a line of a module declares, or says of a slot or of all slots. -/
inductive Entry where
  /-- There is a constant or a static. -/
  | constant (name : String)
  /-- There is a function. -/
  | function (name : String)
  /-- There is a type of callables. -/
  | callable (name : String)
  /-- There is a type that holds the slots. -/
  | holder (name : String)
  /-- There is a slot, and the type of what it may hold. -/
  | slot (ident callable : String)
  /-- A slot starts out empty. -/
  | initial (ident : String)
  /-- These are the names of the slots. -/
  | names (names : List String)
  /-- These slots are asked whether they hold something. -/
  | resolution (idents : List String)
  /-- A function asks for a name, and calls what a slot holds. -/
  | forwarder (ident name slot : String)
  deriving DecidableEq, Repr

namespace Entry

/-- How the items of a module start, and what each of them declares. -/
def kinds : List (String × (String → Entry)) :=
  [("pub type ", callable), ("pub struct ", holder), ("pub const ", constant),
    ("static ", constant), ("pub fn ", function)]

/-- Reads the name of an item of the module. -/
def item? (text : String) : Option Entry :=
  kinds.findSome? fun (before, entry) => (after? before text).map fun rest => entry (leading rest)

/-- Reads `pub r#move: ::core::option::Option<moveFn>,` in the declaration of the slots. -/
def slot? (item text : String) : Option Entry := do
  let _ ← after? "pub struct Slots \x7b" item
  let (ident, rest) ← word? ": ::core::option::Option<" (← after? "pub " text)
  return slot ident (← between? "" ">," rest)

/-- Reads `r#move: ::core::option::Option::None,` in the empty state of the slots. -/
def initial? (item inner text : String) : Option Entry := do
  let _ ← after? "impl Slots \x7b" item
  let _ ← after? "pub const UNRESOLVED: Self = Self \x7b" inner
  return initial (← between? "" ": ::core::option::Option::None," text)

/-- Whether a line opens what the slots tell of themselves. -/
def OpensTable (item : String) : Prop :=
  "impl ".toList <+: item.toList ∧ " for Slots \x7b".toList <:+ item.toList

instance (item : String) : Decidable (OpensTable item) :=
  inferInstanceAs (Decidable (_ ∧ _))

/-- Reads the list of the names of the slots. -/
def names? (item text : String) : Option Entry :=
  if OpensTable item then do
    let rest ← after? "const NAMES: &'static [&'static str] = &[" text
    return names (← listed? "\"" "\"" "];" rest)
  else none

/-- Reads the list of the questions to the slots. -/
def resolution? (item inner text : String) : Option Entry :=
  if OpensTable item then do
    let _ ← after? "fn resolution(&self) -> ::std::vec::Vec<bool> \x7b" inner
    return resolution (← listed? "self." ".is_some()" "]" (← after? "::std::vec![" text))
  else none

/-- Reads what a function calls, and its name from the line that opens it. -/
def forwarder? (item text : String) : Option Entry := do
  let (ident, _) ← word? "(" (← after? "pub fn " item)
  let rest ← after? "::core::result::Result::Ok((self::IMPORTS.forward(\"" text
  let (name, rest) ← word? "\", |__slots| __slots." rest
  let (picked, _) ← word? ")?)(" rest
  return forwarder ident name picked

/-- Reads a line of a module, told the lines of the module that it stands under. -/
def read : List String → String → Option Entry
  | [], text => item? text
  | [item], text => (slot? item text).or ((names? item text).or (forwarder? item text))
  | [item, inner], text => (initial? item inner text).or (resolution? item inner text)
  | _, _ => none

/-- Reads a line that stands in a module, under the line that opens the module. -/
def readInside : List String → String → Option Entry
  | [], _ => none
  | _ :: scope, text => read scope text

/-- The name of a constant or a static. -/
def constant? : Entry → Option String
  | constant name => some name
  | _ => none

/-- The name of a constant, a static or a function. -/
def value? : Entry → Option String
  | constant name | function name => some name
  | _ => none

def type? : Entry → Option String
  | callable name | holder name => some name
  | _ => none

end Entry

end Source

open Source

/-! ## Names -/

theorem Identifier.Usable.spelled {name : String} (h : Identifier.Usable name) : Spelled name :=
  fun c hc => by simp [isSpelled, h.isPart c hc]

theorem Identifier.Usable.spelled_raw {name : String} (h : Identifier.Usable name) :
    Spelled (Identifier.raw name) := by
  rw [Identifier.raw]
  split
  · intro c hc
    rw [String.toList_append, List.mem_append] at hc
    rcases hc with hc | hc
    · have hprefix : Spelled "r#" := by decide
      exact hprefix c hc
    · exact h.spelled c hc
  · exact h.spelled

namespace PlannedMethod

variable {m : PlannedMethod}

theorem Named.spelled_name (h : m.Named) : Spelled m.name :=
  h.usable.spelled

theorem Named.spelled_typeName (h : m.Named) : Spelled m.typeName := by
  intro c hc
  rw [typeName, String.toList_append, List.mem_append] at hc
  rcases hc with hc | hc
  · exact h.spelled_name c hc
  · have hsuffix : Spelled "Fn" := by decide
    exact hsuffix c hc

theorem Named.spelled_ident (h : m.Named) : Spelled m.ident := by
  rw [h.ident]
  exact h.usable.spelled_raw

end PlannedMethod

namespace Source.Entry

variable {m : PlannedMethod} {ms : List PlannedMethod} {item inner text : String}

/-! ## Items -/

/-- An item is read by how it starts and by its name. -/
theorem item_append {kind name close start : String} {entry : String → Entry}
    (hk : (kind, entry) ∈ kinds) (hstart : start = kind ++ name ++ close) (hw : Spelled name)
    (hc : Closes close) (rest : String) : item? (start ++ rest) = some (entry name) := by
  rw [hstart, String.append_assoc, String.append_assoc]
  simp only [kinds, List.mem_cons, List.not_mem_nil, or_false, Prod.mk.injEq] at hk
  obtain ⟨rfl, rfl⟩ | ⟨rfl, rfl⟩ | ⟨rfl, rfl⟩ | ⟨rfl, rfl⟩ | ⟨rfl, rfl⟩ := hk
  all_goals
    simp (disch := decide) only [item?, kinds, List.findSome?_cons, after_append, after_eq_none,
      Option.map_some, Option.map_none, leading_append hw hc]

theorem item_eq_none {start : String} (h : ∀ k ∈ kinds, Apart k.1 start) (rest : String) :
    item? (start ++ rest) = none := by
  rw [item?, List.findSome?_eq_none_iff]
  rintro ⟨before, entry⟩ hk
  exact Option.map_eq_none_iff.2 (after_eq_none (h _ hk) rest)

/-! ## Lines that say nothing -/

theorem slot_eq_none (h : after? "pub struct Slots \x7b" item = none) :
    slot? item text = none := by
  rw [slot?, h]
  rfl

theorem initial_eq_none (h : after? "pub const UNRESOLVED: Self = Self \x7b" inner = none) :
    initial? item inner text = none := by
  rw [initial?, h]
  cases after? "impl Slots \x7b" item <;> rfl

theorem names_eq_none (h : after? "const NAMES: &'static [&'static str] = &[" text = none) :
    names? item text = none := by
  rw [names?, h]
  split <;> rfl

/-- In a function, a line that calls nothing of a slot says nothing. -/
theorem read_eq_none_of_text (hpub : after? "pub " text = none)
    (hnames : after? "const NAMES: &'static [&'static str] = &[" text = none)
    (hforward : after? "::core::result::Result::Ok((self::IMPORTS.forward(\"" text = none) :
    read [item] text = none := by
  have hslot : slot? item text = none := by
    rw [slot?, hpub]
    cases after? "pub struct Slots \x7b" item <;> rfl
  have hforwarder : forwarder? item text = none := by
    rw [forwarder?, hforward]
    cases after? "pub fn " item with
    | none => rfl
    | some rest => simp
  rw [read, hslot, names_eq_none hnames, hforwarder]
  rfl

/-- Under a line that opens no function and nothing of the slots nothing is said. -/
theorem read_eq_none_of_item (hstruct : after? "pub struct Slots \x7b" item = none)
    (himpl : after? "impl " item = none) (hfn : after? "pub fn " item = none) :
    read [item] text = none := by
  have hnames : names? item text = none := by
    have hitem : ¬ OpensTable item := fun h => by
      rw [after?, if_pos h.1] at himpl
      cases himpl
    rw [names?, if_neg hitem]
  have hforwarder : forwarder? item text = none := by
    rw [forwarder?, hfn]
    rfl
  rw [read, slot_eq_none hstruct, hnames, hforwarder]
  rfl

/-! ## Lines of a method -/

theorem read_slot (h : m.Named) :
    read ["pub struct Slots \x7b"]
      ("pub " ++ m.ident ++ ": ::core::option::Option<" ++ m.typeName ++ ">,") =
        some (slot (Identifier.raw m.name) (m.name ++ "Fn")) := by
  rw [← h.ident, ← PlannedMethod.typeName]
  have hident := @word_append m.ident ": ::core::option::Option<" h.spelled_ident (by decide)
  have htype := @between_empty m.typeName ">," h.spelled_typeName (by decide)
  simp only [read, slot?, String.append_assoc, after_self, after_append, Option.bind_eq_bind,
    Option.bind_some, hident, htype]
  rfl

theorem read_initial (h : m.Named) :
    read ["impl Slots \x7b", "pub const UNRESOLVED: Self = Self \x7b"]
      (m.ident ++ ": ::core::option::Option::None,") =
        some (initial (Identifier.raw m.name)) := by
  rw [← h.ident]
  have hident :=
    @between_empty m.ident ": ::core::option::Option::None," h.spelled_ident (by decide)
  simp only [read, initial?, after_self, Option.bind_eq_bind, Option.bind_some, hident]
  rfl

theorem read_forwarder (h : m.Named) (results : String) :
    read ["pub fn " ++ m.ident ++ "(" ++ results]
      ("::core::result::Result::Ok((self::IMPORTS.forward(" ++ Text.quote m.name ++
        ", |__slots| __slots." ++ m.ident ++ ")?)(" ++ m.argumentList ++ "))") =
        some (forwarder (Identifier.raw m.name) m.name (Identifier.raw m.name)) := by
  rw [← h.ident]
  have htext : "::core::result::Result::Ok((self::IMPORTS.forward(" ++ Text.quote m.name ++
      ", |__slots| __slots." ++ m.ident ++ ")?)(" ++ m.argumentList ++ "))" =
      "::core::result::Result::Ok((self::IMPORTS.forward(\"" ++ (m.name ++
        ("\", |__slots| __slots." ++ (m.ident ++ (")?)(" ++ (m.argumentList ++ "))"))))) := by
    rw [h.usable.quote_eq]
    apply String.toList_inj.1
    simp
  have hitem : after? "pub struct Slots \x7b" ("pub fn " ++ m.ident ++ "(" ++ results) = none := by
    rw [String.append_assoc, String.append_assoc, after_eq_none (by decide)]
  have hnames (rest : String) : after? "const NAMES: &'static [&'static str] = &["
      ("::core::result::Result::Ok((self::IMPORTS.forward(\"" ++ rest) = none :=
    after_eq_none (by decide) rest
  have hident := @word_append m.ident "(" h.spelled_ident (by decide)
  have hname := @word_append m.name "\", |__slots| __slots." h.spelled_name (by decide)
  have hpicked := @word_append m.ident ")?)(" h.spelled_ident (by decide)
  rw [htext, read, slot_eq_none hitem, names_eq_none (hnames _), Option.none_or, Option.none_or]
  simp only [forwarder?, String.append_assoc, after_append, hident, hname, hpicked,
    Option.bind_eq_bind, Option.bind_some]
  rfl

/-! ## Lines of all slots -/

theorem OpensTable.exists_append (h : OpensTable item) : ∃ rest, item = "impl " ++ rest := by
  obtain ⟨rest, hrest⟩ := h.1
  refine ⟨.ofList rest, String.toList_inj.1 ?_⟩
  rw [← hrest, String.toList_append]
  exact congrArg _ String.toList_ofList.symm

theorem read_names (hitem : OpensTable item) (h : ∀ m ∈ ms, m.Named) :
    read [item] ("const NAMES: &'static [&'static str] = &[" ++
      ", ".intercalate (ms.map fun m => Text.quote m.name) ++ "];") =
        some (names (ms.map PlannedMethod.name)) := by
  have hlisting : ", ".intercalate (ms.map fun m => Text.quote m.name) =
      listing "\"" "\"" (ms.map PlannedMethod.name) := by
    rw [listing, List.map_map]
    exact congrArg _ (List.map_congr_left fun m hm => (h m hm).usable.quote_eq)
  have hspelled : ∀ name ∈ ms.map PlannedMethod.name, Spelled name := by
    intro name hname
    obtain ⟨m, hm, rfl⟩ := List.mem_map.1 hname
    exact (h m hm).spelled_name
  have hlisted := @listed_append "\"" "\"" "];" (by decide) (by decide) (by decide) (by decide) _
    hspelled
  have hstruct : after? "pub struct Slots \x7b" item = none := by
    obtain ⟨rest, rfl⟩ := hitem.exists_append
    exact after_eq_none (by decide) rest
  rw [hlisting, String.append_assoc, read, slot_eq_none hstruct, Option.none_or]
  simp only [names?, if_pos hitem, after_append, hlisted,
    Option.bind_eq_bind, Option.bind_some]
  rfl

theorem read_resolution (hitem : OpensTable item) (h : ∀ m ∈ ms, m.Named) :
    read [item, "fn resolution(&self) -> ::std::vec::Vec<bool> \x7b"]
      ("::std::vec![" ++ ", ".intercalate (ms.map fun m => "self." ++ m.ident ++ ".is_some()") ++
        "]") = some (resolution ((ms.map PlannedMethod.name).map Identifier.raw)) := by
  have hidents : (ms.map PlannedMethod.name).map Identifier.raw = ms.map PlannedMethod.ident := by
    rw [List.map_map]
    exact List.map_congr_left fun m hm => (h m hm).ident.symm
  rw [hidents]
  have hlisting : ", ".intercalate (ms.map fun m => "self." ++ m.ident ++ ".is_some()") =
      listing "self." ".is_some()" (ms.map PlannedMethod.ident) := by
    rw [listing, List.map_map]
    rfl
  have hspelled : ∀ ident ∈ ms.map PlannedMethod.ident, Spelled ident := by
    intro ident hident
    obtain ⟨m, hm, rfl⟩ := List.mem_map.1 hident
    exact (h m hm).spelled_ident
  have hlisted := @listed_append "self." ".is_some()" "]" (by decide) (by decide) (by decide)
    (by decide) _ hspelled
  have hself := after_self "fn resolution(&self) -> ::std::vec::Vec<bool> \x7b"
  rw [hlisting, String.append_assoc, read, initial_eq_none (by decide), Option.none_or]
  simp only [resolution?, if_pos hitem, hself, after_append, hlisted,
    Option.bind_eq_bind, Option.bind_some]
  rfl

end Source.Entry

end ImportBinding

/-
  ImportBinding — how parameters are passed.

  A parameter's mode fixes three spellings: its type in the slot, its type in
  the forwarding function, and the argument that hands it on to the slot.  The
  two read-only references are declared apart and handed on alike.

  * `Passing` is a mode as it is written, supported or not;
  * `Declared` and `Handed` are what a declaration and a call distinguish;
  * `Passing.projection?` maps a supported mode to its three spellings.
-/
import ImportBinding.Text.Blank

namespace ImportBinding

/-- How a parameter is passed.  A mode that is not known keeps its spelling. -/
inductive Passing where
  | value
  | ref
  | out
  | input
  | readonlyRef
  | unsupported (spelling : String)
  deriving DecidableEq, Repr

namespace Passing

/-- The mode that a text spells; blanks around and between its words do not count,
    and no word at all is a value. -/
def ofString (s : String) : Passing :=
  match Text.words s with
  | [] | ["value"] => value
  | ["ref"] => ref
  | ["out"] => out
  | ["in"] => input
  | ["ref", "readonly"] => readonlyRef
  | _ => unsupported s

def spelling : Passing → String
  | value => "value"
  | ref => "ref"
  | out => "out"
  | input => "in"
  | readonlyRef => "ref readonly"
  | unsupported s => s

end Passing

/-- How a parameter is declared, in a slot's type and in a forwarding function. -/
inductive Declared where
  | value
  | ref
  | out
  | input
  | readonlyRef
  deriving DecidableEq, Repr

namespace Declared

/-- The keyword in front of a declared parameter. -/
def keyword? : Declared → Option String
  | value => none
  | ref => some "ref"
  | out => some "out"
  | input => some "in"
  | readonlyRef => some "ref readonly"

def typeOf (ty : String) : Declared → String
  | value => ty
  | ref => "&mut " ++ ty
  | out => "&mut ::core::mem::MaybeUninit<" ++ ty ++ ">"
  | input | readonlyRef => "&" ++ ty

/-- The declaration as documentation echoes it: `ref i32 b`. -/
def describe (d : Declared) (ty name : String) : String :=
  match d.keyword? with
  | some keyword => keyword ++ " " ++ ty ++ " " ++ name
  | none => ty ++ " " ++ name

end Declared

/-- How a parameter is handed on to a slot. -/
inductive Handed where
  | value
  | ref
  | out
  | input
  deriving DecidableEq, Repr

namespace Handed

/-- The keyword in front of a handed parameter. -/
def keyword? : Handed → Option String
  | value => none
  | ref => some "ref"
  | out => some "out"
  | input => some "in"

/-- The argument that hands on the parameter spelled `ident`. -/
def argument (ident : String) : Handed → String
  | value | input => ident
  | ref | out => "&mut *" ++ ident

end Handed

/-- The three spellings of one mode. -/
structure Projection where
  /-- The declaration in the slot's type. -/
  slot : Declared
  /-- The declaration in the forwarding function. -/
  definition : Declared
  /-- The argument of the forwarded call. -/
  forward : Handed
  deriving DecidableEq, Repr

/-- The spellings of a supported mode. -/
def Passing.projection? : Passing → Option Projection
  | value => some ⟨.value, .value, .value⟩
  | ref => some ⟨.ref, .ref, .ref⟩
  | out => some ⟨.out, .out, .out⟩
  | input => some ⟨.input, .input, .input⟩
  | readonlyRef => some ⟨.readonlyRef, .readonlyRef, .input⟩
  | unsupported _ => none

/-- The modes without spellings are those that are not known. -/
theorem Passing.projection?_eq_none_iff {m : Passing} :
    m.projection? = none ↔ ∃ s, m = unsupported s := by
  cases m <;> simp [projection?]

end ImportBinding

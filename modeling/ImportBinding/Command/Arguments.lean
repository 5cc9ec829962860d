/-
  ImportBinding — command lines.

  A command line names a command and gives its options: with a value, as `--name value` or
  `--name=value`, or as a switch, which has none.  An option comes at most once.

  * `Arguments.ofList?` are the options given, when a command knows all of them;
  * `Command.ofArguments?` is the command that a command line asks for.
-/
import ImportBinding.Command.Basic

namespace ImportBinding

/-- The options that a command knows. -/
structure Arguments.Known where
  /-- The options with a value. -/
  valued : List String
  switches : List String

structure Arguments where
  values : List (String × String) := []
  switches : List String := []
  deriving DecidableEq, Repr

namespace Arguments

def value? (a : Arguments) (name : String) : Option String :=
  a.values.lookup name

def has (a : Arguments) (name : String) : Bool :=
  a.switches.contains name

/-- Gives an option a value, which it has only once. -/
def give (a : Arguments) (name value : String) : Option Arguments :=
  if (a.value? name).isSome then none else some { a with values := (name, value) :: a.values }

/-- Turns a switch on, which is done only once. -/
def turnOn (a : Arguments) (name : String) : Option Arguments :=
  if a.has name then none else some { a with switches := name :: a.switches }

/-- The name in a word, and the value if one is joined to it. -/
def split (word : String) : String × Option String :=
  match word.toList.span (· ≠ '=') with
  | (name, _ :: value) => (.ofList name, some (.ofList value))
  | (name, []) => (.ofList name, none)

/-- Whether a word of its own may be a value. -/
def isValue (word : String) : Bool :=
  word = "-" || word.toList.head? ≠ some '-'

/-- The options given by the words, after those of `a`; `open?` is the option whose value
    comes next. -/
def read (known : Known) (a : Arguments) (open? : Option String) : List String → Option Arguments
  | [] => if open?.isSome then none else some a
  | word :: rest =>
    match open?, split word with
    | some name, _ =>
      if isValue word then do read known (← a.give name word) none rest else none
    | none, (name, some value) =>
      if known.valued.contains name then do read known (← a.give name value) none rest else none
    | none, (name, none) =>
      if known.switches.contains name then do read known (← a.turnOn name) none rest
      else if known.valued.contains name then read known a (some name) rest
      else none

def ofList? (known : Known) (words : List String) : Option Arguments :=
  read known {} none words

end Arguments

namespace Command

/-- How commands are given. -/
def usage : String :=
  "\n".intercalate [
    "Usage: modimport <COMMAND>",
    "",
    "  gen --decls <DECLS> --out <OUT> [--check] [--runtime-path <PATH>] [--no-docs]",
    "  check --decls <DECLS>",
    "  fix --decls <DECLS> [--write]",
    "  batch --manifest <MANIFEST> [--check]"]

/-- What is chosen about generated source. -/
def sourceOptions (a : Arguments) : Source.Options :=
  let usual : Source.Options := {}
  { runtime := ((a.value? "--runtime-path").map Source.Runtime.mk).getD usual.runtime
    docs := !a.has "--no-docs" }

/-- The command that a command line asks for. -/
def ofArguments? : List String → Option Command
  | "gen" :: words => do
    let a ← Arguments.ofList?
      ⟨["--decls", "--out", "--runtime-path"], ["--check", "--no-docs"]⟩ words
    return generate (← a.value? "--decls") (← a.value? "--out") (sourceOptions a) (a.has "--check")
  | "check" :: words => do
    let a ← Arguments.ofList? ⟨["--decls"], []⟩ words
    return check (← a.value? "--decls")
  | "fix" :: words => do
    let a ← Arguments.ofList? ⟨["--decls"], ["--write"]⟩ words
    return fix (← a.value? "--decls") (a.has "--write")
  | "batch" :: words => do
    let a ← Arguments.ofList? ⟨["--manifest"], ["--check"]⟩ words
    return batch (← a.value? "--manifest") (a.has "--check")
  | _ => none

end Command

end ImportBinding

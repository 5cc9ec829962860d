/-
  ImportBinding — the command line.

  Runs the command that the arguments ask for on the files of the system.  A failure is
  reported on standard error.
-/
import ImportBinding.Command.Arguments
import ImportBinding.Command.Run

open ImportBinding

/-- The number of an error of the system, which is given with either sign. -/
def errorNumber (code : UInt32) : UInt32 :=
  min code (-code)

/-- The fault that an error of the system is. -/
def faultOf : IO.Error → FileFault
  | .noFileOrDirectory .. => .notFound
  | .alreadyExists .. => .present
  | .inappropriateType _ code details =>
    if errorNumber code = 20 then .notDirectory
    else if errorNumber code = 21 then .isDirectory
    else .other details
  | .invalidArgument _ code details =>
    if errorNumber code = 36 then .nameTooLong else .other details
  | e => .other (toString e)

/-- An access whose errors are faults. -/
def attempt {α : Type} (act : IO α) : IO (Except FileFault α) :=
  try
    return .ok (← act)
  catch e =>
    return .error (faultOf e)

/-- Accesses to the files of the system. -/
instance : Files IO where
  read path := attempt do return (← IO.FS.readBinFile path).data.toList
  write path bytes := attempt (IO.FS.writeBinFile path ⟨bytes.toArray⟩)
  makeDirectory path := attempt (IO.FS.createDir path)
  print text := IO.print text

def main (args : List String) : IO UInt32 := do
  match Command.ofArguments? args with
  | none =>
    IO.eprintln Command.usage
    return 2
  | some command =>
    let run : ExceptT Command.Failure IO Unit := command.run
    match ← run.run with
    | .ok () => return 0
    | .error failure =>
      IO.eprintln failure.message
      return 1

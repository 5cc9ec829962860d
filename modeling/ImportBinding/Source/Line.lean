/-
  ImportBinding — lines of source.

  Source is a list of lines, each of which is code, documentation or empty, and stands at
  a depth of indentation.

  * `nest` moves lines one level in, `block` puts them between two lines;
  * `withoutDocs` leaves the documentation out;
  * `render` is the text of some lines.
-/
namespace ImportBinding.Source

/-- A line of source. -/
inductive Line where
  | empty
  | code (depth : Nat) (text : String)
  | doc (depth : Nat) (text : String)
  deriving DecidableEq, Repr

namespace Line

/-- The line one level in. -/
def nested : Line → Line
  | empty => empty
  | code depth text => code (depth + 1) text
  | doc depth text => doc (depth + 1) text

/-- Whether a line is documentation. -/
def isDoc : Line → Bool
  | doc _ _ => true
  | _ => false

/-- The indentation of a depth: four blanks a level. -/
def indentation (depth : Nat) : String :=
  .ofList (List.replicate (4 * depth) ' ')

def render : Line → String
  | empty => "\n"
  | code depth text => indentation depth ++ text ++ "\n"
  | doc depth text =>
    indentation depth ++ (if text = "" then "///" else "/// " ++ text) ++ "\n"

end Line

def code (text : String) : Line :=
  .code 0 text

def doc (text : String) : Line :=
  .doc 0 text

def nest (lines : List Line) : List Line :=
  lines.map Line.nested

/-- The lines between an opening and a closing one. -/
def block (opening : String) (lines : List Line) (closing : String) : List Line :=
  code opening :: nest lines ++ [code closing]

/-- The lines that are no documentation. -/
def withoutDocs (lines : List Line) : List Line :=
  lines.filter (!·.isDoc)

def render (lines : List Line) : String :=
  String.join (lines.map Line.render)

theorem withoutDocs_nest (lines : List Line) :
    withoutDocs (nest lines) = nest (withoutDocs lines) := by
  induction lines with
  | nil => rfl
  | cons l rest ih =>
    cases l <;> simp_all [withoutDocs, nest, Line.nested, Line.isDoc]

end ImportBinding.Source

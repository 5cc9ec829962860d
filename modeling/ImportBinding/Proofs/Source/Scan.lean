/-
  ImportBinding — scanning lines of source.

  A line of code stands under the lines that open the blocks around it: the last line of each
  smaller depth.  A scan goes through lines and reads each line of code in its scope.

  * `scan` is what a reader finds in some lines;
  * `scan_block`, `Rooted.scan_append` and `scan_flatMap` follow how lines are put together;
  * `scan_filter`: what is no code plays no part;
  * `outermost` reads the lines of one level.
-/
import ImportBinding.Source.Line

namespace ImportBinding.Source

variable {α : Type}

/-- What `read` finds in lines of code, when the first of them stands under `scope`.  It is
    told the texts of the lines that a line stands under, outermost first, and its own. -/
def scan (read : List String → String → Option α) (scope : List String) : List Line → List α
  | [] => []
  | .code depth text :: rest =>
    (read (scope.take depth) text).toList ++ scan read (scope.take depth ++ [text]) rest
  | _ :: rest => scan read scope rest

variable {read : List String → String → Option α} {scope : List String} {lines : List Line}

@[simp] theorem scan_nil : scan read scope [] = [] := rfl

@[simp] theorem scan_empty : scan read scope (.empty :: lines) = scan read scope lines := rfl

@[simp] theorem scan_doc {text : String} :
    scan read scope (doc text :: lines) = scan read scope lines := rfl

/-- Nothing is found where every line reads as nothing. -/
theorem scan_eq_nil (h : ∀ scope text, read scope text = none) (lines : List Line) :
    ∀ scope : List String, scan read scope lines = [] := by
  induction lines with
  | nil => intro scope; rfl
  | cons l rest ih =>
    intro scope
    cases l with
    | empty => exact ih scope
    | doc depth text => exact ih scope
    | code depth text =>
      rw [scan, h, ih]
      rfl

/-- What is left out besides code plays no part. -/
theorem scan_filter {p : Line → Bool} (h : ∀ depth text, p (.code depth text)) (lines : List Line) :
    ∀ scope : List String, scan read scope (lines.filter p) = scan read scope lines := by
  induction lines with
  | nil => intro scope; rfl
  | cons l rest ih =>
    intro scope
    rw [List.filter_cons]
    cases l with
    | empty => split <;> exact ih scope
    | doc depth text => split <;> exact ih scope
    | code depth text => rw [if_pos (h depth text), scan, scan, ih]

/-- The lines that are code. -/
def codeLines (lines : List Line) : List Line :=
  lines.filter fun
    | .code _ _ => true
    | _ => false

theorem scan_codeLines (lines : List Line) (scope : List String) :
    scan read scope (codeLines lines) = scan read scope lines :=
  scan_filter (fun _ _ => rfl) lines scope

/-! ## Rooted lines -/

/-- Lines whose first line of code stands under nothing. -/
def Rooted : List Line → Prop
  | [] => True
  | .code depth _ :: _ => depth = 0
  | _ :: rest => Rooted rest

@[simp] theorem rooted_nil : Rooted [] := trivial

@[simp] theorem rooted_empty : Rooted (.empty :: lines) ↔ Rooted lines := Iff.rfl

@[simp] theorem rooted_doc {text : String} : Rooted (doc text :: lines) ↔ Rooted lines := Iff.rfl

@[simp] theorem rooted_code {text : String} : Rooted (code text :: lines) := rfl

@[simp] theorem rooted_block {opening closing : String} :
    Rooted (block opening lines closing) := rfl

theorem Rooted.append {before after : List Line} (hb : Rooted before) (ha : Rooted after) :
    Rooted (before ++ after) := by
  induction before with
  | nil => exact ha
  | cons l rest ih =>
    cases l with
    | empty => exact ih hb
    | doc => exact ih hb
    | code => exact hb

theorem Rooted.codeLines (h : Rooted lines) : Rooted (codeLines lines) := by
  induction lines with
  | nil => trivial
  | cons l rest ih =>
    cases l with
    | empty => exact ih h
    | doc => exact ih h
    | code => exact h

theorem rooted_flatMap {β : Type} {f : β → List Line} (xs : List β) (h : ∀ x, Rooted (f x)) :
    Rooted (xs.flatMap f) := by
  induction xs with
  | nil => trivial
  | cons x xs ih => rw [List.flatMap_cons]; exact (h x).append ih

/-- What goes before rooted lines is no scope for them. -/
theorem Rooted.scan_eq (h : Rooted lines) (scope : List String) :
    scan read scope lines = scan read [] lines := by
  induction lines with
  | nil => rfl
  | cons l rest ih =>
    cases l with
    | empty => exact ih h
    | doc => exact ih h
    | code depth text =>
      obtain rfl : depth = 0 := h
      simp only [scan, List.take_zero]

theorem Rooted.scan_append {after : List Line} (h : Rooted after) (before : List Line) :
    ∀ scope : List String,
    scan read scope (before ++ after) = scan read scope before ++ scan read [] after := by
  induction before with
  | nil => intro scope; exact h.scan_eq scope
  | cons l rest ih =>
    intro scope
    cases l with
    | empty => exact ih scope
    | doc => exact ih scope
    | code depth text =>
      simp only [scan, List.cons_append, ih, List.append_assoc]

/-! ## Lines put together -/

theorem scan_code (text : String) (h : Rooted lines) :
    scan read scope (code text :: lines) = (read [] text).toList ++ scan read [] lines := by
  rw [code, scan, List.take_zero, h.scan_eq]

/-- Lines one level in stand under one more line. -/
theorem scan_nest (opening : String) (lines : List Line) : ∀ scope : List String,
    scan read (opening :: scope) (nest lines) =
      scan (fun inner => read (opening :: inner)) scope lines := by
  induction lines with
  | nil => intro scope; rfl
  | cons l rest ih =>
    intro scope
    cases l with
    | empty => exact ih scope
    | doc => exact ih scope
    | code depth text => exact congrArg _ (ih (scope.take depth ++ [text]))

/-- The lines of a block stand under the line that opens it. -/
theorem scan_block (opening closing : String) (lines : List Line) :
    scan read scope (block opening lines closing) = (read [] opening).toList ++
      scan (fun inner => read (opening :: inner)) [] lines ++ (read [] closing).toList := by
  have hclosing : Rooted [code closing] := rooted_code
  have hnest : scan read [opening] (nest lines) =
      scan (fun inner => read (opening :: inner)) [] lines := scan_nest opening lines []
  rw [block, List.cons_append, code, scan, List.take_zero, List.nil_append,
    hclosing.scan_append, hnest, scan_code _ rooted_nil, scan_nil, List.append_nil,
    List.append_assoc]

/-- Lines of code made for each of some things, when one thing is found in each. -/
theorem scan_map {β : Type} {f : β → Line} {g : β → α} {xs : List β}
    (h : ∀ x ∈ xs, ∃ text, f x = code text ∧ read [] text = some (g x)) :
    scan read scope (xs.map f) = xs.map g := by
  induction xs generalizing scope with
  | nil => rfl
  | cons x xs ih =>
    obtain ⟨text, hf, hread⟩ := h x List.mem_cons_self
    rw [List.map_cons, hf, code, scan, List.take_zero, hread,
      ih fun y hy => h y (List.mem_cons_of_mem x hy)]
    rfl

theorem scan_flatMap {β : Type} {f : β → List Line} {g : β → List α} {xs : List β}
    (hf : ∀ x, Rooted (f x)) (h : ∀ x ∈ xs, scan read [] (f x) = g x) :
    scan read scope (xs.flatMap f) = xs.flatMap g := by
  rw [(rooted_flatMap xs hf).scan_eq]
  induction xs with
  | nil => rfl
  | cons x xs ih =>
    rw [List.flatMap_cons, (rooted_flatMap xs hf).scan_append, h x List.mem_cons_self,
      ih fun y hy => h y (List.mem_cons_of_mem x hy), List.flatMap_cons]

/-! ## Readers of one level -/

/-- Reads the lines that stand under no other. -/
def outermost (read : String → Option α) : List String → String → Option α
  | [], text => read text
  | _ :: _, _ => none

/-- What is in a block is not read at its own level. -/
theorem scan_outermost_block {read : String → Option α} {opening closing : String} :
    scan (outermost read) scope (block opening lines closing) =
      (read opening).toList ++ (read closing).toList := by
  have hinner : scan (fun inner => outermost read (opening :: inner)) [] lines = [] :=
    scan_eq_nil (fun _ _ => rfl) lines []
  rw [scan_block, hinner, List.append_nil]
  rfl

end ImportBinding.Source

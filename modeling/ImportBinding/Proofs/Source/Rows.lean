/-
  ImportBinding — rows of source.

  A line is printed as a row, unless its text brings line feeds along: then it is printed as
  several.  Whoever deletes the comments of the printed lines finds the lines without their
  documentation iff each line is printed as what it is.

  * `Line.Clean`: the rows of a line are comments iff the line is documentation;
  * `uncommented_render_iff`: this of every line is what it takes;
  * `clean_cons_code`, `clean_cons_doc` and `clean_block` ask it of the texts of some lines.
-/
import ImportBinding.Proofs.Text.Comment
import ImportBinding.Source.Line

namespace ImportBinding

open Text

namespace Source

/-! ## Lines -/

/-- The text of a line. -/
def Line.body : Line → String
  | .empty => ""
  | .code depth text => indentation depth ++ text
  | .doc depth text => indentation depth ++ (if text = "" then "///" else "/// " ++ text)

theorem Line.render_eq (l : Line) : l.render = l.body ++ "\n" := by
  cases l <;> rfl

/-- The rows of a line are comments if it is documentation, and none of them is one else. -/
def Line.Clean (l : Line) : Prop :=
  ∀ row ∈ rows l.body, isComment row = l.isDoc

instance (l : Line) : Decidable l.Clean :=
  inferInstanceAs (Decidable (∀ row ∈ rows l.body, _))

theorem rows_render (lines : List Line) :
    rows (render lines) = lines.flatMap (fun l => rows l.body) ++ [[]] := by
  induction lines with
  | nil => rfl
  | cons l rest ih =>
    have hcons : render (l :: rest) = l.body ++ "\n" ++ render rest := by
      rw [render, List.map_cons, String.join_cons, l.render_eq]
      rfl
    rw [hcons, rows_append_newline, ih, List.flatMap_cons, List.append_assoc]

/-- The rows of a line that are no comments. -/
def Line.kept (l : Line) : List (List Char) :=
  (rows l.body).filter (!isComment ·)

theorem Line.clean_code_iff {l : Line} (h : l.isDoc = false) :
    l.Clean ↔ l.kept = rows l.body := by
  simp [Clean, kept, h]

theorem Line.clean_doc_iff {l : Line} (h : l.isDoc = true) : l.Clean ↔ l.kept = [] := by
  simp [Clean, kept, h]

theorem withoutDocs_cons_code {l : Line} (h : l.isDoc = false) (lines : List Line) :
    withoutDocs (l :: lines) = l :: withoutDocs lines := by
  simp [withoutDocs, h]

theorem withoutDocs_cons_doc {l : Line} (h : l.isDoc = true) (lines : List Line) :
    withoutDocs (l :: lines) = withoutDocs lines := by
  simp [withoutDocs, h]

theorem withoutDocs_append (lines more : List Line) :
    withoutDocs (lines ++ more) = withoutDocs lines ++ withoutDocs more :=
  List.filter_append ..

theorem withoutDocs_block (opening : String) (lines : List Line) (closing : String) :
    withoutDocs (block opening lines closing) = block opening (withoutDocs lines) closing := by
  rw [block, withoutDocs_append, withoutDocs_cons_code rfl, withoutDocs_nest]
  rfl

/-- The rows of the code are kept, when none of them is a comment. -/
theorem flatMap_body_sublist {lines : List Line}
    (h : ∀ l ∈ lines, l.isDoc = false → l.Clean) :
    ((withoutDocs lines).flatMap fun l => rows l.body).Sublist (lines.flatMap Line.kept) := by
  induction lines with
  | nil => exact List.Sublist.refl _
  | cons l rest ih =>
    obtain ⟨hl, hrest⟩ := List.forall_mem_cons.1 h
    cases hdoc : l.isDoc with
    | false =>
      rw [withoutDocs_cons_code hdoc, List.flatMap_cons, List.flatMap_cons,
        (Line.clean_code_iff hdoc).1 (hl hdoc)]
      exact (List.Sublist.refl _).append (ih hrest)
    | true =>
      rw [withoutDocs_cons_doc hdoc, List.flatMap_cons]
      exact (ih hrest).trans (List.sublist_append_right _ _)

theorem flatMap_kept_eq_iff {lines : List Line} (h : ∀ l ∈ lines, l.isDoc = false → l.Clean) :
    lines.flatMap Line.kept = (withoutDocs lines).flatMap (fun l => rows l.body) ↔
      ∀ l ∈ lines, l.Clean := by
  induction lines with
  | nil => simp [withoutDocs]
  | cons l rest ih =>
    obtain ⟨hl, hrest⟩ := List.forall_mem_cons.1 h
    rw [List.forall_mem_cons, ← ih hrest, List.flatMap_cons]
    cases hdoc : l.isDoc with
    | false =>
      rw [withoutDocs_cons_code hdoc, List.flatMap_cons, (Line.clean_code_iff hdoc).1 (hl hdoc),
        List.append_cancel_left_eq]
      exact (and_iff_right (hl hdoc)).symm
    | true =>
      rw [withoutDocs_cons_doc hdoc, Line.clean_doc_iff hdoc]
      refine ⟨fun heq => ?_, fun h => by rw [h.1, h.2]; rfl⟩
      -- What the other lines keep is as long as the code, so this line keeps nothing.
      have hlength := congrArg List.length heq
      have hle := (flatMap_body_sublist hrest).length_le
      rw [List.length_append] at hlength
      have hnil : l.kept = [] := List.eq_nil_of_length_eq_zero (by omega)
      rw [hnil, List.nil_append] at heq
      exact ⟨hnil, heq⟩

theorem rows_uncommented_render (lines : List Line) :
    rows (uncommented (render lines)) = lines.flatMap Line.kept ++ [[]] := by
  have hkept : (rows (render lines)).filter (!isComment ·) = lines.flatMap Line.kept ++ [[]] := by
    rw [rows_render, List.filter_append, List.filter_flatMap]
    rfl
  rw [rows_uncommented (by rw [hkept]; simp), hkept]

/-- A text without its comments is its lines without documentation iff the lines are clean. -/
theorem uncommented_render_iff {lines : List Line} :
    uncommented (render lines) = render (withoutDocs lines) ↔ ∀ l ∈ lines, l.Clean := by
  rw [← rows_inj, rows_uncommented_render, rows_render, List.append_cancel_right_eq]
  constructor
  · intro heq
    refine (flatMap_kept_eq_iff fun l hl hcode row hrow => ?_).1 heq
    have hmem : row ∈ lines.flatMap Line.kept := by
      rw [heq]
      refine List.mem_flatMap.2 ⟨l, List.mem_filter.2 ⟨hl, ?_⟩, hrow⟩
      rw [hcode]
      rfl
    obtain ⟨l', -, hl'⟩ := List.mem_flatMap.1 hmem
    rw [hcode]
    simpa using (List.mem_filter.1 hl').2
  · intro hclean
    exact (flatMap_kept_eq_iff fun l hl _ => hclean l hl).2 hclean

/-! ## Clean lines -/

theorem flat_indentation (depth : Nat) : Flat (Line.indentation depth) := by
  rw [Flat, Line.indentation, String.toList_ofList]
  simp

theorem clean_empty : Line.empty.Clean := by decide

theorem clean_code_depth {depth : Nat} {text : String} :
    (Line.code depth text).Clean ↔ Bare text := by
  have hdoc : (Line.code depth text).isDoc = false := rfl
  rw [Line.Clean, hdoc, Line.body, forall_rows_iff, later_append_flat (flat_indentation depth),
    String.toList_append, Line.indentation, String.toList_ofList, isComment_spaces, bare_iff]

/-- The rows of documentation are a comment and those of its text behind the first. -/
theorem exists_rows_doc (depth : Nat) (text : String) :
    ∃ first, isComment first ∧ rows (Line.doc depth text).body = first :: (rows text).tail := by
  have hslashes (more : List Char) :
      isComment ((Line.indentation depth).toList ++ '/' :: '/' :: '/' :: more) := by
    rw [Line.indentation, String.toList_ofList, isComment_spaces]
    exact isComment_slashes more
  obtain ⟨row, more, hrows⟩ := List.exists_cons_of_ne_nil (rows_ne_nil text)
  rw [Line.body]
  split
  · next htext =>
    subst htext
    refine ⟨_, hslashes [], ?_⟩
    rw [rows_append (flat_indentation depth)]
    rfl
  · refine ⟨_, hslashes (' ' :: row), ?_⟩
    have hmark : Flat "/// " := by decide
    rw [rows_append (flat_indentation depth), rows_append hmark, hrows]
    rfl

theorem clean_doc_depth {depth : Nat} {text : String} :
    (Line.doc depth text).Clean ↔ Later true text := by
  obtain ⟨first, hfirst, hrows⟩ := exists_rows_doc depth text
  rw [Line.Clean, hrows, List.forall_mem_cons]
  exact and_iff_right hfirst

theorem clean_nested {l : Line} : l.nested.Clean ↔ l.Clean := by
  cases l with
  | empty => exact Iff.rfl
  | code depth text => exact clean_code_depth.trans clean_code_depth.symm
  | doc depth text => exact clean_doc_depth.trans clean_doc_depth.symm

/-- All of some lines are clean. -/
def Clean (lines : List Line) : Prop :=
  ∀ l ∈ lines, l.Clean

variable {text opening closing : String} {lines lines' : List Line}

@[simp] theorem clean_nil : Clean [] := fun _ h => nomatch h

@[simp] theorem clean_cons_empty : Clean (.empty :: lines) ↔ Clean lines :=
  List.forall_mem_cons.trans (and_iff_right clean_empty)

@[simp] theorem clean_cons_code : Clean (code text :: lines) ↔ Bare text ∧ Clean lines :=
  List.forall_mem_cons.trans (and_congr_left' clean_code_depth)

@[simp] theorem clean_cons_doc : Clean (doc text :: lines) ↔ Later true text ∧ Clean lines :=
  List.forall_mem_cons.trans (and_congr_left' clean_doc_depth)

@[simp] theorem clean_append : Clean (lines ++ lines') ↔ Clean lines ∧ Clean lines' :=
  List.forall_mem_append

@[simp] theorem clean_block :
    Clean (block opening lines closing) ↔ Bare opening ∧ Clean lines ∧ Bare closing := by
  have hnest : Clean (nest lines) ↔ Clean lines := by
    simp only [Clean, nest, List.forall_mem_map, clean_nested]
  rw [block, List.cons_append, clean_cons_code, clean_append, hnest, clean_cons_code]
  exact and_congr_right' (and_congr_right' (and_iff_left clean_nil))

theorem clean_map {α : Type} {f : α → Line} {xs : List α} :
    Clean (xs.map f) ↔ ∀ x ∈ xs, (f x).Clean :=
  List.forall_mem_map

theorem clean_flatMap {α : Type} {f : α → List Line} {xs : List α} :
    Clean (xs.flatMap f) ↔ ∀ x ∈ xs, Clean (f x) := by
  simp only [Clean, List.mem_flatMap, forall_exists_index, and_imp]
  exact forall_comm.trans (forall_congr' fun _ => forall_comm)

end Source

end ImportBinding

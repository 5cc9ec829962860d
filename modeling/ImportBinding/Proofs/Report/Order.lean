/-
  ImportBinding — the order of a report.

  Diagnostics are compared by place, then by code, then by message.  Places are compared segment
  by segment, and one that ends comes before those that go on.

  * `Segment.Before`, `PlaceKey.Before` and `Diagnostic.Before` say what comes first, and
    `Diagnostic.key_of_pointer` what the place of a diagnostic is compared by;
  * `Diagnostic.order_eq_lt_iff` and `Diagnostic.order_eq_eq_iff`: the comparison finds that out,
    and it is a total preorder (`Diagnostic.Upto`);
  * `Report.filter_ties`: diagnostics that tie keep their order;
  * `Report.ofDiagnostics_sorted` puts this together.
-/
import ImportBinding.Proofs.Json.Segments
import ImportBinding.Report.Basic

namespace ImportBinding

theorem compare_string_eq_lt {s t : String} : compare s t = .lt ↔ s < t :=
  compareOfLessAndEq_eq_lt

/-! ## Segments -/

namespace Segment

/-- Numbers come in their order and before all keys, and keys by their text. -/
inductive Before : Segment → Segment → Prop where
  | index {m n : Nat} (h : m < n) : Before (.index m) (.index n)
  | indexKey {n : Nat} {s : String} : Before (.index n) (.key s)
  | key {s t : String} (h : s < t) : Before (.key s) (.key t)

theorem compare_eq_lt_iff {a b : Segment} : compare a b = .lt ↔ a.Before b := by
  constructor
  · intro h
    cases a <;> cases b
    case index.index m n => exact .index (Nat.compare_eq_lt.1 h)
    case index.key => exact .indexKey
    case key.index => cases h
    case key.key => exact .key (compare_string_eq_lt.1 h)
  · rintro (h | _ | h)
    · exact Nat.compare_eq_lt.2 h
    · rfl
    · exact compare_string_eq_lt.2 h

instance : Std.LawfulEqOrd Segment where
  compare_self {a} := by
    cases a with
    | index n => exact Std.ReflOrd.compare_self (α := Nat)
    | key s => exact Std.ReflOrd.compare_self (α := String)
  eq_of_compare {a b} h := by
    cases a <;> cases b
    case index.index m n => exact congrArg index (Std.LawfulEqOrd.eq_of_compare (α := Nat) h)
    case index.key => cases h
    case key.index => cases h
    case key.key s t => exact congrArg key (Std.LawfulEqOrd.eq_of_compare (α := String) h)

instance : Std.TransOrd Segment where
  eq_swap {a b} := by
    cases a <;> cases b
    case index.index m n => exact Std.OrientedOrd.eq_swap (α := Nat)
    case index.key => rfl
    case key.index => rfl
    case key.key s t => exact Std.OrientedOrd.eq_swap (α := String)
  isLE_trans {a b c} hab hbc := by
    cases a <;> cases b <;> cases c
    case index.index.index => exact Std.TransOrd.isLE_trans (α := Nat) hab hbc
    case key.key.key => exact Std.TransOrd.isLE_trans (α := String) hab hbc
    case index.index.key => rfl
    case index.key.key => rfl
    case index.key.index => cases hbc
    case key.key.index => cases hbc
    all_goals cases hab

end Segment

/-! ## Places -/

/-- One place comes before another: the other goes on where it ends, or at the first segment in
    which they differ its own comes first. -/
def PlaceKey.Before (p q : List Segment) : Prop :=
  (∃ s rest, q = p ++ s :: rest) ∨
    ∃ common s t p' q', p = common ++ s :: p' ∧ q = common ++ t :: q' ∧ s.Before t

theorem PlaceKey.before_cons_iff {s t : Segment} {p q : List Segment} :
    PlaceKey.Before (s :: p) (t :: q) ↔ s.Before t ∨ s = t ∧ PlaceKey.Before p q := by
  constructor
  · rintro (⟨x, rest, h⟩ | ⟨common, x, y, p', q', hp, hq, hxy⟩)
    · obtain ⟨rfl, rfl⟩ := List.cons.inj h
      exact Or.inr ⟨rfl, Or.inl ⟨x, rest, rfl⟩⟩
    · rcases common with - | ⟨z, common⟩
      · obtain ⟨rfl, -⟩ := List.cons.inj hp
        obtain ⟨rfl, -⟩ := List.cons.inj hq
        exact Or.inl hxy
      · obtain ⟨rfl, rfl⟩ := List.cons.inj hp
        obtain ⟨rfl, rfl⟩ := List.cons.inj hq
        exact Or.inr ⟨rfl, Or.inr ⟨common, x, y, p', q', rfl, rfl, hxy⟩⟩
  · rintro (h | ⟨rfl, ⟨x, rest, rfl⟩ | ⟨common, x, y, p', q', rfl, rfl, hxy⟩⟩)
    · exact Or.inr ⟨[], s, t, p, q, rfl, rfl, h⟩
    · exact Or.inl ⟨x, rest, rfl⟩
    · exact Or.inr ⟨s :: common, x, y, p', q', rfl, rfl, hxy⟩

theorem PlaceKey.compare_eq_lt_iff {p q : List Segment} :
    compare p q = .lt ↔ PlaceKey.Before p q := by
  induction p generalizing q with
  | nil =>
    cases q with
    | nil => simp [PlaceKey.Before]
    | cons t q => exact iff_of_true rfl (Or.inl ⟨t, q, rfl⟩)
  | cons s p ih =>
    cases q with
    | nil => exact iff_of_false nofun (by simp [PlaceKey.Before])
    | cons t q =>
      rw [PlaceKey.before_cons_iff, ← ih, ← Segment.compare_eq_lt_iff, List.compare_eq_compareLex,
        List.compareLex_cons_cons, Ordering.then_eq_lt, Std.compare_eq_iff_eq]

-- the third container with all that is in it comes before the eleventh
example : compare (placeKey "/containers/2/containers/0") (placeKey "/containers/10") = .lt := by
  decide

/-! ## Diagnostics -/

namespace Diagnostic

/-- What the place of a diagnostic is compared by. -/
def key (d : Diagnostic) : List Segment :=
  placeKey d.pointer

/-- What stands before the first slash of a pointer does not count. -/
theorem key_of_pointer {d : Diagnostic} {before : String} {segs : List (List Char)}
    (hbefore : '/' ∉ before.toList) (hsegs : ∀ seg ∈ segs, '/' ∉ seg)
    (h : d.pointer = before ++ Json.Pointer.spelled segs) :
    d.key = segs.map fun seg => Segment.ofString (.ofList seg) := by
  rw [key, placeKey, h, String.toList_append, Json.Pointer.spelled, String.toList_ofList,
    Json.Pointer.segments_append_flatMap hbefore hsegs, List.drop_one, List.tail_cons]

theorem key_of_location_eq_none {d : Diagnostic} (h : d.location = none) : d.key = [] := by
  rw [key, pointer, h]
  rfl

/-- The place of one diagnostic comes before that of another, or it is the same and the code
    decides, or that is the same too and the message decides. -/
def Before (a b : Diagnostic) : Prop :=
  PlaceKey.Before a.key b.key ∨
    a.key = b.key ∧ (a.code < b.code ∨ a.code = b.code ∧ a.message < b.message)

/-- Nothing that diagnostics are compared by tells them apart. -/
def Ties (a b : Diagnostic) : Prop :=
  a.key = b.key ∧ a.code = b.code ∧ a.message = b.message

instance (a b : Diagnostic) : Decidable (a.Ties b) :=
  inferInstanceAs (Decidable (_ ∧ _ ∧ _))

/-- A diagnostic may stand before another. -/
def Upto (a b : Diagnostic) : Prop :=
  a.Before b ∨ a.Ties b

instance : Std.TransCmp order :=
  inferInstanceAs (Std.TransCmp
    (compareLex (compareLex (compareOn key) (compareOn code)) (compareOn message)))

variable {a b : Diagnostic}

theorem order_eq_lt_iff : a.order b = .lt ↔ a.Before b := by
  rw [order, Ordering.then_eq_lt, Ordering.then_eq_lt, Ordering.then_eq_eq,
    Std.compare_eq_iff_eq, Std.compare_eq_iff_eq, compare_string_eq_lt, compare_string_eq_lt,
    PlaceKey.compare_eq_lt_iff, or_assoc, and_assoc, ← and_or_left]
  rfl

theorem order_eq_eq_iff : a.order b = .eq ↔ a.Ties b := by
  rw [order, Ordering.then_eq_eq, Ordering.then_eq_eq, Std.compare_eq_iff_eq,
    Std.compare_eq_iff_eq, Std.compare_eq_iff_eq, and_assoc]
  rfl

theorem isLE_order_iff : (a.order b).isLE ↔ a.Upto b := by
  rw [Ordering.isLE_iff_eq_lt_or_eq_eq, order_eq_lt_iff, order_eq_eq_iff]
  rfl

theorem upto_trans (a b c : Diagnostic) (hab : a.Upto b) (hbc : b.Upto c) : a.Upto c :=
  isLE_order_iff.1 (Std.TransCmp.isLE_trans (isLE_order_iff.2 hab) (isLE_order_iff.2 hbc))

/-- Of two diagnostics one comes before the other, or they tie. -/
theorem upto_iff : a.Upto b ↔ ¬ b.Before a := by
  rw [← isLE_order_iff, ← order_eq_lt_iff, Ordering.isLE_iff_ne_gt, Std.OrientedCmp.gt_iff_lt]

theorem upto_refl (a : Diagnostic) : a.Upto a :=
  Or.inr ⟨rfl, rfl, rfl⟩

theorem upto_total (a b : Diagnostic) : a.Upto b ∨ b.Upto a := by
  by_cases h : a.Before b
  · exact Or.inl (Or.inl h)
  · exact Or.inr (upto_iff.2 h)

theorem isLE_trans (a b c : Diagnostic) (hab : (a.order b).isLE = true)
    (hbc : (b.order c).isLE = true) : (a.order c).isLE = true :=
  Std.TransCmp.isLE_trans hab hbc

theorem isLE_total (a b : Diagnostic) : ((a.order b).isLE || (b.order a).isLE) = true := by
  simpa [isLE_order_iff] using upto_total a b

theorem ties_of_upto (hab : a.Upto b) (hba : b.Upto a) : a.Ties b :=
  hab.resolve_left (upto_iff.1 hba)

theorem Ties.symm (h : a.Ties b) : b.Ties a :=
  ⟨h.1.symm, h.2.1.symm, h.2.2.symm⟩

theorem Ties.trans {c : Diagnostic} (hab : a.Ties b) (hbc : b.Ties c) : a.Ties c :=
  ⟨hab.1.trans hbc.1, hab.2.1.trans hbc.2.1, hab.2.2.trans hbc.2.2⟩

end Diagnostic

/-! ## Reports -/

namespace Report

open Diagnostic

variable {ds es : List Diagnostic}

theorem pairwise_diagnostics (ds : List Diagnostic) :
    (ofDiagnostics ds).diagnostics.Pairwise Diagnostic.Upto :=
  (List.pairwise_mergeSort isLE_trans isLE_total ds).imp isLE_order_iff.1

/-- Diagnostics in order stay as they are. -/
theorem diagnostics_of_pairwise (h : ds.Pairwise Diagnostic.Upto) :
    (ofDiagnostics ds).diagnostics = ds :=
  List.mergeSort_of_pairwise (h.imp isLE_order_iff.2)

/-- Those that tie with one diagnostic keep their order. -/
theorem filter_ties (ds : List Diagnostic) (d : Diagnostic) :
    (ofDiagnostics ds).diagnostics.filter (d.Ties ·) = ds.filter (d.Ties ·) := by
  have hties : (ds.filter (d.Ties ·)).Pairwise fun a b => (a.order b).isLE = true := by
    refine List.Pairwise.imp_of_mem (R := fun _ _ => True) (fun ha hb _ => ?_)
      (List.pairwise_of_forall fun _ _ => trivial)
    have hda := of_decide_eq_true (List.mem_filter.1 ha).2
    have hdb := of_decide_eq_true (List.mem_filter.1 hb).2
    exact isLE_order_iff.2 (Or.inr (hda.symm.trans hdb))
  -- in order already, they are a sublist of the report, and it has no more of them
  have hsub := (List.sublist_mergeSort isLE_trans isLE_total hties List.filter_sublist).filter
    (d.Ties ·)
  rw [List.filter_filter] at hsub
  simp only [Bool.and_self] at hsub
  exact (hsub.eq_of_length ((diagnostics_perm ds).filter _).length_eq.symm).symm

theorem ok_ofDiagnostics_iff (ds : List Diagnostic) :
    (ofDiagnostics ds).ok = true ↔ ∀ d ∈ ds, d.severity ≠ .error := by
  simp [ofDiagnostics]

/-- A report is told by its diagnostics, whatever order they came in. -/
theorem ofDiagnostics_eq (h : es.Perm ds)
    (hsame : (ofDiagnostics es).diagnostics = (ofDiagnostics ds).diagnostics) :
    ofDiagnostics es = ofDiagnostics ds := by
  have hok : (ofDiagnostics es).ok = (ofDiagnostics ds).ok := by
    rw [Bool.eq_iff_iff, ok_ofDiagnostics_iff, ok_ofDiagnostics_iff]
    exact ⟨fun hd d hmem => hd d (h.symm.subset hmem), fun hd d hmem => hd d (h.subset hmem)⟩
  exact congrArg₂ (Report.mk knownVersion) hok hsame

/-- Diagnostics in another order give the same report when only equal ones tie. -/
theorem ofDiagnostics_perm (h : es.Perm ds) (hties : ∀ a ∈ ds, ∀ b ∈ ds, a.Ties b → a = b) :
    ofDiagnostics es = ofDiagnostics ds := by
  have hperm : (ofDiagnostics es).diagnostics.Perm (ofDiagnostics ds).diagnostics :=
    (diagnostics_perm es).trans (h.trans (diagnostics_perm ds).symm)
  refine ofDiagnostics_eq h (hperm.eq_of_pairwise (fun a b ha hb hab hba => ?_)
    (pairwise_diagnostics es) (pairwise_diagnostics ds))
  exact hties a (h.subset ((diagnostics_perm es).subset ha)) b ((diagnostics_perm ds).subset hb)
    (ties_of_upto hab hba)

/-- A report has the diagnostics that it is made of, sorted by place, code and message, and those
    that tie in the order in which they came.  A place is compared by what stands behind the
    slashes of its text.  The comparison is a total preorder, so a report of
    the diagnostics of a report is the same, and so is one of the same diagnostics in another
    order when only equal ones tie.  It is ok when none of them is an error. -/
theorem ofDiagnostics_sorted (ds : List Diagnostic) :
    (∀ d : Diagnostic, (d.location = none → d.key = []) ∧
      ∀ before segs, '/' ∉ before.toList → (∀ seg ∈ segs, '/' ∉ seg) →
        d.pointer = before ++ Json.Pointer.spelled segs →
        d.key = segs.map fun seg => Segment.ofString (.ofList seg)) ∧
    (∀ a b : Diagnostic, (a.order b = .lt ↔ a.Before b) ∧ (a.order b = .eq ↔ a.Ties b) ∧
      (a.order b = .gt ↔ b.Before a)) ∧
    ((∀ a : Diagnostic, a.Upto a) ∧ (∀ a b : Diagnostic, a.Upto b ∨ b.Upto a) ∧
      ∀ a b c : Diagnostic, a.Upto b → b.Upto c → a.Upto c) ∧
    (ofDiagnostics ds).diagnostics.Perm ds ∧
    (ofDiagnostics ds).diagnostics.Pairwise Diagnostic.Upto ∧
    (∀ d : Diagnostic,
      (ofDiagnostics ds).diagnostics.filter (d.Ties ·) = ds.filter (d.Ties ·)) ∧
    ofDiagnostics (ofDiagnostics ds).diagnostics = ofDiagnostics ds ∧
    (∀ es, es.Perm ds → (∀ a ∈ ds, ∀ b ∈ ds, a.Ties b → a = b) →
      ofDiagnostics es = ofDiagnostics ds) ∧
    ((ofDiagnostics ds).ok = true ↔ ∀ d ∈ ds, d.severity ≠ .error) := by
  refine ⟨fun d => ⟨key_of_location_eq_none, fun _ _ => key_of_pointer⟩,
    fun a b => ⟨order_eq_lt_iff, order_eq_eq_iff, ?_⟩, ⟨upto_refl, upto_total, upto_trans⟩,
    diagnostics_perm ds, pairwise_diagnostics ds, filter_ties ds, ?_,
    fun es h hties => ofDiagnostics_perm h hties, ok_ofDiagnostics_iff ds⟩
  · rw [Std.OrientedCmp.gt_iff_lt, order_eq_lt_iff]
  · exact ofDiagnostics_eq (diagnostics_perm ds) (diagnostics_of_pairwise (pairwise_diagnostics ds))

end Report

end ImportBinding

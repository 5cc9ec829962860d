/-
  ImportBinding — the spellings of places.

  A path is read in two steps: its text is cut into tokens, and the tokens are followed into the
  document.  In both, one thing can be written in several ways: a `~` that starts no escape
  stands for itself, and an index may have a sign and zeros in front.

  * `tokens_encoded`: the tokens of keys that were escaped are the keys, and only a text that
    starts with something else than a slash has none;
  * `Step.SpelledBy`: a segment spells a step, and `leadsTo_iff`: a text leads to a place iff its
    segments spell the steps one by one;
  * `Strict`: each `~` starts an escape and each index is plain, and `strict_iff`: that is one
    spelling for each place, `Place.text`;
  * `paths_to_places` puts this together and says which places have no other spelling.
-/
import ImportBinding.Proofs.Json.Escape
import ImportBinding.Proofs.Json.Index
import ImportBinding.Proofs.Json.Segments
import ImportBinding.Proofs.Patch.Landing

namespace ImportBinding

/-! ## Tokens -/

namespace Json.Pointer

/-- The text of keys, each escaped by passes. -/
def encoded (keys : List String) : String :=
  spelled (keys.map fun key => escapeByPasses key.toList)

theorem text_eq_spelled (p : Pointer) : p.text = spelled (p.map fun t => escape t.toList) := by
  rw [text, spelled, List.flatMap_map]
  congr 1
  induction p with
  | nil => rfl
  | cons t rest ih => rw [chars, ih]; rfl

theorem encoded_eq_text (keys : List String) : encoded keys = Pointer.text keys := by
  simp only [encoded, text_eq_spelled, escape_eq]

end Json.Pointer

namespace Patch

open Json (Members Place Pointer Step)

/-- The tokens of escaped keys are the keys, whatever characters they have.  A text has tokens
    when it is empty or starts with a slash, and else it is no pointer; the tokens are what
    stands between its slashes, each read by a pass for slashes and one for `~`. -/
theorem tokens_encoded :
    (∀ keys : List String, tokens (Pointer.encoded keys) = .ok keys) ∧
    (∀ s fault, tokens s = .error fault ↔
      (s ≠ "" ∧ s.toList.head? ≠ some '/') ∧ fault = .badPointer s) ∧
    tokens "" = .ok [] ∧
    ∀ s : String, tokens ("/" ++ s) =
      .ok ((s.toList.splitOn '/').map fun seg => .ofList (Pointer.unescapeByPasses seg)) := by
  refine ⟨fun keys => ?_, fun s fault => ?_, rfl, fun s => ?_⟩
  · rw [tokens_eq_ok_iff, Pointer.encoded_eq_text, Pointer.tokens?_text]
  · have hempty : s = "" ↔ s.toList = [] := String.toList_inj.symm
    rw [tokens, Pointer.tokens?, ne_eq, hempty]
    rcases s.toList with - | ⟨c, rest⟩
    · simp
    · by_cases hc : c = '/' <;> simp [hc, eq_comm]
  · have hs : ("/" ++ s).toList = '/' :: s.toList := by simp
    rw [tokens, Pointer.tokens?, hs]
    simp only [if_true, Pointer.unescape_eq]
    rfl

end Patch

/-! ## Spellings of steps -/

namespace Json

/-- The token that spells a step: the key itself, or the decimal digits of the index. -/
def Step.token : Step → String
  | .member key => key
  | .item i => Nat.repr i

/-- Whether a token spells a step. -/
def Step.ReadFrom : Step → String → Prop
  | .member key, token => token = key
  | .item i, token => index? token = some i

/-- Whether a segment of a text spells a step. -/
def Step.SpelledBy (s : Step) (seg : List Char) : Prop :=
  '/' ∉ seg ∧ s.ReadFrom (Pointer.token seg)

/-- The text of a place: its keys escaped, and its indexes in plain digits. -/
def Place.text (q : Place) : String :=
  Pointer.text (q.map Step.token)

variable {s : Step} {seg : List Char}

theorem Step.lt_size_of_readFrom {i : Nat} {token : String} (h : (Step.item i).ReadFrom token) :
    i < UInt64.size :=
  lt_size_of_index? h

/-- A step that has a spelling has one by its own token. -/
theorem Step.readFrom_token {token : String} (h : s.ReadFrom token) : s.ReadFrom s.token := by
  cases s with
  | member key => rfl
  | item i => exact index?_repr (lt_size_of_readFrom h)

theorem Step.spelledBy_escape {token : String} (h : s.ReadFrom token) :
    s.SpelledBy (Pointer.escape token.toList) := by
  refine ⟨Pointer.slash_notMem_escape _, ?_⟩
  rw [Pointer.token, Pointer.unescape_escape, String.ofList_toList]
  exact h

theorem Step.forall₂_spelledBy_iff {q : Place} {segs : List (List Char)} :
    List.Forall₂ Step.SpelledBy q segs ↔
      (∀ seg ∈ segs, '/' ∉ seg) ∧ List.Forall₂ Step.ReadFrom q (segs.map Pointer.token) := by
  induction segs generalizing q with
  | nil => simp
  | cons seg segs ih =>
    rw [List.map_cons, List.forall₂_cons_right_iff, List.forall₂_cons_right_iff,
      List.forall_mem_cons]
    constructor
    · rintro ⟨s, q, ⟨hseg, hs⟩, hq, rfl⟩
      obtain ⟨hsegs, hq⟩ := ih.1 hq
      exact ⟨⟨hseg, hsegs⟩, s, q, hs, hq, rfl⟩
    · rintro ⟨⟨hseg, hsegs⟩, s, q, hs, hq, rfl⟩
      exact ⟨s, q, ⟨hseg, hs⟩, ih.2 ⟨hsegs, hq⟩, rfl⟩

/-- A segment without stray `~`, whose index is plain, spells its step by the step's token, and
    no other segment does. -/
theorem Step.spelledBy_strict_iff (h : s.SpelledBy seg) :
    (Pointer.Escaped seg ∧ ∀ i, s = .item i → Plain (Pointer.token seg)) ↔
      seg = Pointer.escape s.token.toList := by
  have htoken : seg = Pointer.escape s.token.toList → Pointer.token seg = s.token := by
    rintro rfl
    rw [Pointer.token, Pointer.unescape_escape, String.ofList_toList]
  have hspelled : Pointer.Escaped seg ∧ Pointer.token seg = s.token ↔
      seg = Pointer.escape s.token.toList := by
    rw [Pointer.escaped_iff h.1]
    constructor
    · rintro ⟨hseg, ht⟩
      rw [← ht, Pointer.token, String.toList_ofList]
      exact hseg
    · intro hseg
      refine ⟨?_, htoken hseg⟩
      rw [hseg, Pointer.unescape_escape]
  rw [← hspelled]
  refine and_congr_right fun _ => ?_
  cases s with
  | member key => exact iff_of_true nofun h.2
  | item i =>
    have hplain : Plain (Pointer.token seg) ↔ Pointer.token seg = Nat.repr i := plain_iff h.2
    simp only [Step.item.injEq, forall_eq', hplain, Step.token]

/-- Only a key in which each `~` looks like the start of an escape is spelled in one way. -/
theorem Step.spelledBy_unique_iff (h : s.SpelledBy seg) :
    (∀ a b, s.SpelledBy a → s.SpelledBy b → a = b) ↔
      ∃ key, s = .member key ∧ Pointer.Escaped key.toList := by
  cases s with
  | member key =>
    have hread (a : List Char) : (Step.member key).SpelledBy a ↔
        '/' ∉ a ∧ Pointer.unescape a = key.toList := by
      rw [Step.SpelledBy, Step.ReadFrom, Pointer.token, ← String.toList_inj, String.toList_ofList]
    have hescape : (Step.member key).SpelledBy (Pointer.escape key.toList) :=
      Step.spelledBy_escape rfl
    simp only [Step.member.injEq, exists_eq_left']
    rw [Pointer.escaped_iff_spelled_once]
    constructor
    · exact fun hunique a ha hkey => hunique _ _ ((hread a).2 ⟨ha, hkey⟩) hescape
    · intro honce a b ha hb
      obtain ⟨ha, hkey⟩ := (hread a).1 ha
      obtain ⟨hb, hkey'⟩ := (hread b).1 hb
      rw [honce a ha hkey, honce b hb hkey']
  | item i =>
    refine iff_of_false (fun hunique => ?_) (by simp)
    have hlt := Step.lt_size_of_readFrom h.2
    have hsame := hunique _ _ (Step.spelledBy_escape (s := .item i) (index?_repr hlt))
      (Step.spelledBy_escape (index?_plus_repr hlt))
    have hdigits := congrArg Pointer.unescape hsame
    rw [Pointer.unescape_escape, Pointer.unescape_escape] at hdigits
    have hlength := congrArg List.length hdigits
    simp at hlength

end Json

namespace Patch

open Json (Members Place Pointer Step)

variable {s t : String} {u v : Json} {p : Pointer} {q : Place}

/-! ## Texts and places -/

/-- A text leads to a place at which there is a value. -/
def LeadsTo (s : String) (u : Json) (q : Place) : Prop :=
  target? s u = some q ∧ ∃ v, u.get? q = some v

/-- A path follows the grammar of pointers in a document: each `~` starts an escape, and each
    token that is read in an array is an index in plain digits. -/
structure Strict (s : String) (u : Json) : Prop where
  escapes : ∀ seg ∈ Pointer.segments s.toList, Pointer.Escaped seg
  indexes : ∀ front token rest items, tokens s = .ok (front ++ token :: rest) →
    at? front u = .ok (.array items) → Json.Plain token

theorem stepOf?_iff {token : String} {step : Step} (h : u.behind? step = some v) :
    stepOf? token u = some step ↔ step.ReadFrom token := by
  cases step with
  | member key =>
    cases u with
    | object ms => simp [stepOf?, Step.ReadFrom]
    | _ => cases h
  | item i =>
    cases u with
    | array items =>
      rw [stepOf?, Step.ReadFrom]
      split
      · next hdash =>
        rw [hdash, index?_dash]
        refine iff_of_false (fun hi => ?_) (Option.some_ne_none i).symm
        obtain rfl : items.length = i := by simpa using hi
        exact absurd h (by simp [Json.behind?])
      · simp
    | _ => cases h

/-- Tokens lead to a place iff they spell its steps. -/
theorem route?_iff (h : u.get? q = some v) :
    route? p u = some q ↔ List.Forall₂ Step.ReadFrom q p := by
  induction q generalizing p u with
  | nil =>
    cases p with
    | nil => simp [route?]
    | cons token p => simp [route?_cons_eq_some_iff]
  | cons step q ih =>
    cases p with
    | nil => simp [route?]
    | cons token p =>
      obtain ⟨w, hw, hv⟩ := Option.bind_eq_some_iff.1 h
      rw [route?_cons_eq_some_iff, List.forall₂_cons, ← ih hv, ← stepOf?_iff hw]
      constructor
      · rintro ⟨s, w', r, hs, hw', hr, he⟩
        obtain ⟨rfl, rfl⟩ := List.cons.inj he
        obtain rfl := Option.some.inj (hw.symm.trans hw')
        exact ⟨hs, hr⟩
      · rintro ⟨hs, hr⟩
        exact ⟨step, w, q, hs, hw, hr, rfl⟩

theorem route?_append_singleton_eq_some_iff {token : String} :
    route? (p ++ [token]) u = some q ↔ ∃ r w step v, route? p u = some r ∧ u.get? r = some w ∧
      stepOf? token w = some step ∧ w.behind? step = some v ∧ q = r ++ [step] := by
  induction p generalizing u q with
  | nil =>
    rw [List.nil_append, route?_cons_eq_some_iff]
    constructor
    · rintro ⟨step, v, r, hs, hv, hr, rfl⟩
      obtain rfl := Option.some.inj hr
      exact ⟨[], u, step, v, rfl, rfl, hs, hv, rfl⟩
    · rintro ⟨r, w, step, v, hr, hw, hs, hv, rfl⟩
      obtain rfl := Option.some.inj hr
      obtain rfl := Option.some.inj hw
      exact ⟨step, v, [], hs, hv, rfl, rfl⟩
  | cons t p ih =>
    simp only [List.cons_append, route?_cons_eq_some_iff, ih]
    constructor
    · rintro ⟨first, x, _, hfirst, hx, ⟨r, w, step, v, hr, hw, hs, hv, rfl⟩, rfl⟩
      refine ⟨first :: r, w, step, v, ⟨first, x, r, hfirst, hx, hr, rfl⟩, ?_, hs, hv, rfl⟩
      rw [Json.get?, hx]
      exact hw
    · rintro ⟨_, w, step, v, ⟨first, x, r, hfirst, hx, hr, rfl⟩, hw, hs, hv, rfl⟩
      rw [Json.get?, hx] at hw
      exact ⟨first, x, r ++ [step], hfirst, hx, ⟨r, w, step, v, hr, hw, hs, hv, rfl⟩, rfl⟩

theorem leadsTo_iff_route : LeadsTo s u q ↔
    ∃ p, tokens s = .ok p ∧ route? p u = some q ∧ ∃ v, u.get? q = some v := by
  rw [LeadsTo, target?_eq_some_iff]
  constructor
  · rintro ⟨⟨ht, rfl⟩ | ⟨front, last, r, w, step, ht, hr, hw, hs, rfl⟩, v, hv⟩
    · exact ⟨[], ht, rfl, v, hv⟩
    · have hstep := hv
      rw [Json.get?_append_singleton, hw] at hstep
      exact ⟨_, ht, route?_append_singleton_eq_some_iff.2 ⟨r, w, step, v, hr, hw, hs, hstep, rfl⟩,
        v, hv⟩
  · rintro ⟨p, ht, hroute, hv⟩
    refine ⟨?_, hv⟩
    rcases p.eq_nil_or_concat' with rfl | ⟨front, last, rfl⟩
    · exact Or.inl ⟨ht, (Option.some.inj hroute).symm⟩
    · obtain ⟨r, w, step, v, hr, hw, hs, -, rfl⟩ := route?_append_singleton_eq_some_iff.1 hroute
      exact Or.inr ⟨front, last, r, w, step, ht, hr, hw, hs, rfl⟩

/-- A text leads to a place iff its segments spell the steps of the place one by one. -/
theorem leadsTo_iff (h : u.get? q = some v) : LeadsTo s u q ↔
    ∃ segs, List.Forall₂ Step.SpelledBy q segs ∧ s = Pointer.spelled segs := by
  rw [leadsTo_iff_route]
  simp only [route?_iff h, tokens_eq_ok_iff, Pointer.tokens?_eq_some_iff,
    Step.forall₂_spelledBy_iff]
  constructor
  · rintro ⟨_, ⟨segs, hsegs, rfl, rfl⟩, hq, -⟩
    exact ⟨segs, ⟨hsegs, hq⟩, rfl⟩
  · rintro ⟨segs, ⟨hsegs, hq⟩, rfl⟩
    exact ⟨_, ⟨segs, hsegs, rfl, rfl⟩, hq, v, h⟩

/-! ## Strict texts -/

/-- The tokens that are read in arrays are those that spell the items on the way. -/
theorem forall_plain_iff (h : u.get? q = some v) (hq : List.Forall₂ Step.ReadFrom q p) :
    (∀ front token rest items, p = front ++ token :: rest → at? front u = .ok (.array items) →
        Json.Plain token) ↔
      List.Forall₂ (fun step token => ∀ i, step = .item i → Json.Plain token) q p := by
  induction hq generalizing u with
  | nil => simp
  | @cons step token q p hstep hq ih =>
    obtain ⟨w, hw, hv⟩ := Option.bind_eq_some_iff.1 h
    have hchild : child token u = .ok w :=
      child_eq_ok_iff_step.2 ⟨step, (stepOf?_iff hw).2 hstep, hw⟩
    rw [List.forall₂_cons, ← ih hv]
    constructor
    · refine fun hplain => ⟨?_, fun front token' rest items hp hitems =>
        hplain (token :: front) token' rest items (by rw [hp]; rfl) ?_⟩
      · rintro i rfl
        cases u with
        | array items => exact hplain [] token p items rfl rfl
        | _ => cases hw
      · rw [at?, hchild]
        exact hitems
    · rintro ⟨hfirst, hrest⟩ front token' rest items hp hitems
      rcases front with - | ⟨first, front⟩
      · obtain ⟨rfl, rfl⟩ := List.cons.inj hp
        obtain rfl := Except.ok.inj hitems
        cases step with
        | member key => cases hw
        | item i => exact hfirst i rfl
      · obtain ⟨rfl, rfl⟩ := List.cons.inj hp
        rw [at?, hchild] at hitems
        exact hrest front token' rest items rfl hitems

/-- The strict segments of a place are the escaped tokens of its steps. -/
theorem strict_segments_iff {segs : List (List Char)} (h : List.Forall₂ Step.SpelledBy q segs) :
    (∀ seg ∈ segs, Pointer.Escaped seg) ∧
        List.Forall₂ (fun step seg => ∀ i, step = .item i → Json.Plain (Pointer.token seg)) q segs ↔
      segs = q.map fun step => Pointer.escape step.token.toList := by
  induction h with
  | nil => simp
  | @cons step seg q segs hstep hq ih =>
    rw [List.forall_mem_cons, List.forall₂_cons, List.map_cons, List.cons.injEq, ← ih,
      ← Step.spelledBy_strict_iff hstep]
    tauto

theorem text_eq_spelled (q : Place) :
    q.text = Pointer.spelled (q.map fun step => Pointer.escape step.token.toList) := by
  rw [Place.text, Pointer.text_eq_spelled, List.map_map]
  rfl

/-- Of the texts that lead to a place one is strict. -/
theorem strict_iff (h : LeadsTo s u q) : Strict s u ↔ s = q.text := by
  obtain ⟨v, hv⟩ := h.2
  obtain ⟨segs, hsegs, rfl⟩ := (leadsTo_iff hv).1 h
  obtain ⟨hslash, hread⟩ := Step.forall₂_spelledBy_iff.1 hsegs
  have htokens : tokens (Pointer.spelled segs) = .ok (segs.map Pointer.token) :=
    tokens_eq_ok_iff.2 (Pointer.tokens?_eq_some_iff.2 ⟨segs, hslash, rfl, rfl⟩)
  have hescapes : (∀ seg ∈ Pointer.segments (Pointer.spelled segs).toList, Pointer.Escaped seg) ↔
      ∀ seg ∈ segs, Pointer.Escaped seg := by
    rw [Pointer.segments_spelled hslash, List.forall_mem_cons]
    exact and_iff_right Pointer.escaped_nil
  have hindexes := forall_plain_iff hv hread
  rw [List.forall₂_map_right_iff] at hindexes
  rw [text_eq_spelled, Pointer.spelled_inj hslash (by simp [Pointer.slash_notMem_escape]),
    ← strict_segments_iff hsegs, ← hescapes, ← hindexes]
  constructor
  · rintro ⟨hesc, hidx⟩
    exact ⟨hesc, fun front token rest items hp => hidx front token rest items (by rw [htokens, hp])⟩
  · rintro ⟨hesc, hidx⟩
    refine ⟨hesc, fun front token rest items hp => hidx front token rest items ?_⟩
    rw [htokens] at hp
    exact Except.ok.inj hp

theorem forall₂_spelledBy_escape {segs : List (List Char)}
    (h : List.Forall₂ Step.SpelledBy q segs) :
    List.Forall₂ Step.SpelledBy q (q.map fun step => Pointer.escape step.token.toList) := by
  induction h with
  | nil => exact .nil
  | cons hstep _ ih => exact .cons (Step.spelledBy_escape (Step.readFrom_token hstep.2)) ih

/-- The strict text of a place leads there when any text does. -/
theorem leadsTo_text (h : LeadsTo s u q) : LeadsTo q.text u q := by
  obtain ⟨v, hv⟩ := h.2
  obtain ⟨segs, hsegs, -⟩ := (leadsTo_iff hv).1 h
  exact (leadsTo_iff hv).2 ⟨_, forall₂_spelledBy_escape hsegs, text_eq_spelled q⟩

/-! ## Places with one text -/

/-- Segments are the only ones that spell their steps iff each step is spelled in one way. -/
theorem segments_unique_iff {segs : List (List Char)} (h : List.Forall₂ Step.SpelledBy q segs) :
    (∀ segs', List.Forall₂ Step.SpelledBy q segs' → segs' = segs) ↔
      ∀ step ∈ q, ∃ key, step = .member key ∧ Pointer.Escaped key.toList := by
  induction h with
  | nil => simp
  | @cons step seg q segs hstep hq ih =>
    rw [List.forall_mem_cons, ← ih, ← Step.spelledBy_unique_iff hstep]
    constructor
    · refine fun hunique => ⟨fun a b ha hb => ?_, fun segs' hsegs' => ?_⟩
      · have hsame := (hunique _ (.cons ha hq)).trans (hunique _ (.cons hb hq)).symm
        exact (List.cons.inj hsame).1
      · exact (List.cons.inj (hunique _ (.cons hstep hsegs'))).2
    · rintro ⟨hfirst, hrest⟩ segs' hsegs'
      obtain ⟨seg', rest, hseg', hrest', rfl⟩ := List.forall₂_cons_left_iff.1 hsegs'
      rw [hfirst seg' seg hseg' hstep, hrest rest hrest']

/-- A place has no second text iff it goes through no array, and each `~` in its keys looks like
    the start of an escape. -/
theorem text_unique_iff (h : LeadsTo s u q) : (∀ t, LeadsTo t u q → t = s) ↔
    ∀ step ∈ q, ∃ key, step = .member key ∧ Pointer.Escaped key.toList := by
  obtain ⟨v, hv⟩ := h.2
  obtain ⟨segs, hsegs, rfl⟩ := (leadsTo_iff hv).1 h
  rw [← segments_unique_iff hsegs]
  constructor
  · intro hunique segs' hsegs'
    refine (Pointer.spelled_inj ?_ ?_).1 (hunique _ ((leadsTo_iff hv).2 ⟨segs', hsegs', rfl⟩))
    · exact (Step.forall₂_spelledBy_iff.1 hsegs').1
    · exact (Step.forall₂_spelledBy_iff.1 hsegs).1
  · intro hunique t ht
    obtain ⟨segs', hsegs', rfl⟩ := (leadsTo_iff hv).1 ht
    rw [hunique segs' hsegs']

/-- A look at a text reads the place that it leads to.  Each place that a text leads to has one
    strict text, so two strict texts lead to different places.  There are other texts: a place
    has only one iff it goes through no array, and each `~` in its keys looks like the start of
    an escape. -/
theorem paths_to_places (u : Json) :
    (∀ s v, lookup s u = .ok v ↔ ∃ q, LeadsTo s u q ∧ u.get? q = some v) ∧
    (∀ s q, LeadsTo s u q → LeadsTo q.text u q ∧ (Strict s u ↔ s = q.text)) ∧
    (∀ s t p q, LeadsTo s u p → LeadsTo t u q → Strict s u → Strict t u → s ≠ t → p ≠ q) ∧
    ∀ s q, LeadsTo s u q → ((∀ t, LeadsTo t u q → t = s) ↔
      ∀ step ∈ q, ∃ key, step = .member key ∧ Pointer.Escaped key.toList) := by
  refine ⟨fun s v => ?_, fun s q h => ⟨leadsTo_text h, strict_iff h⟩, ?_,
    fun s q h => text_unique_iff h⟩
  · rw [lookup_eq_ok_iff_target]
    constructor
    · rintro ⟨q, hq, hv⟩
      exact ⟨q, ⟨hq, v, hv⟩, hv⟩
    · rintro ⟨q, hq, hv⟩
      exact ⟨q, hq.1, hv⟩
  · rintro s t p q hp hq hs ht hne rfl
    exact hne (((strict_iff hp).1 hs).trans ((strict_iff hq).1 ht).symm)

/-- An array under a key that is a `~`. -/
def loose : Json :=
  .object [("~", .array [.null])]

/-- Its item has a text with a stray `~` and a sign beside its strict one. -/
theorem loose_item : "/~0/0" ≠ "/~/+0" ∧
    lookup "/~0/0" loose = .ok .null ∧ lookup "/~/+0" loose = .ok .null ∧
    LeadsTo "/~0/0" loose [.member "~", .item 0] ∧
    LeadsTo "/~/+0" loose [.member "~", .item 0] := by
  have hstrict : LeadsTo "/~0/0" loose [.member "~", .item 0] := ⟨by decide, .null, rfl⟩
  have hstray : LeadsTo "/~/+0" loose [.member "~", .item 0] := ⟨by decide, .null, rfl⟩
  refine ⟨by decide, ?_, ?_, hstrict, hstray⟩
  · exact lookup_eq_ok_iff_target.2 ⟨_, hstrict.1, rfl⟩
  · exact lookup_eq_ok_iff_target.2 ⟨_, hstray.1, rfl⟩

end Patch

end ImportBinding

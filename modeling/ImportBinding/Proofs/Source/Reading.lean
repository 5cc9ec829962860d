/-
  ImportBinding — reading generated text.

  Generated text is fixed but for the identifiers in it, and what stands around an identifier
  starts with a character that no identifier has.

  * `after?`, `word?` and `between?` read an identifier with fixed text around it, `listed?`
    a list of them;
  * `after_append`, `word_append` and `listed_append`: what was written is read again;
  * `Apart`: what does not start with a text is told by a place where both differ.
-/
import ImportBinding.Identifier

namespace ImportBinding.Source

/-! ## Texts -/

/-- What follows `before` in a text. -/
def after? (before text : String) : Option String :=
  if before.toList <+: text.toList then some (.ofList (text.toList.drop before.toList.length))
  else none

/-- Whether a character may stand in a spelled identifier. -/
def isSpelled (c : Char) : Bool :=
  Identifier.isPart c || c == '#'

/-- The identifier that a text starts with. -/
def leading (text : String) : String :=
  .ofList (text.toList.takeWhile isSpelled)

/-- The identifier in front of `close` in a text, and what follows `close`. -/
def word? (close text : String) : Option (String × String) := do
  let rest ← after? close (.ofList (text.toList.dropWhile isSpelled))
  return (leading text, rest)

/-- The identifier that is a text but for what is around it. -/
def between? (before close text : String) : Option String := do
  let (word, rest) ← word? close (← after? before text)
  if rest = "" then some word else none

/-- The identifiers of a list that is closed by `close`.  Its items are parted by commas, and
    each is an identifier between `before` and `after`. -/
def listed? (before after close text : String) : Option (List String) :=
  let inner := text.toList.takeWhile (· != ']')
  if text.toList.dropWhile (· != ']') = close.toList then
    if inner = [] then some []
    else
      ((' ' :: inner).splitOn ',').mapM fun item => between? (" " ++ before) after (.ofList item)
  else none

/-! ## What was written is read -/

theorem after_append (before rest : String) : after? before (before ++ rest) = some rest := by
  rw [after?, String.toList_append, if_pos (List.prefix_append _ _), List.drop_left,
    String.ofList_toList]

theorem after_self (before : String) : after? before before = some "" := by
  have h := after_append before ""
  rwa [String.append_empty] at h

/-- Whether two texts differ at a place that both have. -/
def Apart (before start : String) : Prop :=
  ¬ before.toList <+: start.toList ∧ ¬ start.toList <+: before.toList

instance (before start : String) : Decidable (Apart before start) :=
  inferInstanceAs (Decidable (_ ∧ _))

/-- A text that starts apart from `before` does not start with it. -/
theorem after_eq_none {before start : String} (h : Apart before start) (rest : String) :
    after? before (start ++ rest) = none := by
  rw [after?, if_neg]
  rw [String.toList_append]
  intro hp
  rcases List.prefix_or_prefix_of_prefix hp (List.prefix_append start.toList rest.toList) with
    hb | hs
  · exact h.1 hb
  · exact h.2 hs

/-- A text of characters that may stand in a spelled identifier. -/
def Spelled (word : String) : Prop :=
  ∀ c ∈ word.toList, isSpelled c

instance (word : String) : Decidable (Spelled word) :=
  List.decidableBAll (fun c => isSpelled c) word.toList

/-- A text that starts with a character that no spelled identifier has. -/
def Closes (close : String) : Prop :=
  ∃ c ∈ close.toList.head?, isSpelled c = false

instance (close : String) : Decidable (Closes close) :=
  Option.decidableExistsMem close.toList.head?

theorem exists_cons_of_closes {close : String} (hc : Closes close) (rest : String) :
    ∃ c tail, isSpelled c = false ∧ (close ++ rest).toList = c :: tail := by
  obtain ⟨c, hhead, hstop⟩ := hc
  obtain ⟨tail, htail⟩ := List.head?_eq_some_iff.1 hhead
  refine ⟨c, tail ++ rest.toList, hstop, ?_⟩
  rw [String.toList_append, htail, List.cons_append]

/-- An identifier is read up to what closes it. -/
theorem leading_append {word close : String} (hw : Spelled word) (hc : Closes close)
    (rest : String) : leading (word ++ (close ++ rest)) = word := by
  obtain ⟨c, tail, hstop, hclose⟩ := exists_cons_of_closes hc rest
  rw [leading, String.toList_append, List.takeWhile_append_of_pos hw, hclose,
    List.takeWhile_cons_of_neg (by simp [hstop]), List.append_nil, String.ofList_toList]

theorem word_append {word close : String} (hw : Spelled word) (hc : Closes close)
    (rest : String) : word? close (word ++ (close ++ rest)) = some (word, rest) := by
  obtain ⟨c, tail, hstop, hclose⟩ := exists_cons_of_closes hc rest
  have hdrop : (word ++ (close ++ rest)).toList.dropWhile isSpelled = (close ++ rest).toList := by
    rw [String.toList_append, List.dropWhile_append_of_pos hw, hclose,
      List.dropWhile_cons_of_neg (by simp [hstop])]
  rw [word?, leading_append hw hc, hdrop, String.ofList_toList, after_append]
  rfl

theorem between_append {before word close : String} (hw : Spelled word) (hc : Closes close) :
    between? before close (before ++ (word ++ close)) = some word := by
  have hword := word_append hw hc ""
  rw [String.append_empty] at hword
  rw [between?, after_append]
  simp only [bind, Option.bind_some, hword]
  rfl

theorem between_empty {word close : String} (hw : Spelled word) (hc : Closes close) :
    between? "" close (word ++ close) = some word := by
  have h := @between_append "" word close hw hc
  rwa [String.empty_append] at h

/-! ## Lists -/

section
variable {before after : String}

/-- The text of the items of a list. -/
def listing (before after : String) (words : List String) : String :=
  ", ".intercalate (words.map fun word => before ++ word ++ after)

theorem listing_cons_cons (w w' : String) (words : List String) :
    listing before after (w :: w' :: words) =
      before ++ w ++ after ++ ", " ++ listing before after (w' :: words) :=
  String.intercalate_cons_cons

/-- The items of a list are parted by commas, once the first has a blank in front too. -/
theorem blank_listing (w : String) (words : List String) :
    ' ' :: (listing before after (w :: words)).toList =
      [','].intercalate ((w :: words).map fun word => ' ' :: (before ++ word ++ after).toList) := by
  induction words generalizing w with
  | nil => simp [listing]
  | cons w' words ih =>
    have hrest := ih w'
    rw [List.map_cons] at hrest
    rw [listing_cons_cons, List.map_cons, List.map_cons, List.intercalate_cons_cons, ← hrest]
    simp

theorem listing_ne_nil (h : Closes after) (w : String) (words : List String) :
    (listing before after (w :: words)).toList ≠ [] := by
  obtain ⟨c, hhead, -⟩ := h
  have hne : after ≠ "" := by
    rintro rfl
    cases hhead
  cases words with
  | nil => simp [listing, hne]
  | cons w' words => simp [listing_cons_cons]

/-- What stands nowhere in the items, nor between them, does not stand in a list. -/
theorem not_mem_listing {c : Char} (hc : c ∉ ", ".toList) (hb : c ∉ before.toList)
    (ha : c ∉ after.toList) {words : List String} (hw : ∀ word ∈ words, c ∉ word.toList) :
    c ∉ (listing before after words).toList := by
  match words with
  | [] => simp [listing]
  | [w] => simp_all [listing]
  | w :: w' :: words =>
    have ih := not_mem_listing hc hb ha fun word hm => hw word (List.mem_cons_of_mem w hm)
    have hhead := hw w List.mem_cons_self
    rw [listing_cons_cons]
    simp only [String.toList_append, List.mem_append, not_or]
    exact ⟨⟨⟨⟨hb, hhead⟩, ha⟩, hc⟩, ih⟩

theorem mapM_read {f : String → List Char} {g : List Char → Option String} {words : List String}
    (h : ∀ w ∈ words, g (f w) = some w) : (words.map f).mapM g = some words := by
  induction words with
  | nil => rfl
  | cons w words ih =>
    rw [List.map_cons, List.mapM_cons, h w List.mem_cons_self,
      ih fun w' hm => h w' (List.mem_cons_of_mem w hm)]
    rfl

/-- The items of a list are read up to what closes it. -/
theorem listed_append {close : String} (hclose : close.toList.head? = some ']')
    (hb : ',' ∉ before.toList ∧ ']' ∉ before.toList)
    (ha : ',' ∉ after.toList ∧ ']' ∉ after.toList) (hafter : Closes after)
    {words : List String} (hw : ∀ word ∈ words, Spelled word) :
    listed? before after close (listing before after words ++ close) = some words := by
  have hspelled : ∀ {c : Char}, isSpelled c = false → ∀ word ∈ words, c ∉ word.toList :=
    fun hc word hm hmem => by simp [hw word hm _ hmem] at hc
  have hbracket : ∀ c ∈ (listing before after words).toList, (c != ']') = true := by
    intro c hmem
    have hnot := not_mem_listing (by decide) hb.2 ha.2 (hspelled (c := ']') (by decide))
    simp only [bne_iff_ne, ne_eq]
    rintro rfl
    exact hnot hmem
  obtain ⟨tail, htail⟩ := List.head?_eq_some_iff.1 hclose
  rw [listed?, String.toList_append, List.takeWhile_append_of_pos hbracket,
    List.dropWhile_append_of_pos hbracket, htail, List.takeWhile_cons_of_neg (by decide),
    List.dropWhile_cons_of_neg (by decide), List.append_nil]
  simp only [if_true]
  cases words with
  | nil => rfl
  | cons w words =>
    have hitems : ∀ item ∈ (w :: words).map fun word => ' ' :: (before ++ word ++ after).toList,
        ',' ∉ item := by
      intro item hitem
      obtain ⟨word, hword, rfl⟩ := List.mem_map.1 hitem
      simp [hb.1, ha.1, hspelled (c := ',') (by decide) word hword]
    rw [if_neg (listing_ne_nil hafter w words), blank_listing,
      List.splitOn_intercalate ',' hitems (by simp)]
    refine mapM_read fun word hword => ?_
    have hitem : String.ofList (' ' :: (before ++ word ++ after).toList) =
        " " ++ before ++ (word ++ after) := by
      apply String.toList_inj.1
      simp
    rw [hitem, between_append (hw word hword) hafter]

end

end ImportBinding.Source

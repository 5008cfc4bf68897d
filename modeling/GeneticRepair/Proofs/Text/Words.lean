import GeneticRepair.Text.Blank

/-!
# `Proofs/Text/Words.lean` — words and the blanks between them

A word is a text without blanks that is not empty. What a text is made of is said here without
splitting it: `Spaced ws s` builds the text `s` from its words and blanks, with at least one blank
between any two words. Splitting finds exactly these words (`tokens_eq_iff`), so a text has one list
of them, and words that are joined by blanks are found again. A join is cut at a word by `lead` and
`trail`, and it is the shortest text of its words (`Spaced.size_le`).
-/

set_option autoImplicit false

namespace GeneticRepair.Text

/-- A text without blanks that is not empty. -/
def IsWord (w : String) : Prop := w ≠ "" ∧ ∀ c ∈ w.toList, isBlank c = false

/-- The text consists of the words in order, with blanks between any two of them and perhaps at both
ends. -/
inductive Spaced : List String → String → Prop
  | nil : Spaced [] ""
  | blank {c : Char} {ws : List String} {s : String} :
    isBlank c = true → Spaced ws s → Spaced ws (String.singleton c ++ s)
  /-- A word that nothing follows. -/
  | last {w : String} : IsWord w → Spaced [w] w
  /-- A word and the blank that ends it. -/
  | word {w : String} {c : Char} {ws : List String} {s : String} :
    IsWord w → isBlank c = true → Spaced ws s → Spaced (w :: ws) (w ++ (String.singleton c ++ s))

variable {ws : List String} {s : String}

theorem Spaced.isWord (h : Spaced ws s) : ∀ w ∈ ws, IsWord w := by
  induction h with
  | nil => simp
  | blank _ _ ih => exact ih
  | last hw => simpa using hw
  | word hw _ _ ih => exact List.forall_mem_cons.mpr ⟨hw, ih⟩

/-! ## Splitting -/

theorem isWord_reverse {word : List Char} (hne : word ≠ [])
    (h : ∀ c ∈ word, isBlank c = false) : IsWord (String.ofList word.reverse) := by
  constructor
  · simpa using hne
  · simpa using h

/-- What is read of a word, in reverse, and what is still to read consist of the words that are
found. -/
theorem spaced_splitBlank (word : List Char) (h : ∀ c ∈ word, isBlank c = false)
    (cs : List Char) :
    Spaced ((splitBlank word cs).map String.ofList) (String.ofList (word.reverse ++ cs)) := by
  induction cs generalizing word with
  | nil =>
    by_cases hword : word = []
    · simpa [splitBlank, hword] using Spaced.nil
    · have hlast := Spaced.last (isWord_reverse hword h)
      simpa [splitBlank, hword] using hlast
  | cons c cs ih =>
    by_cases hc : isBlank c = true
    · have hrest := ih [] (by simp)
      by_cases hword : word = []
      · simpa [splitBlank, hc, hword] using Spaced.blank hc hrest
      · have hnext := Spaced.word (isWord_reverse hword h) hc hrest
        simpa [splitBlank, hc, hword] using hnext
    · have hlonger : ∀ d ∈ c :: word, isBlank d = false :=
        List.forall_mem_cons.mpr ⟨by simpa using hc, h⟩
      simpa [splitBlank, hc] using ih (c :: word) hlonger

/-- The characters of a word are read one by one. -/
theorem splitBlank_append {w : List Char} (h : ∀ c ∈ w, isBlank c = false)
    (word cs : List Char) : splitBlank word (w ++ cs) = splitBlank (w.reverse ++ word) cs := by
  induction w generalizing word with
  | nil => rfl
  | cons c w ih =>
    obtain ⟨hc, hw⟩ := List.forall_mem_cons.mp h
    simp [splitBlank, hc, ih hw]

theorem Spaced.splitBlank_eq (h : Spaced ws s) :
    splitBlank [] s.toList = ws.map String.toList := by
  induction h with
  | nil => rfl
  | blank hc _ ih => simp [splitBlank, hc, ih]
  | last hw =>
    have hread := splitBlank_append hw.2 [] []
    have hne := hw.1
    simpa [splitBlank, hne] using hread
  | @word w c ws s hw hc _ ih =>
    have hread := splitBlank_append hw.2 [] (c :: s.toList)
    have hne := hw.1
    simpa [splitBlank, hne, hc, ih] using hread

/-- Splitting a text finds the words that it consists of. -/
theorem tokens_eq_iff : tokens s = ws ↔ Spaced ws s := by
  constructor
  · rintro rfl
    simpa [tokens] using spaced_splitBlank [] (by simp) s.toList
  · intro h
    simp [tokens, h.splitBlank_eq, Function.comp_def]

theorem spaced_tokens (s : String) : Spaced (tokens s) s := tokens_eq_iff.mp rfl

/-- A text consists of one list of words. -/
theorem Spaced.unique {ws' : List String} (h : Spaced ws s) (h' : Spaced ws' s) : ws = ws' :=
  (tokens_eq_iff.mpr h).symm.trans (tokens_eq_iff.mpr h')

/-! ## Joining -/

/-- One more word makes a join longer by itself and a blank. -/
theorem size_intercalate_cons (hws : ws ≠ []) (w : String) :
    (" ".intercalate (w :: ws)).utf8ByteSize =
      w.utf8ByteSize + 1 + (" ".intercalate ws).utf8ByteSize := by
  rw [String.intercalate_cons_of_ne_nil hws, String.utf8ByteSize_append,
    String.utf8ByteSize_append]
  rfl

theorem Spaced.space (h : Spaced ws s) : Spaced ws (" " ++ s) := Spaced.blank (c := ' ') rfl h

theorem Spaced.word_space {w : String} (hw : IsWord w) (h : Spaced ws s) :
    Spaced (w :: ws) (w ++ (" " ++ s)) := Spaced.word (c := ' ') hw rfl h

/-- Words that are joined by blanks are the words of the join. -/
theorem spaced_intercalate (h : ∀ w ∈ ws, IsWord w) : Spaced ws (" ".intercalate ws) := by
  induction ws with
  | nil => simpa using Spaced.nil
  | cons w ws ih =>
    obtain ⟨hw, hrest⟩ := List.forall_mem_cons.mp h
    by_cases hws : ws = []
    · simpa [hws] using Spaced.last hw
    · rw [String.intercalate_cons_of_ne_nil hws, String.append_assoc]
      exact (ih hrest).word_space hw

/-- No text of some words is shorter than their join. -/
theorem Spaced.size_le (h : Spaced ws s) :
    (" ".intercalate ws).utf8ByteSize ≤ s.utf8ByteSize := by
  induction h with
  | nil => simp
  | @blank c ws s _ _ ih =>
    rw [String.utf8ByteSize_append]
    omega
  | last => simp
  | @word w c ws s _ _ _ ih =>
    have hc := c.utf8Size_pos
    by_cases hws : ws = []
    · simp [hws]
    · rw [size_intercalate_cons hws, String.utf8ByteSize_append, String.utf8ByteSize_append,
        String.utf8ByteSize_singleton]
      omega

/-- The words with a blank behind each. -/
def lead : List String → String
  | [] => ""
  | w :: ws => w ++ " " ++ lead ws

/-- The words with a blank before each. -/
def trail : List String → String
  | [] => ""
  | w :: ws => " " ++ w ++ trail ws

theorem spaced_lead (h : ∀ w ∈ ws, IsWord w) : Spaced ws (lead ws) := by
  induction ws with
  | nil => exact Spaced.nil
  | cons w ws ih =>
    obtain ⟨hw, hrest⟩ := List.forall_mem_cons.mp h
    rw [lead, String.append_assoc]
    exact (ih hrest).word_space hw

theorem intercalate_cons_eq (w : String) (ws : List String) :
    " ".intercalate (w :: ws) = w ++ trail ws := by
  induction ws generalizing w with
  | nil => simp [trail]
  | cons w' ws ih =>
    rw [String.intercalate_cons_cons, ih, trail]
    simp only [String.append_assoc]

theorem spaced_trail (h : ∀ w ∈ ws, IsWord w) : Spaced ws (trail ws) := by
  cases ws with
  | nil => exact Spaced.nil
  | cons w ws =>
    rw [trail, String.append_assoc, ← intercalate_cons_eq]
    exact (spaced_intercalate h).space

/-- A join, cut at one of its words. -/
theorem intercalate_append_cons (before : List String) (w : String) (after : List String) :
    " ".intercalate (before ++ w :: after) = lead before ++ w ++ trail after := by
  induction before with
  | nil => rw [List.nil_append, intercalate_cons_eq, lead, String.empty_append]
  | cons v before ih =>
    rw [List.cons_append, String.intercalate_cons_of_ne_nil (by simp), ih, lead]
    simp only [String.append_assoc]

end GeneticRepair.Text

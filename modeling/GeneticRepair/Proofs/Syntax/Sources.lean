import GeneticRepair.Numeric.Rational
import GeneticRepair.Proofs.Text.Words
import GeneticRepair.Syntax.Content
import GeneticRepair.Syntax.Draft

/-!
# `Proofs/Syntax/Sources.lean` — source texts

The source text of a node is written behind what is there, and whether a blank is due is read off
what is there. That tells the first token from the later ones as long as something is written with
the first one: behind a text that is not empty, tokens are joined by blanks (`foldl_appendToken_of_ne`).
As long as nothing has been written, empty tokens leave no trace (`foldl_appendToken`). So the source
text is that of the tokens without the empty ones in front, and it is the join of all tokens exactly
if a token that is empty and comes first is the only one (`source_joined_iff`).
-/

set_option autoImplicit false

namespace GeneticRepair.Node

/-- Behind a text tokens are joined by blanks. -/
theorem foldl_appendToken_of_ne {out : String} (hout : out ≠ "") (ts : List String) :
    ts.foldl appendToken out = " ".intercalate (out :: ts) := by
  induction ts generalizing out with
  | nil => simp
  | cons t ts ih =>
    have hstep : appendToken out t = out ++ " " ++ t := by simp [appendToken, hout]
    have hne : out ++ " " ++ t ≠ "" := by simp [hout]
    rw [List.foldl_cons, hstep, ih hne, String.intercalate_cons_append,
      String.intercalate_cons_cons]

/-- From the start, tokens are joined by blanks from the first one on that is not empty. -/
theorem foldl_appendToken (ts : List String) :
    ts.foldl appendToken "" = " ".intercalate (ts.dropWhile String.isEmpty) := by
  induction ts with
  | nil => simp
  | cons t ts ih =>
    rw [List.foldl_cons]
    by_cases ht : t = ""
    · subst ht
      rw [List.dropWhile_cons_of_pos rfl]
      exact ih
    · rw [List.dropWhile_cons_of_neg (by simpa using ht)]
      exact foldl_appendToken_of_ne ht ts

/-- The tokens from the first one on that is not empty make the source text. -/
theorem source_eq_intercalate (n : Node) :
    n.source = " ".intercalate (n.tokens.dropWhile String.isEmpty) := by
  rw [source_eq, foldl_appendToken]

/-! ## The join of all tokens -/

theorem size_intercalate_dropWhile_le (ts : List String) :
    (" ".intercalate (ts.dropWhile String.isEmpty)).utf8ByteSize ≤
      (" ".intercalate ts).utf8ByteSize := by
  induction ts with
  | nil => simp
  | cons t ts ih =>
    by_cases ht : t.isEmpty
    · rw [List.dropWhile_cons_of_pos ht]
      by_cases hts : ts = []
      · simp [hts]
      · have hcons := Text.size_intercalate_cons hts t
        omega
    · exact Nat.le_of_eq (by rw [List.dropWhile_cons_of_neg ht])

/-- Leaving out the empty tokens in front makes a join shorter, unless there is only one token. -/
theorem intercalate_dropWhile_eq_iff (ts : List String) :
    " ".intercalate (ts.dropWhile String.isEmpty) = " ".intercalate ts ↔
      ∀ more, ts = "" :: more → more = [] := by
  cases ts with
  | nil => simp
  | cons t ts =>
    by_cases ht : t = ""
    · subst ht
      rw [List.dropWhile_cons_of_pos rfl]
      constructor
      · intro h more hmore
        obtain rfl : ts = more := (List.cons.inj hmore).2
        by_cases hts : ts = []
        · exact hts
        · have hle := size_intercalate_dropWhile_le ts
          rw [h, Text.size_intercalate_cons hts] at hle
          omega
      · intro h
        obtain rfl := h ts rfl
        simp
    · rw [List.dropWhile_cons_of_neg (by simpa using ht)]
      have hfirst : ∀ more, t :: ts = "" :: more → more = [] :=
        fun more hmore => absurd (List.cons.inj hmore).1 ht
      exact ⟨fun _ => hfirst, fun _ => rfl⟩

/-- Words that are tokens of a node are joined by blanks. -/
theorem source_of_words {n : Node} (h : ∀ t ∈ n.tokens, Text.IsWord t) :
    n.source = " ".intercalate n.tokens := by
  rw [source_eq_intercalate, intercalate_dropWhile_eq_iff]
  intro more hmore
  have hword := h "" (by simp [hmore])
  exact absurd rfl hword.1

/-- The source text of a node is the join of its tokens exactly if an empty token that comes first
is the only one. In any case it is the join of the tokens without the empty ones in front. -/
theorem source_joined_iff (n : Node) :
    (n.source = " ".intercalate n.tokens ↔ ∀ more, n.tokens = "" :: more → more = []) ∧
      n.source = " ".intercalate (n.tokens.dropWhile String.isEmpty) := by
  refine ⟨?_, source_eq_intercalate n⟩
  rw [source_eq_intercalate]
  exact intercalate_dropWhile_eq_iff n.tokens

/-- A statement that begins with an empty token. -/
def faltering : Draft :=
  (Draft.ofKind .atomicStatement).withChildren [.token "" 1 1, .token "go" 1 2]

/-- The blank behind an empty first token is not written. -/
theorem not_source_joined :
    ¬ ∀ (d : Draft) (s : Store Rat),
      (d.build s).1.source = " ".intercalate (d.build s).1.tokens := by
  intro h
  have hwritten : (faltering.build (.empty : Store Rat)).1.source = "go" := by decide
  have htokens : (faltering.build (.empty : Store Rat)).1.tokens = ["", "go"] := by decide
  have hjoined := h faltering .empty
  rw [hwritten, htokens] at hjoined
  exact absurd hjoined (by decide)

end GeneticRepair.Node

import GeneticRepair.Numeric.Rational
import GeneticRepair.Proofs.Syntax.Building
import GeneticRepair.Proofs.Syntax.Contents
import GeneticRepair.Proofs.Syntax.Sources

/-!
# `Proofs/Syntax/Reading.lean` — statements read from a text

A statement that is read from a text has the words of the text as its tokens, all on one line, and
the column of each is the byte at which it begins in the source text of the statement
(`Node.Reads`). The source text has the same words as the text and is not longer, so it is read as
the same statement, and the running column goes no further than the text does. Two texts are read as
statements of one content exactly if they have the same words (`statement_read_back`).
-/

set_option autoImplicit false

namespace GeneticRepair

open Text (Spaced lead trail)

namespace Node

/-- A token with its place. -/
def lexeme? : Node → Option (String × Position)
  | .leaf _ text position => some (text, position)
  | .inner .. => none

/-- The tokens of a node in order, each with its place. -/
def lexemes (n : Node) : List (String × Position) := n.preorder.filterMap lexeme?

@[simp] theorem lexemes_leaf (id text position) :
    (leaf id text position).lexemes = [(text, position)] := rfl

@[simp] theorem lexemes_inner (id kind span children) :
    (inner id kind span children).lexemes = children.flatMap lexemes := by
  rw [lexemes, preorder_inner, List.filterMap_cons_none rfl, List.filterMap_flatMap]
  rfl

theorem tokens_eq_map_lexemes (n : Node) : n.tokens = n.lexemes.map Prod.fst := by
  rw [tokens, lexemes, List.map_filterMap]
  congr 1
  funext m
  cases m <;> rfl

theorem map_content_of_isLeaf {l : List Node} (h : ∀ c ∈ l, c.isLeaf = true) :
    l.map content = (l.flatMap tokens).map .token := by
  induction l with
  | nil => rfl
  | cons c l ih =>
    obtain ⟨hc, hrest⟩ := List.forall_mem_cons.mp h
    rw [List.map_cons, List.flatMap_cons, List.map_append, ih hrest]
    cases c with
    | leaf => rfl
    | inner => cases hc

/-- The content of a node whose children are tokens. -/
theorem content_of_isLeaf {n : Node} (hn : n.isLeaf = false)
    (h : ∀ c ∈ n.children, c.isLeaf = true) :
    n.content = .block n.kind (n.tokens.map .token) := by
  cases n with
  | leaf => cases hn
  | inner id kind span children =>
    rw [content_eq_of_inner rfl, tokens_inner]
    exact congrArg (Content.block kind) (map_content_of_isLeaf h)

/-- The node is a statement that has the words of a text as its tokens. Each of these stands on the
line, at the column that counts the bytes before it in the source text from one on; what comes
before it there and what comes after it consists of the words before and after it. -/
structure Reads (n : Node) (text : String) (line : Nat) : Prop where
  kind_eq : n.kind = .atomicStatement
  isLeaf : ∀ c ∈ n.children, c.isLeaf = true
  spaced : Spaced n.tokens text
  place : ∀ earlier t p later, n.lexemes = earlier ++ (t, p) :: later →
    ∃ before after, n.source = before ++ t ++ after ∧
      Spaced (earlier.map Prod.fst) before ∧ Spaced (later.map Prod.fst) after ∧
      p = ⟨line, 1 + before.utf8ByteSize⟩

namespace Reads

variable {n m : Node} {text text' : String} {line line' : Nat}

theorem spaced_source (h : n.Reads text line) : Spaced n.tokens n.source := by
  rw [source_of_words h.spaced.isWord]
  exact Text.spaced_intercalate h.spaced.isWord

/-- The column right behind a word is at most one more than there are bytes in the text. -/
theorem column_le (h : n.Reads text line) {t : String} {p : Position} (hmem : (t, p) ∈ n.lexemes) :
    p.column + t.utf8ByteSize ≤ text.utf8ByteSize + 1 := by
  obtain ⟨earlier, later, hsplit⟩ := List.append_of_mem hmem
  obtain ⟨before, after, hsource, -, -, rfl⟩ := h.place earlier t p later hsplit
  have hle := h.spaced.size_le
  rw [← source_of_words h.spaced.isWord, hsource, String.utf8ByteSize_append,
    String.utf8ByteSize_append] at hle
  change 1 + before.utf8ByteSize + t.utf8ByteSize ≤ _
  omega

theorem content_eq (h : n.Reads text line) :
    n.content = .block .atomicStatement (n.tokens.map .token) := by
  have hinner : n.isLeaf = false := by
    cases n with
    | leaf => cases h.kind_eq
    | inner => rfl
  rw [content_of_isLeaf hinner h.isLeaf, h.kind_eq]

/-- Statements have one content exactly if they are read from texts with the same words. -/
theorem content_eq_iff (h : n.Reads text line) (h' : m.Reads text' line') :
    n.content = m.content ↔ ∃ ws, Spaced ws text ∧ Spaced ws text' := by
  have hinj : Function.Injective (List.map Content.token) :=
    List.map_injective_iff.mpr fun _ _ => Content.token.inj
  rw [h.content_eq, h'.content_eq]
  constructor
  · intro heq
    have htokens : n.tokens = m.tokens := hinj (Content.block.inj heq).2
    exact ⟨n.tokens, h.spaced, htokens ▸ h'.spaced⟩
  · rintro ⟨ws, hws, hws'⟩
    rw [h.spaced.unique hws, h'.spaced.unique hws']

end Reads

end Node

namespace Draft

/-- The nodes are tokens with the given texts on one line. The first one stands at a column, and
each of the others one column behind the end of the one before. -/
inductive OnLine (line : Nat) : Nat → List String → List Node → Prop
  | nil {column : Nat} : OnLine line column [] []
  | cons {column : Nat} {id : NodeId} {t : String} {ts : List String} {nodes : List Node} :
    OnLine line (column + t.utf8ByteSize + 1) ts nodes →
    OnLine line column (t :: ts) (.leaf id t ⟨line, column⟩ :: nodes)

namespace OnLine

variable {line column : Nat} {ts : List String} {nodes nodes' : List Node}

theorem isLeaf (h : OnLine line column ts nodes) : ∀ c ∈ nodes, c.isLeaf = true := by
  induction h with
  | nil => simp
  | cons _ ih => exact List.forall_mem_cons.mpr ⟨rfl, ih⟩

theorem tokens_eq (h : OnLine line column ts nodes) : nodes.flatMap Node.tokens = ts := by
  induction h with
  | nil => rfl
  | cons _ ih => rw [List.flatMap_cons, ih, Node.tokens_leaf, List.singleton_append]

/-- Texts and places do not depend on the identities of the nodes. -/
theorem lexemes_eq (h : OnLine line column ts nodes) (h' : OnLine line column ts nodes') :
    nodes.flatMap Node.lexemes = nodes'.flatMap Node.lexemes := by
  induction h generalizing nodes' with
  | nil =>
    cases h'
    rfl
  | cons _ ih =>
    cases h' with
    | cons hrest => simp [ih hrest]

/-- A token stands behind the tokens before it, each with a blank. -/
theorem place_eq (h : OnLine line column ts nodes) {earlier later : List (String × Position)}
    {t : String} {p : Position}
    (hsplit : nodes.flatMap Node.lexemes = earlier ++ (t, p) :: later) :
    p = ⟨line, column + (lead (earlier.map Prod.fst)).utf8ByteSize⟩ := by
  induction h generalizing earlier with
  | nil => simp at hsplit
  | @cons column id t₀ ts nodes _ ih =>
    rw [List.flatMap_cons, Node.lexemes_leaf, List.singleton_append] at hsplit
    cases earlier with
    | nil =>
      obtain ⟨hfirst, -⟩ := List.cons.inj hsplit
      exact (Prod.mk.inj hfirst).2.symm
    | cons x earlier =>
      obtain ⟨rfl, hrest⟩ := List.cons.inj hsplit
      rw [ih hrest, List.map_cons, lead, String.utf8ByteSize_append, String.utf8ByteSize_append]
      have hblank : (" " : String).utf8ByteSize = 1 := rfl
      rw [hblank]
      simp only [Nat.add_assoc]

end OnLine

variable {α : Type} [Scalar α]

theorem onLine_buildAll (line column : Nat) (ts : List String) (s : Store α) :
    OnLine line column ts (buildAll (tokensFrom line column ts) s).1 := by
  induction ts generalizing column s with
  | nil => exact .nil
  | cons t ts ih => exact .cons (ih _ _)

/-- A statement is built from its tokens. -/
theorem build_statement (text : String) (line : Nat) (s : Store α) :
    ∃ id nodes, ((statement text line).build s).1 = .make id .atomicStatement nodes ∧
      OnLine line 1 (Text.tokens text) nodes :=
  ⟨_, _, rfl, onLine_buildAll line 1 (Text.tokens text) s⟩

theorem reads_build (text : String) (line : Nat) (s : Store α) :
    ((statement text line).build s).1.Reads text line := by
  obtain ⟨id, nodes, hbuild, hline⟩ := build_statement text line s
  have htokens : (Node.make id .atomicStatement nodes).tokens = Text.tokens text := by
    rw [Node.make, Node.tokens_inner, hline.tokens_eq]
  have hspaced : Spaced (Node.make id .atomicStatement nodes).tokens text := by
    rw [htokens]
    exact Text.spaced_tokens text
  rw [hbuild]
  refine ⟨rfl, hline.isLeaf, hspaced, ?_⟩
  intro earlier t p later hsplit
  have hsource := Node.source_of_words hspaced.isWord
  have hwords := hspaced.isWord
  rw [Node.tokens_eq_map_lexemes, hsplit, List.map_append, List.map_cons] at hsource hwords
  obtain ⟨hearlier, hlater⟩ := List.forall_mem_append.mp hwords
  refine ⟨lead (earlier.map Prod.fst), trail (later.map Prod.fst), ?_, ?_, ?_, ?_⟩
  · rw [hsource, Text.intercalate_append_cons]
  · exact Text.spaced_lead hearlier
  · exact Text.spaced_trail (List.forall_mem_cons.mp hlater).2
  · rw [Node.make, Node.lexemes_inner] at hsplit
    exact hline.place_eq hsplit

theorem lexemes_statement (text : String) (line : Nat) (s s' : Store α) :
    ((statement text line).build s).1.lexemes = ((statement text line).build s').1.lexemes := by
  obtain ⟨id, nodes, hbuild, hline⟩ := build_statement text line s
  obtain ⟨id', nodes', hbuild', hline'⟩ := build_statement text line s'
  rw [hbuild, hbuild', Node.make, Node.make, Node.lexemes_inner, Node.lexemes_inner,
    hline.lexemes_eq hline']

theorem reusedAll_tokensFrom (line column : Nat) (ts : List String) :
    reusedAll (tokensFrom line column ts) = [] := by
  induction ts generalizing column with
  | nil => rfl
  | cons t ts ih => exact ih _

theorem reused_statement (text : String) (line : Nat) : (statement text line).reused = [] :=
  reusedAll_tokensFrom line 1 _

/-- The nodes of a statement are all new. -/
theorem built_statement (text : String) (line : Nat) (s : Store α) :
    Built [] s.next ((statement text line).build s).2.next
      [((statement text line).build s).1] := by
  refine built_build (statement text line) (fun m hm => ?_) fun n hn => ?_
  · exact absurd hm (Store.not_hasNode_nil m)
  · rw [reused_statement] at hn
    cases hn

/-- A statement that is made later shares no node. -/
theorem id_ne_of_later {text text' : String} {line line' : Nat} {s s' : Store α}
    (hlater : ((statement text line).build s).2.next ≤ s'.next) {m m' : Node}
    (hm : m ∈ ((statement text line).build s).1.preorder)
    (hm' : m' ∈ ((statement text' line').build s').1.preorder) : m.id ≠ m'.id := by
  have hfirst := (built_statement text line s).origin m (Store.hasNode_singleton.mpr hm)
  have hsecond := (built_statement text' line' s').origin m' (Store.hasNode_singleton.mpr hm')
  have hlt := (hfirst.resolve_left (Store.not_hasNode_nil m)).2
  have hle := (hsecond.resolve_left (Store.not_hasNode_nil m')).1
  exact Nat.ne_of_lt (Nat.lt_of_lt_of_le hlt (Nat.le_trans hlater hle))

/-- A statement that is read from a text has its words as tokens, at the places at which they stand
in the source text, and the running column stays in the range of 32 bits. The source text is read as
the same statement, with the same tokens at the same places. A statement that is made later is like
it exactly if it is read from the same words. -/
theorem statement_read_back (text : String) (line : Nat) (hsize : text.utf8ByteSize < 2 ^ 31)
    (s : Store α) :
    let n := ((statement text line).build s).1
    n.Reads text line ∧
      (∀ t p, (t, p) ∈ n.lexemes → p.column + t.utf8ByteSize + 1 < 2 ^ 32) ∧
      statement n.source line = statement text line ∧
      (∀ s' : Store α, ((statement n.source line).build s').1.lexemes = n.lexemes) ∧
      ∀ (text' : String) (line' : Nat) (s' : Store α),
        ((statement text line).build s).2.next ≤ s'.next →
        (n.sameContent ((statement text' line').build s').1 = true ↔
          ∃ ws, Spaced ws text ∧ Spaced ws text') := by
  intro n
  have hreads : n.Reads text line := reads_build text line s
  have hback : statement n.source line = statement text line := by
    have hwords : Text.tokens n.source = Text.tokens text :=
      (Text.tokens_eq_iff.mpr hreads.spaced_source).trans (Text.tokens_eq_iff.mpr hreads.spaced).symm
    rw [statement, statement, hwords]
  refine ⟨hreads, fun t p hmem => ?_, hback, fun s' => ?_, fun text' line' s' hlater => ?_⟩
  · have hle := hreads.column_le hmem
    omega
  · rw [hback]
    exact lexemes_statement text line s' s
  · rw [Node.sameContent_iff fun m hm m' hm' hid => absurd hid (id_ne_of_later hlater hm hm')]
    exact hreads.content_eq_iff (reads_build text' line' s')

/-- A statement whose first word has more bytes than characters. -/
def padded : String := "  süß =\t1 ;"

/-- The statement as it is made first, and what has been made then. -/
def paddedBuilt : Node × Store Rat := (statement padded 7).build .empty

theorem lexemes_padded :
    paddedBuilt.1.lexemes = [("süß", ⟨7, 1⟩), ("=", ⟨7, 7⟩), ("1", ⟨7, 9⟩), (";", ⟨7, 11⟩)] := by
  have hwords : Text.tokens padded = ["süß", "=", "1", ";"] := rfl
  rw [paddedBuilt, statement, hwords]
  rfl

theorem statement_read_back_padded : padded.utf8ByteSize < 2 ^ 31 ∧
    paddedBuilt.1.lexemes = [("süß", ⟨7, 1⟩), ("=", ⟨7, 7⟩), ("1", ⟨7, 9⟩), (";", ⟨7, 11⟩)] ∧
    paddedBuilt.1.source = "süß = 1 ;" ∧
    statement "süß = 1 ;" 7 = statement padded 7 ∧
    paddedBuilt.1.sameContent ((statement "süß = 1 ;" 8).build paddedBuilt.2).1 = true := by
  have hsize : padded.utf8ByteSize < 2 ^ 31 := by decide
  obtain ⟨hreads, -, hback, -, halike⟩ := statement_read_back padded 7 hsize (.empty : Store Rat)
  change paddedBuilt.1.Reads padded 7 at hreads
  change statement paddedBuilt.1.source 7 = statement padded 7 at hback
  have hsource : paddedBuilt.1.source = "süß = 1 ;" := by
    rw [Node.source_of_words hreads.spaced.isWord, Node.tokens_eq_map_lexemes, lexemes_padded]
    simp
  refine ⟨hsize, lexemes_padded, hsource, ?_, ?_⟩
  · rw [← hsource]
    exact hback
  · refine (halike "süß = 1 ;" 8 paddedBuilt.2 (Nat.le_refl _)).mpr ⟨_, hreads.spaced, ?_⟩
    rw [← hsource]
    exact hreads.spaced_source

end Draft

end GeneticRepair

import GeneticRepair.Syntax.Traversal

/-!
# `Syntax/Content.lean` — content of a program

Two nodes have the same content when they are built alike of the same kinds and tokens, wherever the
tokens stand and whatever identities the nodes have. The source text of a node is written by going
through the node and putting each token behind what has been written so far.

* `source_eq`: the source text is written token by token.
-/

set_option autoImplicit false

namespace GeneticRepair.Node

mutual

/-- Whether two nodes have the same content. The same node needs no look inside. -/
def sameContent : Node → Node → Bool
  | .leaf id text _, .leaf id' text' _ => id == id' || text == text'
  | .inner id kind _ children, .inner id' kind' _ children' =>
    id == id' || (kind == kind' && sameContentAll children children')
  | .leaf id .., .inner id' .. => id == id'
  | .inner id .., .leaf id' .. => id == id'

/-- Whether two lists have the same content, node by node. -/
def sameContentAll : List Node → List Node → Bool
  | [], [] => true
  | a :: as, b :: bs => a.sameContent b && sameContentAll as bs
  | _, _ => false

end

theorem sameContent_self (n : Node) : n.sameContent n = true := by
  cases n with
  | leaf id text position => simp [sameContent]
  | inner id kind span children => simp [sameContent]

theorem sameContentAll_self (l : List Node) : sameContentAll l l = true := by
  induction l with
  | nil => rfl
  | cons c l ih => rw [sameContentAll, sameContent_self, ih, Bool.and_self]

theorem sameContent_withId (n : Node) (id : NodeId) : (n.withId id).sameContent n = true := by
  cases n with
  | leaf => simp [withId, sameContent]
  | inner => simp [withId, sameContent, sameContentAll_self]

/-- The tokens of a node in order. -/
def tokens (n : Node) : List String := n.preorder.filterMap text?

/-- Writes a token behind a text; a blank goes before it unless nothing has been written yet. -/
def appendToken (out token : String) : String :=
  if out.isEmpty then token else out ++ " " ++ token

mutual

/-- Writes the tokens of a node behind a text. -/
def writeOnto : Node → String → String
  | .leaf _ text _, out => appendToken out text
  | .inner _ _ _ children, out => writeAllOnto children out

/-- Writes the tokens of some nodes behind a text, one node after the other. -/
def writeAllOnto : List Node → String → String
  | [], out => out
  | c :: cs, out => writeAllOnto cs (c.writeOnto out)

end

/-- The source text of a node. -/
def source (n : Node) : String := n.writeOnto ""

@[simp] theorem tokens_leaf (id text position) : (leaf id text position).tokens = [text] := rfl

@[simp] theorem tokens_inner (id kind span children) :
    (inner id kind span children).tokens = children.flatMap tokens := by
  rw [tokens, preorder_inner, List.filterMap_cons_none rfl, List.filterMap_flatMap]
  rfl

/-- Whatever has been written before, the tokens of a node come behind it one by one. -/
theorem writeOnto_eq (n : Node) (out : String) :
    n.writeOnto out = n.tokens.foldl appendToken out := by
  induction n generalizing out with
  | leaf id text position => rfl
  | inner id kind span children ih =>
    rw [writeOnto, tokens_inner]
    induction children generalizing out with
    | nil => rfl
    | cons c children ihs =>
      obtain ⟨hc, hchildren⟩ := List.forall_mem_cons.mp ih
      rw [writeAllOnto, hc, ihs hchildren, List.flatMap_cons, List.foldl_append]

theorem source_eq (n : Node) : n.source = n.tokens.foldl appendToken "" := writeOnto_eq n ""

end GeneticRepair.Node

import GeneticRepair.Syntax.Store
import GeneticRepair.Text.Blank

/-!
# `Syntax/Draft.lean` — drafts

A draft describes a program that is still to be made, as a reader of source files produces it:
kinds, tokens and attributes, and nodes that exist already and are taken over as they are. Building
it gives identities to the nodes.
-/

set_option autoImplicit false

namespace GeneticRepair

/-- A program part that is still to be made. -/
inductive Draft where
  | leaf (text : String) (position : Position) (attributes : Attributes)
  | inner (kind : NodeKind) (attributes : Attributes) (children : List Draft)
  /-- A node that exists already; the attributes are written to it. -/
  | existing (node : Node) (attributes : Attributes)

namespace Draft

def ofKind (kind : NodeKind) : Draft := .inner kind [] []

instance : Inhabited Draft := ⟨ofKind .other⟩

def token (text : String) (line column : Nat) : Draft := .leaf text ⟨line, column⟩ []

def reuse (node : Node) : Draft := .existing node []

def withAttribute (d : Draft) (key value : String) : Draft :=
  match d with
  | .leaf text position attributes => .leaf text position (attributes.put key value)
  | .inner kind attributes children => .inner kind (attributes.put key value) children
  | .existing node attributes => .existing node (attributes.put key value)

/-- Appends children; a token and an existing node take none. -/
def withChildren (d : Draft) (more : List Draft) : Draft :=
  match d with
  | .inner kind attributes children => .inner kind attributes (children ++ more)
  | d => d

/-- A compilation unit with the name of its file. -/
def file (name : String) : Draft := (ofKind .file).withAttribute Attributes.fileName name

def declaration (name : String) : Draft :=
  (ofKind .typeDeclaration).withAttribute Attributes.className name

/-- Tokens on one line, one column apart; columns count bytes. -/
def tokensFrom (line : Nat) : Nat → List String → List Draft
  | _, [] => []
  | column, t :: ts => token t line column :: tokensFrom line (column + t.utf8ByteSize + 1) ts

/-- An atomic statement of the tokens of a source text. -/
def statement (source : String) (line : Nat) : Draft :=
  .inner .atomicStatement [] (tokensFrom line 1 (Text.tokens source))

variable {α : Type} [Scalar α]

mutual

def build : Draft → StoreM α Node
  | .leaf text position attributes => do
    let id ← StoreM.allocate (.fresh attributes)
    return .leaf id text position
  | .inner kind attributes children => do
    -- the children are made first, so a node comes after them in the store
    let nodes ← buildAll children
    let id ← StoreM.allocate (.fresh attributes)
    return .make id kind nodes
  | .existing node attributes => do
    modify fun s => attributes.foldl (fun s a => s.setAttribute node a.1 a.2) s
    return node

def buildAll : List Draft → StoreM α (List Node)
  | [] => return []
  | d :: ds => do
    let n ← d.build
    let ns ← buildAll ds
    return n :: ns

end

end Draft

end GeneticRepair

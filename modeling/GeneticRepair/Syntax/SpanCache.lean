import GeneticRepair.Syntax.Spine

/-!
# `Syntax/SpanCache.lean` — spans on demand

The nodes of this library carry their spans. Where many nodes are made and few are ever asked, a
span is better worked out when it is asked for first, and remembered. A span that is remembered
outlives no change of the children: a copy takes over what is known of the node that was copied, and
whatever touches the children of a copy has to forget it.
-/

set_option autoImplicit false

namespace GeneticRepair

/-- The spans that have been worked out, each under the identity of its node. -/
structure SpanCache where
  lookup : NodeId → Option (Option LineSpan)

namespace SpanCache

def empty : SpanCache := ⟨fun _ => none⟩

def note (c : SpanCache) (id : NodeId) (span : Option LineSpan) : SpanCache :=
  ⟨fun x => if x = id then some span else c.lookup x⟩

def forget (c : SpanCache) (id : NodeId) : SpanCache :=
  ⟨fun x => if x = id then none else c.lookup x⟩

/-- A copy of a node takes over what is known of it. -/
def share (c : SpanCache) (id copy : NodeId) : SpanCache :=
  ⟨fun x => if x = copy then c.lookup id else c.lookup x⟩

/-- The span that is remembered, or else the one that is worked out, which is remembered then. -/
def lookupOr (id : NodeId) (work : StateM SpanCache (Option LineSpan)) :
    StateM SpanCache (Option LineSpan) := fun c =>
  match c.lookup id with
  | some span => (span, c)
  | none =>
    let (span, c) := work c
    (span, c.note id span)

end SpanCache

namespace Node

mutual

/-- The span of a node, from what is remembered as far as possible. -/
def measure : Node → StateM SpanCache (Option LineSpan)
  | .leaf id _ position => SpanCache.lookupOr id (pure (some (.single position.line)))
  | .inner id _ _ children => SpanCache.lookupOr id (do
    let spans ← measureAll children
    return LineSpan.hull spans)

def measureAll : List Node → StateM SpanCache (List (Option LineSpan))
  | [] => return []
  | c :: cs => do
    let span ← c.measure
    let spans ← measureAll cs
    return span :: spans

end

/-- The copies on the way to a place, numbered from `next` on, take over what is known of the nodes
that they are copies of. -/
def shareAlong : Node → ChildPath → NodeId → SpanCache → SpanCache
  | n, [], next, c => c.share n.id next
  | n, i :: path, next, c =>
    match n.children[i]? with
    | none => c.share n.id next
    | some child => child.shareAlong path (next + 1) (c.share n.id next)

end Node

namespace Spine

/-- What is known of the target after an attempt to change its children, whether it was changed or
the attempt was refused. -/
def touch (s : Spine) (c : SpanCache) : SpanCache := c.forget s.target.id

/-- What is known after the copies have been linked: each of them got another child. -/
def release (s : Spine) (c : SpanCache) : SpanCache :=
  s.ancestors.foldl (fun c a => c.forget a.id) c

end Spine

end GeneticRepair

import Mathlib.Data.List.Forall2
import Mathlib.Order.Bounds.Basic
import GeneticRepair.Proofs.Syntax.Growth
import GeneticRepair.Syntax.SpanCache

/-!
# `Proofs/Syntax/Spans.lean` — the lines of a node

The span of a node is the least and the greatest line of the leaves below it, and there is none if
there is no such leaf (`LineSpan.IsHull`). A node that is made carries its span if its children do
(`Node.isHull_make`). One that is asked gives its span if all that is remembered is right
(`SpanCache.Right`), and what is remembered after that is still right (`Node.measure_right`); nodes
that share an identity would spoil it, since what is worked out for one is then told of the other.
-/

set_option autoImplicit false

namespace GeneticRepair

namespace LineSpan

/-- The least and the greatest of some lines; nothing if there are none. -/
def IsHull (lines : Set Nat) : Option LineSpan → Prop
  | none => lines = ∅
  | some a => IsLeast lines a.first ∧ IsGreatest lines a.last

variable {lines more : Set Nat} {span span' : Option LineSpan}

theorem isHull_single (line : Nat) : IsHull {line} (some (single line)) :=
  ⟨isLeast_singleton, isGreatest_singleton⟩

theorem IsHull.eq_none_iff (h : IsHull lines span) : span = none ↔ lines = ∅ := by
  cases span with
  | none => exact ⟨fun _ => h, fun _ => rfl⟩
  | some a =>
    constructor
    · intro hspan
      cases hspan
    · rintro rfl
      exact absurd h.1.1 (Set.notMem_empty _)

theorem IsHull.eq_some_iff (h : IsHull lines span) {first last : Nat} :
    span = some ⟨first, last⟩ ↔ IsLeast lines first ∧ IsGreatest lines last := by
  constructor
  · rintro rfl
    exact h
  · rintro ⟨hfirst, hlast⟩
    cases span with
    | none =>
      obtain rfl : lines = ∅ := h
      exact absurd hfirst.1 (Set.notMem_empty _)
    | some a =>
      rw [← h.1.unique hfirst, ← h.2.unique hlast]

theorem IsHull.unique (h : IsHull lines span) (h' : IsHull lines span') : span = span' := by
  cases span' with
  | none => exact h.eq_none_iff.mpr h'
  | some a => exact h.eq_some_iff.mpr h'

/-- One more range in front. -/
theorem IsHull.cons {spans : List (Option LineSpan)} (h : IsHull lines span)
    (h' : IsHull more (hull spans)) : IsHull (lines ∪ more) (hull (span :: spans)) := by
  cases span with
  | none =>
    obtain rfl : lines = ∅ := h
    rw [Set.empty_union]
    exact h'
  | some a =>
    unfold hull
    cases hrest : hull spans with
    | none =>
      rw [hrest] at h'
      obtain rfl : more = ∅ := h'
      rw [Set.union_empty]
      exact h
    | some b =>
      rw [hrest] at h'
      exact ⟨h.1.union h'.1, h.2.union h'.2⟩

end LineSpan

open LineSpan (IsHull)

namespace Node

/-- The lines of the leaves at and below a node. -/
def lines (n : Node) : Set Nat :=
  {line | ∃ m ∈ n.preorder, ∃ position, m.position? = some position ∧ position.line = line}

theorem lines_leaf (id : NodeId) (text : String) (position : Position) :
    (leaf id text position).lines = {position.line} := by
  ext line
  simp [lines, position?, eq_comm]

theorem mem_lines_inner {id : NodeId} {kind : NodeKind} {span : Option LineSpan}
    {children : List Node} {line : Nat} :
    line ∈ (inner id kind span children).lines ↔ ∃ c ∈ children, line ∈ c.lines := by
  constructor
  · rintro ⟨m, hm, position, hposition, hline⟩
    obtain rfl | ⟨c, hc, hm⟩ := mem_preorder_iff.mp hm
    · cases hposition
    · exact ⟨c, hc, m, hm, position, hposition, hline⟩
  · rintro ⟨c, hc, m, hm, hposition⟩
    exact ⟨m, mem_preorder_of_mem_child hc hm, hposition⟩

theorem lines_withId (n : Node) (id : NodeId) : (n.withId id).lines = n.lines := by
  cases n with
  | leaf => rw [withId, lines_leaf, lines_leaf]
  | inner =>
    ext line
    rw [withId, mem_lines_inner, mem_lines_inner]

/-- The hull of the spans of the children is the span of a node. -/
theorem isHull_inner {children : List Node} {spans : List (Option LineSpan)}
    (h : List.Forall₂ (fun c span => IsHull c.lines span) children spans) (id : NodeId)
    (kind : NodeKind) (span : Option LineSpan) :
    IsHull (inner id kind span children).lines (LineSpan.hull spans) := by
  have hunion : (inner id kind span children).lines = {line | ∃ c ∈ children, line ∈ c.lines} := by
    ext line
    exact mem_lines_inner
  rw [hunion]
  clear hunion
  induction h with
  | nil => exact Set.eq_empty_of_forall_notMem fun line ⟨c, hc, _⟩ => List.not_mem_nil hc
  | @cons c span children spans hc _ ih =>
    have hcons : {line | ∃ d ∈ c :: children, line ∈ d.lines} =
        c.lines ∪ {line | ∃ d ∈ children, line ∈ d.lines} := by
      ext line
      simp
    rw [hcons]
    exact hc.cons ih

/-! ## The span that a node carries -/

/-- A node that carries its span. -/
def Spanned (n : Node) : Prop := IsHull n.lines n.lineSpan

theorem spanned_leaf (id : NodeId) (text : String) (position : Position) :
    (leaf id text position).Spanned := by
  unfold Spanned
  rw [lines_leaf]
  exact LineSpan.isHull_single _

theorem spanned_make {children : List Node} (h : ∀ c ∈ children, c.Spanned) (id : NodeId)
    (kind : NodeKind) : (make id kind children).Spanned := by
  refine isHull_inner ?_ id kind _
  induction children with
  | nil => exact .nil
  | cons c children ih =>
    obtain ⟨hc, hrest⟩ := List.forall_mem_cons.mp h
    exact .cons hc (ih hrest)

theorem Spanned.withId {n : Node} (h : n.Spanned) (id : NodeId) : (n.withId id).Spanned := by
  unfold Spanned
  rw [lines_withId, lineSpan_withId]
  exact h

end Node

/-! ## The spans that are remembered -/

/-- Nodes among which there are the children of each, and one for an identity at most. -/
structure Known (known : Node → Prop) : Prop where
  child : ∀ {n c : Node}, known n → c ∈ n.children → known c
  eq_of_id_eq : ∀ {m m' : Node}, known m → known m' → m.id = m'.id → m = m'

namespace SpanCache

/-- What is remembered of some nodes is their span, and nothing is remembered of identities that
have not been given out. -/
structure Right (c : SpanCache) (known : Node → Prop) (next : NodeId) : Prop where
  isHull : ∀ n span, known n → c.lookup n.id = some span → IsHull n.lines span
  lt_next : ∀ id span, c.lookup id = some span → id < next

variable {c : SpanCache} {known more : Node → Prop} {next next' : NodeId} {n : Node}
  {span : Option LineSpan}

theorem right_empty (known : Node → Prop) (next : NodeId) : empty.Right known next := by
  constructor
  · intro n span _ hlookup
    cases hlookup
  · intro id span hlookup
    cases hlookup

theorem Right.note (h : c.Right known next) (hknown : Known known) (hn : known n)
    (hlt : n.id < next) (hspan : IsHull n.lines span) : (c.note n.id span).Right known next := by
  constructor
  · intro m span' hm hlookup
    simp only [SpanCache.note] at hlookup
    split at hlookup
    · next hid =>
      obtain rfl := hknown.eq_of_id_eq hm hn hid
      obtain rfl := Option.some.inj hlookup
      exact hspan
    · exact h.isHull m span' hm hlookup
  · intro id span' hlookup
    simp only [SpanCache.note] at hlookup
    split at hlookup
    · next hid => exact hid ▸ hlt
    · exact h.lt_next id span' hlookup

/-- To forget is never wrong. Of nodes whose span is forgotten nothing need be known. -/
theorem Right.of_lookup {d : SpanCache} (h : c.Right known next)
    (hlookup : ∀ id span, d.lookup id = some span → c.lookup id = some span)
    (hmore : ∀ m span, more m → d.lookup m.id = some span → known m)
    (hnext : next ≤ next') : d.Right more next' :=
  ⟨fun m span hm h' => h.isHull m span (hmore m span hm h') (hlookup _ _ h'),
    fun id span h' => Nat.lt_of_lt_of_le (h.lt_next id span (hlookup _ _ h')) hnext⟩

/-- What is told of a node is its span, and stays right for all nodes. -/
theorem right_lookupOr {work : StateM SpanCache (Option LineSpan)} (h : c.Right known next)
    (hknown : Known known) (hn : known n) (hlt : n.id < next)
    (hwork : IsHull n.lines (work c).1 ∧ (work c).2.Right known next) :
    IsHull n.lines (lookupOr n.id work c).1 ∧ (lookupOr n.id work c).2.Right known next := by
  unfold lookupOr
  cases hlookup : c.lookup n.id with
  | some span => exact ⟨h.isHull n span hn hlookup, h⟩
  | none => exact ⟨hwork.1, hwork.2.note hknown hn hlt hwork.1⟩

end SpanCache

namespace Node

variable {known : Node → Prop} {next : NodeId}

theorem measureAll_cons (n : Node) (l : List Node) (c : SpanCache) :
    measureAll (n :: l) c =
      ((n.measure c).1 :: (measureAll l (n.measure c).2).1, (measureAll l (n.measure c).2).2) := rfl

/-- A node that is asked for its span gives it, if what is remembered is right. -/
theorem measure_right (hknown : Known known) (hlt : ∀ m, known m → m.id < next) {n : Node}
    (hn : known n) {c : SpanCache} (h : c.Right known next) :
    IsHull n.lines (n.measure c).1 ∧ (n.measure c).2.Right known next := by
  induction n generalizing c with
  | leaf id text position =>
    refine SpanCache.right_lookupOr h hknown hn (hlt _ hn) ⟨?_, h⟩
    rw [lines_leaf]
    exact LineSpan.isHull_single _
  | inner id kind span children ih =>
    -- one child after the other, with what has been remembered on the way
    have hall (l : List Node) (hl : ∀ m ∈ l, m ∈ children) {c : SpanCache}
        (h : c.Right known next) :
        List.Forall₂ (fun m span => IsHull m.lines span) l (measureAll l c).1 ∧
          (measureAll l c).2.Right known next := by
      induction l generalizing c with
      | nil => exact ⟨.nil, h⟩
      | cons m l ihl =>
        obtain ⟨hm, hl⟩ := List.forall_mem_cons.mp hl
        obtain ⟨hspan, hright⟩ := ih m hm (hknown.child hn hm) h
        obtain ⟨hspans, hright⟩ := ihl hl hright
        rw [measureAll_cons]
        exact ⟨.cons hspan hspans, hright⟩
    obtain ⟨hspans, hright⟩ := hall children (fun _ hm => hm) h
    exact SpanCache.right_lookupOr h hknown hn (hlt _ hn) ⟨isHull_inner hspans id kind span, hright⟩

end Node

end GeneticRepair

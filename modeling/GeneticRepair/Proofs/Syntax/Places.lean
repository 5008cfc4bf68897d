import Mathlib.Order.Lattice
import Mathlib.Data.List.Lex
import GeneticRepair.Proofs.Syntax.Growth

/-!
# `Proofs/Syntax/Places.lean` — the places of a program in order

The pre-order of a program lists nodes, and one that is shared is listed once for each of its
places. `Node.places` lists the places along with the nodes: every place exactly once, and in the
lexicographic order of the child indices. So the first entry of some kind in a pre-order is the one
at the least place (`findSome?_ofKind_eq_some_iff`), and the place that is found for an identity is
the least one at which it stands (`pathTo_eq_some_iff`).
-/

set_option autoImplicit false

namespace GeneticRepair

/-- In an ascending list the first hit is the one with the least key. -/
theorem findSome?_eq_some_iff_of_ascending {κ β γ : Type} [Preorder κ] {key : β → κ} {l : List β}
    (h : l.Pairwise fun v w => key v < key w) {f : β → Option γ} {c : γ} :
    l.findSome? f = some c ↔
      ∃ v ∈ l, f v = some c ∧ ∀ w ∈ l, key w < key v → f w = none := by
  rw [List.findSome?_eq_some_iff]
  constructor
  · rintro ⟨before, v, after, rfl, hv, hbefore⟩
    refine ⟨v, List.mem_append_right _ List.mem_cons_self, hv, fun w hw hlt => ?_⟩
    obtain hw | hw := List.mem_append.mp hw
    · exact hbefore w hw
    · have hle : key v ≤ key w := by
        obtain rfl | hw := List.mem_cons.mp hw
        · exact le_refl _
        · exact ((List.pairwise_cons.mp (List.pairwise_append.mp h).2.1).1 w hw).le
      exact absurd hlt (not_lt_of_ge hle)
  · rintro ⟨v, hv, hfv, hleast⟩
    obtain ⟨before, after, rfl⟩ := List.append_of_mem hv
    refine ⟨before, v, after, rfl, hfv, fun w hw => ?_⟩
    exact hleast w (List.mem_append_left _ hw)
      ((List.pairwise_append.mp h).2.2 w hw v List.mem_cons_self)

namespace Node

mutual

/-- The places of a program in pre-order, each with the node that stands there. -/
def places : Node → List (ChildPath × Node)
  | .leaf id text position => [([], .leaf id text position)]
  | .inner id kind span children => ([], .inner id kind span children) :: placesIn 0 children

/-- The places below a list of children whose first one has the given index. -/
def placesIn (index : Nat) : List Node → List (ChildPath × Node)
  | [] => []
  | c :: cs => c.places.map (fun v => (index :: v.1, v.2)) ++ placesIn (index + 1) cs

end

variable {n m : Node} {p : ChildPath}

theorem mem_placesIn {index : Nat} {children : List Node} {v : ChildPath × Node} :
    v ∈ placesIn index children ↔
      ∃ j c q, children[j]? = some c ∧ (q, v.2) ∈ c.places ∧ v.1 = (index + j) :: q := by
  induction children generalizing index with
  | nil => simp [placesIn]
  | cons c children ih =>
    rw [placesIn, List.mem_append, ih, List.mem_map]
    constructor
    · rintro (⟨⟨q, m⟩, hq, rfl⟩ | ⟨j, d, q, hd, hq, hv⟩)
      · exact ⟨0, c, q, rfl, hq, rfl⟩
      · refine ⟨j + 1, d, q, hd, hq, ?_⟩
        rw [hv, Nat.add_assoc, Nat.add_comm 1]
    · rintro ⟨_ | j, d, q, hd, hq, hv⟩
      · obtain rfl := Option.some.inj hd
        exact .inl ⟨(q, v.2), hq, Prod.ext hv.symm rfl⟩
      · refine .inr ⟨j, d, q, hd, hq, ?_⟩
        rw [hv, Nat.add_assoc, Nat.add_comm 1]

/-- The places that are listed are those that are there, with the nodes that stand there. -/
theorem mem_places : (p, m) ∈ n.places ↔ n.descend p = some m := by
  induction n generalizing p with
  | leaf id text position =>
    cases p with
    | nil => simp [places, descend, eq_comm]
    | cons i p => simp [places, descend, children]
  | inner id kind span children ih =>
    rw [places, List.mem_cons, mem_placesIn]
    cases p with
    | nil =>
      simp only [Prod.mk.injEq, true_and, List.nil_eq, reduceCtorEq, and_false, exists_false,
        or_false]
      exact ⟨fun h => congrArg some h.symm, fun h => (Option.some.inj h).symm⟩
    | cons i p =>
      simp only [Prod.mk.injEq, reduceCtorEq, false_and, false_or, List.cons.injEq, Nat.zero_add]
      constructor
      · rintro ⟨j, c, q, hc, hq, rfl, rfl⟩
        rw [descend_cons hc]
        exact (ih c (List.mem_of_getElem? hc)).mp hq
      · intro h
        obtain ⟨c, hc, h⟩ := Option.bind_eq_some_iff.mp h
        exact ⟨i, c, p, hc, (ih c (List.mem_of_getElem? hc)).mpr h, rfl, rfl⟩

theorem map_snd_places (n : Node) : n.places.map Prod.snd = n.preorder := by
  induction n with
  | leaf => rfl
  | inner id kind span children ih =>
    have hall (l : List Node) (hl : ∀ c ∈ l, c.places.map Prod.snd = c.preorder) (index : Nat) :
        (placesIn index l).map Prod.snd = l.flatMap preorder := by
      induction l generalizing index with
      | nil => rfl
      | cons c l ihl =>
        obtain ⟨hc, hl⟩ := List.forall_mem_cons.mp hl
        rw [placesIn, List.map_append, List.map_map, ihl hl, List.flatMap_cons, ← hc]
        rfl
    rw [places, List.map_cons, hall children ih, preorder_inner]

theorem pairwise_places (n : Node) : n.places.Pairwise fun v w => v.1 < w.1 := by
  induction n with
  | leaf => exact List.pairwise_singleton _ _
  | inner id kind span children ih =>
    have hall (l : List Node) (hl : ∀ c ∈ l, c.places.Pairwise fun v w => v.1 < w.1)
        (index : Nat) : (placesIn index l).Pairwise fun v w => v.1 < w.1 := by
      induction l generalizing index with
      | nil => exact .nil
      | cons c l ihl =>
        obtain ⟨hc, hl⟩ := List.forall_mem_cons.mp hl
        refine List.pairwise_append.mpr ⟨?_, ihl hl _, fun v hv w hw => ?_⟩
        · rw [List.pairwise_map]
          exact hc.imp fun h => List.cons_lt_cons_iff.mpr (.inr ⟨rfl, h⟩)
        · -- later children have greater indices
          obtain ⟨v, -, rfl⟩ := List.mem_map.mp hv
          obtain ⟨j, -, q, -, -, hw⟩ := mem_placesIn.mp hw
          rw [hw]
          exact List.cons_lt_cons_iff.mpr (.inl (by omega))
    refine List.pairwise_cons.mpr ⟨fun v hv => ?_, hall children ih 0⟩
    obtain ⟨j, -, q, -, -, hv⟩ := mem_placesIn.mp hv
    rw [hv]
    exact List.nil_lt_cons _ _

/-! ## Searching in pre-order -/

/-- The places at which a node of some sort stands. -/
def occurrences (n : Node) (sort : Node → Bool) : List (ChildPath × Node) :=
  n.places.filter fun v => sort v.2

theorem mem_ofKind {kind : NodeKind} :
    m ∈ n.ofKind kind ↔ (∃ p, n.descend p = some m) ∧ m.kind = kind := by
  rw [ofKind, List.mem_filter, decide_eq_true_eq]
  refine and_congr_left fun _ => ⟨exists_descend_of_mem_preorder, fun ⟨p, hp⟩ => ?_⟩
  exact mem_preorder_of_descend hp

theorem filter_preorder (n : Node) (sort : Node → Bool) :
    n.preorder.filter sort = (n.occurrences sort).map Prod.snd := by
  rw [← map_snd_places, List.filter_map]
  rfl

theorem mem_occurrences {sort : Node → Bool} :
    (p, m) ∈ n.occurrences sort ↔ n.descend p = some m ∧ sort m = true := by
  rw [occurrences, List.mem_filter, mem_places]

theorem pairwise_occurrences (n : Node) (sort : Node → Bool) :
    (n.occurrences sort).Pairwise fun v w => v.1 < w.1 :=
  (pairwise_places n).filter _

/-- The first node of a kind that gives an answer is the one at the least place. -/
theorem findSome?_ofKind_eq_some_iff {β : Type} {kind : NodeKind} {f : Node → Option β} {b : β} :
    (n.ofKind kind).findSome? f = some b ↔
      ∃ p m, n.descend p = some m ∧ m.kind = kind ∧ f m = some b ∧
        ∀ q k, n.descend q = some k → k.kind = kind → q < p → f k = none := by
  rw [ofKind, filter_preorder, List.findSome?_map,
    findSome?_eq_some_iff_of_ascending (pairwise_occurrences n _)]
  simp only [Prod.exists, Prod.forall, mem_occurrences, decide_eq_true_eq, and_imp, and_assoc,
    Function.comp_apply]

/-- The first node of a kind that is of some sort is the one at the least place. -/
theorem find?_ofKind_eq_some_iff {kind : NodeKind} {sort : Node → Bool} :
    (n.ofKind kind).find? sort = some m ↔
      ∃ p, n.descend p = some m ∧ m.kind = kind ∧ sort m = true ∧
        ∀ q k, n.descend q = some k → k.kind = kind → q < p → sort k = false := by
  rw [List.find?_eq_findSome?_guard, findSome?_ofKind_eq_some_iff]
  simp only [Option.guard_eq_some_iff, Option.guard_eq_none_iff]
  constructor
  · rintro ⟨p, _, hm, hkind, ⟨rfl, hsort⟩, hleast⟩
    exact ⟨p, hm, hkind, hsort, hleast⟩
  · rintro ⟨p, hm, hkind, hsort, hleast⟩
    exact ⟨p, m, hm, hkind, ⟨rfl, hsort⟩, hleast⟩

theorem pathTo_eq_find? (n : Node) (target : NodeId) :
    n.pathTo target = (n.places.find? (·.2.id = target)).map Prod.fst := by
  induction n with
  | leaf id text position =>
    unfold pathTo
    by_cases h : id = target
    · simp [places, Node.id, h]
    · simp [places, Node.id, h]
  | inner id kind span children ih =>
    have hall (l : List Node) (hl : ∀ c ∈ l, c.pathTo target =
        (c.places.find? (·.2.id = target)).map Prod.fst) (index : Nat) :
        pathIn target index l =
          ((placesIn index l).find? (·.2.id = target)).map Prod.fst := by
      induction l generalizing index with
      | nil =>
        unfold pathIn
        rfl
      | cons c l ihl =>
        obtain ⟨hc, hl⟩ := List.forall_mem_cons.mp hl
        unfold pathIn
        rw [hc, ihl hl, placesIn, List.find?_append, List.find?_map]
        change _ = Option.map _ (Option.or (Option.map _ (c.places.find? (·.2.id = target))) _)
        cases c.places.find? (·.2.id = target) with
        | none => rfl
        | some v => rfl
    unfold pathTo
    by_cases h : id = target
    · simp [places, Node.id, h]
    · have hroot : decide ((inner id kind span children).id = target) = false :=
        decide_eq_false h
      rw [if_neg h, hall children ih, places, List.find?_cons, hroot]

/-- The place of an identity is the least one at which it stands. -/
theorem pathTo_eq_some_iff {target : NodeId} :
    n.pathTo target = some p ↔ (∃ m, n.descend p = some m ∧ m.id = target) ∧
      ∀ q k, n.descend q = some k → q < p → k.id ≠ target := by
  rw [pathTo_eq_find?, List.find?_eq_findSome?_guard, Option.map_eq_some_iff]
  simp only [findSome?_eq_some_iff_of_ascending (pairwise_places n), Prod.exists, Prod.forall,
    mem_places, Option.guard_eq_some_iff, Option.guard_eq_none_iff, decide_eq_true_eq,
    decide_eq_false_iff_not]
  constructor
  · rintro ⟨_, m, ⟨_, _, hm, ⟨⟨⟩, hid⟩, hleast⟩, rfl⟩
    exact ⟨⟨m, hm, hid⟩, hleast⟩
  · rintro ⟨⟨m, hm, hid⟩, hleast⟩
    exact ⟨p, m, ⟨p, m, hm, ⟨rfl, hid⟩, hleast⟩, rfl⟩

theorem exists_pathTo (h : n.descend p = some m) : ∃ q, n.pathTo m.id = some q := by
  have hfound : (n.places.find? (·.2.id = m.id)).isSome :=
    List.find?_isSome.mpr ⟨(p, m), mem_places.mpr h, decide_eq_true rfl⟩
  obtain ⟨v, hv⟩ := Option.isSome_iff_exists.mp hfound
  rw [pathTo_eq_find?, hv]
  exact ⟨v.1, rfl⟩

end Node

end GeneticRepair

import Mathlib.Order.Bounds.Basic
import GeneticRepair.Numeric.Rational
import GeneticRepair.Proofs.Syntax.Forest
import GeneticRepair.Proofs.Syntax.Places

/-!
# `Proofs/Syntax/Navigating.lean` — finding a node by its identity

A node that is shared stands at several places, and a search for its identity finds the first of
them in the order of the child indices. Its parent, the source file around it and its counterpart in
another version are those of that place. A program in which the identity is that of another node
would mislead every search; programs that live side by side in one store have no such node
(`Store.Forest`).

* `pathTo_eq_some_iff_isLeast`: the place of a node is the least one at which it stands.
* `find?_along_eq_some_iff`: the innermost source file is the deepest one on the way to a place.
* `navigation_exact`: what every search by identity finds, and when it finds nothing.
-/

set_option autoImplicit false

namespace GeneticRepair

namespace Node

variable {root other n m unit unit' : Node} {path q : ChildPath} {index : Nat}

/-! ## The innermost source file -/

/-- A source file that stands on the way to a place, with no other one below it on that way. Both
ends of the way count. -/
def InnermostUnit (root : Node) (path : ChildPath) (unit : Node) : Prop :=
  ∃ q, q <+: path ∧ root.descend q = some unit ∧ unit.kind = .file ∧
    ∀ r m, r <+: path → root.descend r = some m → m.kind = .file → r <+: q

theorem InnermostUnit.eq (h : root.InnermostUnit path unit) (h' : root.InnermostUnit path unit') :
    unit = unit' := by
  obtain ⟨q, hq, hunit, hkind, hdeepest⟩ := h
  obtain ⟨q', hq', hunit', hkind', hdeepest'⟩ := h'
  have hle := hdeepest q' unit' hq' hunit' hkind'
  have hge := hdeepest' q unit hq hunit hkind
  obtain rfl := hge.eq_of_length_le hle.length_le
  exact Option.some.inj (hunit.symm.trans hunit')

/-- A source file deeper on the way is not affected by what stands above. -/
theorem InnermostUnit.under {c : Node} {i : Nat} (hc : root.children[i]? = some c)
    (h : c.InnermostUnit path unit) : root.InnermostUnit (i :: path) unit := by
  obtain ⟨q, hq, hunit, hkind, hdeepest⟩ := h
  refine ⟨i :: q, List.cons_prefix_cons.mpr ⟨rfl, hq⟩, by rw [descend_cons hc, hunit], hkind, ?_⟩
  intro r m hr hm hfile
  cases r with
  | nil => exact List.nil_prefix
  | cons j r =>
    obtain ⟨rfl, hbelow⟩ := List.cons_prefix_cons.mp hr
    rw [descend_cons hc] at hm
    exact List.cons_prefix_cons.mpr ⟨rfl, hdeepest r m hbelow hm hfile⟩

/-- The root is the innermost source file of a way exactly if it is the only one on it. -/
theorem innermostUnit_root (hbelow : ∀ m ∈ root.along path, m = root ∨ m.kind ≠ .file) :
    root.InnermostUnit path unit ↔ root = unit ∧ root.kind = .file := by
  constructor
  · rintro ⟨q, hq, hunit, hkind, -⟩
    obtain rfl | hnot := hbelow unit (mem_along_iff.mpr ⟨q, hq, hunit⟩)
    · exact ⟨rfl, hkind⟩
    · exact absurd hkind hnot
  · rintro ⟨rfl, hkind⟩
    refine ⟨[], List.nil_prefix, rfl, hkind, fun r m hr hm hfile => ?_⟩
    obtain rfl := (hbelow m (mem_along_iff.mpr ⟨r, hr, hm⟩)).resolve_right (absurd hfile)
    cases r with
    | nil => exact List.nil_prefix
    | cons i r => exact absurd hm (descend_cons_ne_self _ i r)

/-- Going back from a place, the first source file is the innermost one. -/
theorem find?_along_eq_some_iff :
    (root.along path).reverse.find? (·.kind = .file) = some unit ↔
      root.InnermostUnit path unit := by
  have hself (k u : Node) : [k].find? (·.kind = .file) = some u ↔ k = u ∧ k.kind = .file := by
    rw [List.find?_singleton]
    by_cases h : k.kind = .file
    · simp [h]
    · simp [h]
  induction path generalizing root unit with
  | nil =>
    have halong : root.along [] = [root] := rfl
    rw [innermostUnit_root fun m hm => .inl (List.mem_singleton.mp (halong ▸ hm)), ← hself]
    rfl
  | cons i path ih =>
    cases hc : root.children[i]? with
    | none =>
      have halong : root.along (i :: path) = [root] := by rw [along, hc]
      rw [innermostUnit_root fun m hm => .inl (List.mem_singleton.mp (halong ▸ hm)), ← hself,
        halong]
      rfl
    | some c =>
      have halong : root.along (i :: path) = root :: c.along path := by rw [along, hc]
      rw [halong, List.reverse_cons, List.find?_append]
      -- a file further down comes before the root
      cases hfound : (c.along path).reverse.find? (·.kind = .file) with
      | some below =>
        have hunder := (ih.mp hfound).under hc
        rw [Option.some_or, Option.some.injEq]
        exact ⟨fun heq => heq ▸ hunder, hunder.eq⟩
      | none =>
        rw [Option.none_or, hself, innermostUnit_root]
        intro m hm
        obtain rfl | hm := List.mem_cons.mp (halong ▸ hm)
        · exact .inl rfl
        · have hnot := List.find?_eq_none.mp hfound m (List.mem_reverse.mpr hm)
          exact .inr (by simpa using hnot)

theorem unitAround_eq_some_iff :
    root.unitAround n = some unit ↔ ∃ path, root.pathTo n.id = some path ∧
      root.InnermostUnit path unit := by
  unfold unitAround
  simp only [Option.bind_eq_bind, Option.bind_eq_some_iff, find?_along_eq_some_iff]

/-! ## The place of a node -/

/-- The place of a node is the least one at which it stands. -/
theorem pathTo_eq_some_iff_isLeast (hid : ∀ m ∈ root.preorder, m.id = n.id → m = n) :
    root.pathTo n.id = some path ↔ IsLeast {p | root.descend p = some n} path := by
  rw [pathTo_eq_some_iff]
  constructor
  · rintro ⟨⟨m, hm, heq⟩, hleast⟩
    obtain rfl := hid m (mem_preorder_of_descend hm) heq
    exact ⟨hm, fun q hq => not_lt.mp fun hlt => hleast q m hq hlt rfl⟩
  · rintro ⟨hn, hleast⟩
    refine ⟨⟨n, hn, rfl⟩, fun q m hq hlt heq => ?_⟩
    obtain rfl := hid m (mem_preorder_of_descend hq) heq
    exact not_lt.mpr (hleast hq) hlt

theorem pathTo_eq_none_iff (hid : ∀ m ∈ root.preorder, m.id = n.id → m = n) :
    root.pathTo n.id = none ↔ ∀ p, root.descend p ≠ some n := by
  constructor
  · intro hnone p hp
    obtain ⟨q, hq⟩ := exists_pathTo hp
    rw [hnone] at hq
    cases hq
  · intro hall
    cases hpath : root.pathTo n.id with
    | none => rfl
    | some path => exact absurd ((pathTo_eq_some_iff_isLeast hid).mp hpath).1 (hall path)

theorem pathTo_eq_nil_iff (hid : ∀ m ∈ root.preorder, m.id = n.id → m = n) :
    root.pathTo n.id = some [] ↔ root = n := by
  rw [pathTo_eq_some_iff_isLeast hid]
  constructor
  · exact fun h => Option.some.inj h.1
  · rintro rfl
    exact ⟨rfl, fun q _ => not_lt.mp (List.not_lt_nil q)⟩

theorem parentOf_eq_some_iff :
    root.parentOf n = some (m, index) ↔ ∃ above, root.pathTo n.id = some (above ++ [index]) ∧
      root.descend above = some m := by
  unfold parentOf
  simp only [Option.bind_eq_bind, Option.bind_eq_some_iff, Option.pure_def, Option.some.injEq,
    Prod.mk.injEq]
  constructor
  · rintro ⟨path, hpath, i, hi, parent, hparent, rfl, rfl⟩
    obtain ⟨above, rfl⟩ := List.getLast?_eq_some_iff.mp hi
    rw [List.dropLast_concat] at hparent
    exact ⟨above, hpath, hparent⟩
  · rintro ⟨above, hpath, hm⟩
    exact ⟨_, hpath, index, List.getLast?_concat, m, by rwa [List.dropLast_concat], rfl, rfl⟩

/-- Only the root has a place and no parent. -/
theorem parentOf_eq_none_iff :
    root.parentOf n = none ↔ root.pathTo n.id = none ∨ root.pathTo n.id = some [] := by
  constructor
  · intro hnone
    cases hpath : root.pathTo n.id with
    | none => exact .inl rfl
    | some path =>
      obtain rfl | ⟨above, index, rfl⟩ := List.eq_nil_or_concat path
      · exact .inr rfl
      · obtain ⟨m, hm, -⟩ := descend_of_pathTo hpath
        rw [List.concat_eq_append, descend_append] at hm
        obtain ⟨parent, hparent, -⟩ := Option.bind_eq_some_iff.mp hm
        rw [parentOf_eq_some_iff.mpr ⟨above, by rw [hpath, List.concat_eq_append], hparent⟩] at hnone
        cases hnone
  · intro hpath
    refine Option.eq_none_iff_forall_ne_some.mpr fun found hfound => ?_
    obtain ⟨above, hsome, -⟩ := parentOf_eq_some_iff.mp hfound
    rw [hsome] at hpath
    simp at hpath

/-- A search by identity finds a node at the least place at which it stands, with its parent, the
innermost source file around it and its counterpart in another version, and finds nothing only if
there is nothing to be found. -/
theorem navigation_exact {α : Type} {s : Store α} (hforest : s.Forest [root, other, n]) :
    (∀ path, root.pathTo n.id = some path ↔ IsLeast {p | root.descend p = some n} path) ∧
      (root.pathTo n.id = none ↔ ∀ p, root.descend p ≠ some n) ∧
      (root.parentOf n = none ↔ (∀ p, root.descend p ≠ some n) ∨ n = root) ∧
      (∀ parent index, root.parentOf n = some (parent, index) → parent.children[index]? = some n ∧
        ∃ above, root.descend above = some parent ∧
          IsLeast {p | root.descend p = some n} (above ++ [index])) ∧
      (∀ unit, root.unitAround n = some unit ↔
        ∃ path, IsLeast {p | root.descend p = some n} path ∧ root.InnermostUnit path unit) ∧
      root.counterpart other n = (other.pathTo n.id).bind root.descend := by
  have hid : ∀ m ∈ root.preorder, m.id = n.id → m = n := fun m hm =>
    hforest.eq_program ⟨root, by simp, hm⟩ (by simp)
  refine ⟨fun path => pathTo_eq_some_iff_isLeast hid, pathTo_eq_none_iff hid, ?_,
    fun parent index hparent => ?_, fun unit => ?_, ?_⟩
  · rw [parentOf_eq_none_iff, pathTo_eq_none_iff hid, pathTo_eq_nil_iff hid, eq_comm (a := root)]
  · obtain ⟨above, hpath, habove⟩ := parentOf_eq_some_iff.mp hparent
    have hleast := (pathTo_eq_some_iff_isLeast hid).mp hpath
    refine ⟨?_, above, habove, hleast⟩
    have hn : root.descend (above ++ [index]) = some n := hleast.1
    rw [descend_append, habove, Option.bind_some] at hn
    obtain ⟨c, hc, hn⟩ := Option.bind_eq_some_iff.mp hn
    exact hc.trans hn
  · simp only [unitAround_eq_some_iff, pathTo_eq_some_iff_isLeast hid]
  · unfold counterpart
    split
    · next hsame =>
      obtain rfl := hforest.eq_program (.of_mem (by simp : root ∈ _)) (by simp) hsame
      cases hpath : root.pathTo n.id with
      | none => rfl
      | some path => exact ((pathTo_eq_some_iff_isLeast hid).mp hpath).1.symm
    · rfl

namespace Joint

/-- A statement that two source files share. -/
def step : Node := .make 1 .atomicStatement [.leaf 0 "step" ⟨1, 1⟩]

def plain : Node := .make 2 .file [step]

/-- A source file within another one. -/
def nested : Node := .make 4 .file [.make 3 .file [step]]

def before : Node := .make 5 .other [plain, nested]

/-- The files in the other order. -/
def after : Node := .make 6 .other [nested, plain]

def marks : Store Rat := ⟨Array.replicate 7 (.fresh [])⟩

theorem forest_versions : marks.Forest [before, after, step] := by
  refine .of_nodes [before, after, plain, nested, .make 3 .file [step], step,
    .leaf 0 "step" ⟨1, 1⟩] (by decide) (by decide) ?_
  have hstep : step.preorder = [step, .leaf 0 "step" ⟨1, 1⟩] := rfl
  have hplain : plain.preorder = plain :: step.preorder := rfl
  have hnested : nested.preorder = nested :: .make 3 .file [step] :: step.preorder := rfl
  have hbefore : before.preorder = before :: (plain.preorder ++ nested.preorder) := rfl
  have hafter : after.preorder = after :: (nested.preorder ++ plain.preorder) := rfl
  intro t ht
  simp only [List.mem_cons, List.not_mem_nil, or_false] at ht
  obtain rfl | rfl | rfl := ht
  · rw [hbefore, hplain, hnested, hstep]
    simp
  · rw [hafter, hplain, hnested, hstep]
    simp
  · rw [hstep]
    simp

end Joint

open Joint in
/-- In one version the plain file comes first, and in the other one the file within a file; what
stands there in the first version is a token. -/
theorem navigation_exact_joint : marks.Forest [before, after, step] ∧
    IsLeast {p | before.descend p = some step} [0, 0] ∧ before.descend [1, 0, 0] = some step ∧
    (∀ unit, after.unitAround step = some unit ↔
      ∃ path, IsLeast {p | after.descend p = some step} path ∧ after.InnermostUnit path unit) ∧
    after.unitAround step = some (.make 3 .file [step]) ∧
    before.counterpart after step = (after.pathTo step.id).bind before.descend ∧
    before.counterpart after step = some (.leaf 0 "step" ⟨1, 1⟩) := by
  have hforest' : marks.Forest [after, before, step] := forest_versions.subset (by simp)
  obtain ⟨hpath, -, -, -, -, hcounterpart⟩ := navigation_exact forest_versions
  obtain ⟨-, -, -, -, hunit, -⟩ := navigation_exact hforest'
  exact ⟨forest_versions, (hpath [0, 0]).mp (by decide), rfl, hunit, rfl, hcounterpart, rfl⟩

end Node

end GeneticRepair

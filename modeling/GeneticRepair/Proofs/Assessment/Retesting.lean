import GeneticRepair.Assessment.Retest
import GeneticRepair.Proofs.Collection.Keyed
import GeneticRepair.Proofs.Evolution.Descent
import GeneticRepair.Proofs.Suspicion.Covering

/-!
# `Proofs/Assessment/Retesting.lean` — what a retest plan may leave out

A plan leaves out a test class when none of the changed units has it among its covering classes.
That is safe because three things line up: units of two versions are matched by name, a unit of a
version has the covering classes of the unit it goes back to, and names tell the units apart. The
outcome is `unchanged_of_skipped`: of a class that is left out, all that it covers is unchanged.
-/

set_option autoImplicit false

namespace GeneticRepair

/-- The names of the compilation units of a program, place by place; `none` for one without. -/
def Store.unitNames {α : Type} [Scalar α] (s : Store α) (root : Node) : List (Option String) :=
  root.units.map fun u => s.attribute? u Attributes.fileName

theorem Store.Annotates.unitNames_eq {α : Type} [Scalar α] {s s' : Store α} (h : s.Annotates s')
    (root : Node) : s'.unitNames root = s.unitNames root :=
  List.map_congr_left fun u _ => h.attribute_eq u _

/-- A version has a unit with the name and the content of a given one. -/
def Unchanged {α : Type} [Scalar α] (s : Store α) (version unit : Node) : Prop :=
  ∃ u ∈ version.units,
    s.attribute? u Attributes.fileName = s.attribute? unit Attributes.fileName ∧
      unit.sameContent u = true

namespace RetestPlan

/-- Whether the tests of a class are run. -/
def reruns : RetestPlan → String → Bool
  | .inherit, _ => false
  | .retest selection _, testClass => selection.selects testClass

variable {α : Type} [Scalar α] {s : Store α}

/-! ## Units and their names -/

theorem named_spec {units : List Node} {pairs : List (String × Node)}
    (h : named s units = some pairs) :
    pairs.map (·.2) = units ∧
      ∀ e ∈ pairs, s.attribute? e.2 Attributes.fileName = some e.1 := by
  induction units generalizing pairs with
  | nil =>
    obtain rfl := Option.some.inj h
    exact ⟨rfl, nofun⟩
  | cons u units ih =>
    obtain ⟨name, hname, h⟩ := Option.bind_eq_some_iff.mp h
    obtain ⟨rest, hrest, h⟩ := Option.bind_eq_some_iff.mp h
    obtain rfl := Option.some.inj h
    obtain ⟨hunits, hnames⟩ := ih hrest
    refine ⟨by rw [List.map_cons, hunits], fun e he => ?_⟩
    obtain rfl | he := List.mem_cons.mp he
    · exact hname
    · exact hnames e he

theorem mem_named {units : List Node} {pairs : List (String × Node)} {u : Node}
    (h : named s units = some pairs) (hu : u ∈ units) :
    ∃ name, (name, u) ∈ pairs ∧ s.attribute? u Attributes.fileName = some name := by
  obtain ⟨hunits, hnames⟩ := named_spec h
  rw [← hunits] at hu
  obtain ⟨⟨name, _⟩, he, rfl⟩ := List.mem_map.mp hu
  exact ⟨name, he, hnames _ he⟩

theorem nodup_named {units : List Node} {pairs : List (String × Node)}
    (h : named s units = some pairs)
    (hn : (units.map fun u => s.attribute? u Attributes.fileName).Nodup) :
    (pairs.map (·.1)).Nodup := by
  obtain ⟨hunits, hnames⟩ := named_spec h
  rw [← hunits, List.map_map] at hn
  have hsome : pairs.map ((fun u => s.attribute? u Attributes.fileName) ∘ (·.2)) =
      (pairs.map (·.1)).map some := by
    rw [List.map_map]
    exact List.map_congr_left hnames
  rw [hsome] at hn
  exact List.Nodup.of_map some hn

/-! ## Changed units -/

theorem mem_changedAmong {before now : List (String × Node)} {changed : List Node} {name : String}
    {u old : Node} (h : changedAmong before now = some changed) (hu : (name, u) ∈ now)
    (hold : before.reverse.lookup name = some old) : old.sameContent u = true ∨ u ∈ changed := by
  induction now generalizing changed with
  | nil => cases hu
  | cons e now ih =>
    obtain ⟨name', u'⟩ := e
    obtain ⟨old', hold', h⟩ := Option.bind_eq_some_iff.mp h
    obtain ⟨rest, hrest, h⟩ := Option.bind_eq_some_iff.mp h
    obtain rfl := Option.some.inj h
    obtain heq | hu := List.mem_cons.mp hu
    · obtain ⟨rfl, rfl⟩ := Prod.mk.inj heq
      obtain rfl : old = old' := Option.some.inj (hold.symm.trans hold')
      by_cases hsame : old.sameContent u = true
      · exact Or.inl hsame
      · rw [if_neg hsame]
        exact Or.inr List.mem_cons_self
    · obtain hsame | hmem := ih hrest hu
      · exact Or.inl hsame
      · refine Or.inr ?_
        split
        · exact hmem
        · exact List.mem_cons_of_mem _ hmem

/-- Units of one name that differ are found. -/
theorem mem_changedUnits {root version : Node} {changed : List Node} {u old : Node}
    (h : changedUnits s root version = some changed) (hid : root.id ≠ version.id)
    (hn : (s.unitNames root).Nodup) (hold : old ∈ root.units) (hu : u ∈ version.units)
    (hname : s.attribute? u Attributes.fileName = s.attribute? old Attributes.fileName) :
    old.sameContent u = true ∨ u ∈ changed := by
  unfold changedUnits at h
  rw [if_neg hid] at h
  obtain ⟨before, hbefore, h⟩ := Option.bind_eq_some_iff.mp h
  simp only [] at h
  split at h
  · obtain ⟨now, hnow, h⟩ := Option.bind_eq_some_iff.mp h
    obtain ⟨name, hmem, hattribute⟩ := mem_named hbefore hold
    obtain ⟨name', hmem', hattribute'⟩ := mem_named hnow hu
    obtain rfl : name' = name := by
      rw [hattribute, hattribute'] at hname
      exact Option.some.inj hname
    have hlookup := (lookup_reverse_eq_some_iff_mem (nodup_named hbefore hn)).mpr hmem
    exact mem_changedAmong h hmem' hlookup
  · cases h

theorem mem_coveringClasses {units : List Node} {classes : SortedSet String} {u : Node}
    {testClass : String} (h : coveringClasses s units = some classes) (hu : u ∈ units)
    (hc : s.CoveredBy u.id testClass) : testClass ∈ classes := by
  induction units generalizing classes with
  | nil => cases hu
  | cons u' units ih =>
    obtain ⟨covering, hcovering, h⟩ := Option.bind_eq_some_iff.mp h
    obtain ⟨rest, hrest, h⟩ := Option.bind_eq_some_iff.mp h
    obtain rfl := Option.some.inj h
    rw [SortedSet.mem_union]
    obtain rfl | hu := List.mem_cons.mp hu
    · obtain ⟨covering', hcovering', hmem⟩ := hc
      obtain rfl : covering' = covering := Option.some.inj (hcovering'.symm.trans hcovering)
      exact Or.inl hmem
    · exact Or.inr (ih hrest hu)

/-! ## What is left out -/

/-- The units of the program keep their names. -/
theorem attribute_unit_eq {base : Store α} {root u : Node} (hgrown : base.Extends s)
    (hroot : base.Holds root) (hu : u ∈ root.units) (name : String) :
    s.attribute? u name = base.attribute? u name := by
  unfold Store.attribute?
  rw [hgrown.mark_eq u.id (hroot u (List.mem_filter.mp hu).1)]

theorem unitNames_root_eq {base : Store α} {root : Node} (hgrown : base.Extends s)
    (hroot : base.Holds root) : s.unitNames root = base.unitNames root :=
  List.map_congr_left fun _ hu => attribute_unit_eq hgrown hroot hu _

/-- A unit of a version has the covering classes of the unit of that name that it goes back to. -/
theorem coveredBy_of_descends {base : Store α} {root version u old : Node} {testClass : String}
    (hgrown : base.Extends s) (hroot : base.Holds root) (hd : Descends base root s version)
    (hn : (base.unitNames root).Nodup) (hold : old ∈ root.units) (hu : u ∈ version.units)
    (hname : s.attribute? u Attributes.fileName = s.attribute? old Attributes.fileName)
    (hc : base.CoveredBy old.id testClass) : s.CoveredBy u.id testClass := by
  obtain ⟨hmem, hkind⟩ := List.mem_filter.mp hu
  obtain ⟨w, hw, hwkind, hattributes, hcovered⟩ := (hd.traced u hmem).origin
  have hunit : w ∈ root.units := List.mem_filter.mpr ⟨hw, hwkind ▸ hkind⟩
  have hsame : base.attribute? w Attributes.fileName = base.attribute? old Attributes.fileName := by
    rw [← attribute_unit_eq hgrown hroot hold, ← hname]
    unfold Store.attribute?
    rw [hattributes]
  obtain rfl : w = old := List.inj_on_of_nodup_map hn hunit hold hsame
  rw [Store.CoveredBy, hcovered]
  exact hc

/-- The classes that cover a unit are left out only if the unit has the content it had. -/
theorem sameContent_of_skipped {policy : FitnessPolicy α} {root : Node} {v : Variant α}
    {u old : Node} {testClass : String} (hid : root.id ≠ v.root.id) (hn : (s.unitNames root).Nodup)
    (hold : old ∈ root.units) (hu : u ∈ v.root.units)
    (hname : s.attribute? u Attributes.fileName = s.attribute? old Attributes.fileName)
    (hc : s.CoveredBy u.id testClass)
    (hskipped : (choose policy s root v).reruns testClass = false) : old.sameContent u = true := by
  unfold choose at hskipped
  -- a plan that runs every class leaves none out
  split at hskipped
  · cases hskipped
  · split at hskipped
    · cases hskipped
    · split at hskipped
      · cases hskipped
      · next hchanged =>
        obtain hsame | hmem := mem_changedUnits hchanged hid hn hold hu hname
        · exact hsame
        · cases hmem
      · next changed _ hchanged =>
        obtain hsame | hmem := mem_changedUnits hchanged hid hn hold hu hname
        · exact hsame
        · split at hskipped
          · cases hskipped
          · next classes hclasses =>
            have hrun : testClass ∈ classes := mem_coveringClasses hclasses hmem hc
            exact absurd hskipped (by simpa [reruns, Selection.selects, Selection.ofClasses])

theorem unchanged_of_skipped {policy : FitnessPolicy α} {base : Store α} {root : Node}
    {v : Variant α} {old : Node} {testClass : String} (hgrown : base.Extends s)
    (hroot : base.Holds root) (hd : Descends base root s v.root)
    (hn : (base.unitNames root).Nodup) (hp : (s.unitNames v.root).Perm (base.unitNames root))
    (hskipped : (choose policy s root v).reruns testClass = false) (hold : old ∈ root.units)
    (hc : base.CoveredBy old.id testClass) : Unchanged s v.root old := by
  by_cases hid : root.id = v.root.id
  · -- a version with the identity of the program is the program
    obtain heq | hnew := hd.new
    · refine ⟨old, ?_, rfl, old.sameContent_self⟩
      rw [heq]
      exact hold
    · exact absurd (hid ▸ hroot root (Node.self_mem_preorder root)) (Nat.not_lt_of_le hnew)
  · have hn' : (s.unitNames root).Nodup := by
      rw [unitNames_root_eq hgrown hroot]
      exact hn
    obtain ⟨u, hu, hname⟩ : ∃ u ∈ v.root.units,
        s.attribute? u Attributes.fileName = base.attribute? old Attributes.fileName :=
      List.mem_map.mp (hp.mem_iff.mpr (List.mem_map_of_mem hold))
    rw [← attribute_unit_eq hgrown hroot hold] at hname
    have hcovered : s.CoveredBy u.id testClass :=
      coveredBy_of_descends hgrown hroot hd hn hold hu hname hc
    exact ⟨u, hu, hname, sameContent_of_skipped hid hn' hold hu hname hcovered hskipped⟩

end RetestPlan

end GeneticRepair

import GeneticRepair.Proofs.Assessment.Evaluation
import GeneticRepair.Proofs.Assessment.Retesting
import Mathlib.Data.List.Perm.Subperm

/-!
# `Proofs/Assessment/Skipping.lean` — evaluations without a test run

A variant inherits the outcome of the program under repair when their compilation units agree, which
are looked up by name and counted. If the names tell the units of either program apart, that is
enough to match them one to one. What lies outside the units is not compared.

* `skips_iff`: when an evaluation gets by without a test run, and what it then says.
* `not_sameContent_of_skips`: a statement outside the units that nobody misses.
-/

set_option autoImplicit false

namespace GeneticRepair

/-- The names of the compilation units of a program, of those that have one. -/
def Store.fileNames {α : Type} [Scalar α] (s : Store α) (root : Node) : List String :=
  root.units.filterMap fun u => s.attribute? u Attributes.fileName

/-- The units of two programs have the same names, and those of one name have the same content. -/
structure SameUnits {α : Type} [Scalar α] (s : Store α) (root version : Node) : Prop where
  named : none ∉ s.unitNames root
  perm : (s.unitNames version).Perm (s.unitNames root)
  content : ∀ old ∈ root.units, ∀ u ∈ version.units,
    s.attribute? u Attributes.fileName = s.attribute? old Attributes.fileName →
      old.sameContent u = true

/-- The executor, with a count of its test runs beside its memory. -/
def Executor.counted {α ω : Type} (executor : Executor α ω) : Executor α (ω × Nat) where
  run root selection dir s before :=
    let (outcome, disk, memory) := executor.run root selection dir s (before.1, before.2.1)
    (outcome, disk, memory, before.2.2 + 1)

/-- A set that is read off a list without repetitions has as many members as the list. -/
theorem SortedSet.size_ofList {l : List String} (hn : l.Nodup) :
    (SortedSet.ofList l).size = l.length := by
  have hperm : (SortedSet.ofList l).toList.Perm l :=
    (List.perm_ext_iff_of_nodup (SortedSet.nodup_toList _) hn).mpr fun name => by
      rw [← SortedSet.mem_iff, SortedSet.mem_ofList]
  exact hperm.length_eq

namespace RetestPlan

variable {α : Type} [Scalar α] {s : Store α} {root version : Node}

/-! ## Units and their names -/

theorem unitNames_of_named {pairs : List (String × Node)} (h : named s root.units = some pairs) :
    s.unitNames root = (pairs.map (·.1)).map some := by
  obtain ⟨hunits, hnames⟩ := named_spec h
  rw [Store.unitNames, ← hunits, List.map_map, List.map_map]
  exact List.map_congr_left hnames

theorem fileNames_of_named {pairs : List (String × Node)} (h : named s root.units = some pairs) :
    s.fileNames root = pairs.map (·.1) := by
  have hfilter : s.fileNames root = (s.unitNames root).filterMap id := by
    rw [Store.unitNames, List.filterMap_map]
    rfl
  rw [hfilter, unitNames_of_named h, List.filterMap_map]
  exact List.filterMap_some

theorem exists_named {units : List Node}
    (h : none ∉ units.map fun u => s.attribute? u Attributes.fileName) :
    ∃ pairs, named s units = some pairs := by
  induction units with
  | nil => exact ⟨[], rfl⟩
  | cons u units ih =>
    rw [List.map_cons, List.mem_cons, not_or] at h
    obtain ⟨name, hname⟩ := Option.ne_none_iff_exists'.mp (Ne.symm h.1)
    obtain ⟨rest, hrest⟩ := ih h.2
    exact ⟨(name, u) :: rest, by rw [named, hname, hrest]; rfl⟩

/-! ## No unit has changed -/

theorem changedAmong_eq_nil_iff {before now : List (String × Node)} :
    changedAmong before now = some [] ↔
      ∀ e ∈ now, ∃ old, before.reverse.lookup e.1 = some old ∧ old.sameContent e.2 = true := by
  induction now with
  | nil => exact iff_of_true rfl nofun
  | cons e now ih =>
    obtain ⟨name, u⟩ := e
    rw [List.forall_mem_cons, ← ih]
    constructor
    · intro h
      obtain ⟨old, hold, h⟩ := Option.bind_eq_some_iff.mp h
      obtain ⟨rest, hrest, h⟩ := Option.bind_eq_some_iff.mp h
      have hnil := Option.some.inj h
      split at hnil
      · next hsame => exact ⟨⟨old, hold, hsame⟩, hnil ▸ hrest⟩
      · cases hnil
    · rintro ⟨⟨old, hold, hsame⟩, hrest⟩
      simp only [] at hold hsame
      rw [changedAmong, hold, hrest]
      simp [hsame]

/-- As many names as before, and none of them new. -/
theorem perm_of_changedAmong {before now : List (String × Node)}
    (h : changedAmong before now = some []) (hn : (now.map (·.1)).Nodup)
    (hlength : now.length = before.length) : (now.map (·.1)).Perm (before.map (·.1)) := by
  have hsub : now.map (·.1) ⊆ before.map (·.1) := by
    intro name hname
    obtain ⟨e, he, rfl⟩ := List.mem_map.mp hname
    obtain ⟨old, hold, -⟩ := changedAmong_eq_nil_iff.mp h e he
    exact List.mem_map.mpr ⟨(e.1, old), List.mem_reverse.mp (mem_of_lookup hold), rfl⟩
  refine (List.subperm_of_subset hn hsub).perm_of_length_le ?_
  rw [List.length_map, List.length_map, hlength]

theorem sameUnits_of_changedUnits (hid : root.id ≠ version.id) (hn : (s.fileNames root).Nodup)
    (hn' : (s.fileNames version).Nodup) (h : changedUnits s root version = some []) :
    SameUnits s root version := by
  rw [changedUnits, if_neg hid] at h
  obtain ⟨before, hbefore, h⟩ := Option.bind_eq_some_iff.mp h
  rw [fileNames_of_named hbefore] at hn
  simp only [SortedSet.size_ofList hn] at h
  split at h
  · next hlength =>
    obtain ⟨now, hnow, h⟩ := Option.bind_eq_some_iff.mp h
    rw [fileNames_of_named hnow] at hn'
    rw [← (named_spec hnow).1, List.length_map, List.length_map] at hlength
    refine ⟨?_, ?_, fun old hold u hu hname => ?_⟩
    · rw [unitNames_of_named hbefore]
      simp
    · rw [unitNames_of_named hbefore, unitNames_of_named hnow]
      exact (perm_of_changedAmong h hn' hlength).map some
    · obtain ⟨name, hmem, hattribute⟩ := mem_named hbefore hold
      obtain ⟨name', hmem', hattribute'⟩ := mem_named hnow hu
      obtain rfl : name' = name := by
        rw [hattribute, hattribute'] at hname
        exact Option.some.inj hname
      obtain ⟨old', hlookup, hcontent⟩ := changedAmong_eq_nil_iff.mp h _ hmem'
      obtain rfl := eq_of_mem_of_nodup_keys hn hmem (List.mem_reverse.mp (mem_of_lookup hlookup))
      exact hcontent
  · cases h

theorem changedUnits_of_sameUnits (hid : root.id ≠ version.id) (hn : (s.fileNames root).Nodup)
    (h : SameUnits s root version) : changedUnits s root version = some [] := by
  obtain ⟨before, hbefore⟩ := exists_named h.named
  obtain ⟨now, hnow⟩ := exists_named fun hnone => h.named (h.perm.mem_iff.mp hnone)
  have hperm := h.perm
  rw [unitNames_of_named hbefore, unitNames_of_named hnow] at hperm
  rw [fileNames_of_named hbefore] at hn
  obtain ⟨hunits, hnames⟩ := named_spec hbefore
  obtain ⟨hunits', hnames'⟩ := named_spec hnow
  have hlength : version.units.length = (before.map (·.1)).length := by
    rw [← hunits', List.length_map, List.length_map]
    simpa using hperm.length_eq
  rw [changedUnits, if_neg hid, hbefore]
  simp only [Option.bind_eq_bind, Option.bind_some]
  rw [if_pos (hlength.trans (SortedSet.size_ofList hn).symm), hnow]
  refine changedAmong_eq_nil_iff.mpr fun e he => ?_
  -- the name of a unit is that of one before, which has its content
  have hname : some e.1 ∈ (before.map (·.1)).map some :=
    hperm.mem_iff.mp (List.mem_map_of_mem (List.mem_map_of_mem he))
  obtain ⟨name, hname, heq⟩ := List.mem_map.mp hname
  obtain ⟨⟨_, old⟩, hmem, rfl⟩ := List.mem_map.mp hname
  obtain rfl := Option.some.inj heq
  refine ⟨old, (lookup_reverse_eq_some_iff_mem hn).mpr hmem, h.content old ?_ e.2 ?_ ?_⟩
  · exact hunits ▸ List.mem_map_of_mem hmem
  · exact hunits' ▸ List.mem_map_of_mem he
  · exact (hnames' e he).trans (hnames _ hmem).symm

theorem choose_eq_inherit_iff {policy : FitnessPolicy α} {v : Variant α} :
    choose policy s root v = .inherit ↔
      v.stale = false ∧ policy.incremental = true ∧ changedUnits s root v.root = some [] := by
  constructor
  · intro h
    unfold choose at h
    split at h
    · cases h
    · next hstale =>
      split at h
      · cases h
      · next hpolicy =>
        split at h
        · cases h
        · next hnone => exact ⟨by simpa using hstale, by simpa using hpolicy, hnone⟩
        · split at h
          · cases h
          · cases h
  · rintro ⟨hstale, hpolicy, hnone⟩
    rw [choose, hstale, hpolicy, hnone]
    rfl

end RetestPlan

namespace Bench

variable {α ω : Type} {executor : Executor α ω} {v : Variant α} {b b' : Bench α (ω × Nat)}
  {base : Baseline α}

/-! ## Test runs are counted -/

theorem memory_of_trial {id : Nat} {root : Node} {selection : Selection}
    {outcome : Except TestRunError TestRun}
    (h : b.trial executor.counted id root selection = (.ok outcome, b')) :
    b'.memory.2 = b.memory.2 + 1 := by
  rw [trial] at h
  split at h
  · cases h
  · simp only [] at h
    split at h
    · cases h
    · obtain ⟨-, rfl⟩ := Prod.mk.inj h
      rfl

variable [Scalar α] [Root α]

theorem memory_relocalize (wanted : Bool) (run : TestRun) (v : Variant α)
    (b : Bench α (ω × Nat)) : (b.relocalize wanted run v).2.memory = b.memory := by
  rw [relocalize, localize]
  split
  · split
    · rfl
    · rfl
  · rfl

/-- An evaluation comes to a fitness without running a test. -/
def Skips (executor : Executor α ω) (v : Variant α) (b : Bench α (ω × Nat)) : Prop :=
  (∃ answer, (b.evaluate executor.counted v).1 = .ok answer) ∧
    (b.evaluate executor.counted v).2.memory.2 = b.memory.2

theorem evaluate_of_inherit (hb : b.evaluator.baseline = some base)
    (hplan : RetestPlan.choose b.evaluator.policy b.store base.root v = .inherit) :
    b.evaluate executor.counted v =
      (.ok (⟨base.fitness, base.tests.negative, 0, true, none⟩,
        v.assess base.fitness base.tests.negative), b.count) := by
  have hev := evaluation executor.counted v hb
  generalize b.evaluate executor.counted v = answer at hev
  cases hev with
  | inherited _ => rfl
  | unstored plan _ => exact absurd (hplan.symm.trans plan) nofun
  | refused plan _ _ => exact absurd (hplan.symm.trans plan) nofun
  | collapsed plan _ _ => exact absurd (hplan.symm.trans plan) nofun
  | scored plan _ _ => exact absurd (hplan.symm.trans plan) nofun

theorem skips_iff_inherit (hb : b.evaluator.baseline = some base) :
    b.Skips executor v ↔
      RetestPlan.choose b.evaluator.policy b.store base.root v = .inherit := by
  constructor
  · rintro ⟨⟨answer, hanswer⟩, hcount⟩
    have hev := evaluation executor.counted v hb
    generalize b.evaluate executor.counted v = found at hev hanswer hcount
    cases hev with
    | inherited plan => exact plan
    | unstored _ _ => cases hanswer
    | refused _ _ _ => cases hanswer
    | collapsed _ trial _ =>
      exact absurd (hcount.symm.trans (memory_of_trial trial)) (Nat.ne_of_lt (Nat.lt_succ_self _))
    | scored _ trial _ =>
      rw [memory_relocalize] at hcount
      exact absurd (hcount.symm.trans (memory_of_trial trial)) (Nat.ne_of_lt (Nat.lt_succ_self _))
  · intro hplan
    rw [Skips, evaluate_of_inherit hb hplan]
    exact ⟨⟨_, rfl⟩, rfl⟩

/-- If file names tell units apart, an evaluation runs no test exactly when the variant is the
program under repair or has units of the same names and contents, unless all tests are wanted in any
case. It then says what the first run said. -/
theorem skips_iff (hb : b.evaluator.baseline = some base)
    (hn : (b.store.fileNames base.root).Nodup) (hn' : (b.store.fileNames v.root).Nodup) :
    (b.Skips executor v ↔ v.stale = false ∧ b.evaluator.policy.incremental = true ∧
        (base.root.id = v.root.id ∨ SameUnits b.store base.root v.root)) ∧
      (b.Skips executor v → b.evaluate executor.counted v =
        (.ok (⟨base.fitness, base.tests.negative, 0, true, none⟩,
          v.assess base.fitness base.tests.negative), b.count)) := by
  refine ⟨?_, fun h => evaluate_of_inherit hb ((skips_iff_inherit hb).mp h)⟩
  have hunits : RetestPlan.changedUnits b.store base.root v.root = some [] ↔
      base.root.id = v.root.id ∨ SameUnits b.store base.root v.root := by
    by_cases hid : base.root.id = v.root.id
    · rw [RetestPlan.changedUnits, if_pos hid]
      exact iff_of_true rfl (Or.inl hid)
    · rw [or_iff_right hid]
      exact ⟨RetestPlan.sameUnits_of_changedUnits hid hn hn',
        RetestPlan.changedUnits_of_sameUnits hid hn⟩
  rw [skips_iff_inherit hb, RetestPlan.choose_eq_inherit_iff, hunits]

end Bench

/-! ## A statement beside a unit -/

namespace StrayStatement

def unit : Node := .make 2 .file [.make 1 .typeDeclaration [.leaf 0 "x" ⟨1, 1⟩]]

/-- The statement that the test needs. -/
def stray : Node := .make 4 .atomicStatement [.leaf 3 "y" ⟨1, 1⟩]

def program : Node := .make 5 .other [unit, stray]

def shortened : Node := .make 6 .other [unit]

def marks : Store Rat :=
  ⟨#[.fresh [], .fresh [], .fresh [(Attributes.fileName, "a")], .fresh [], .fresh [], .fresh [],
    .fresh []]⟩

/-- One test, which passes on programs with a statement. -/
def results (root : Node) : List TestResult :=
  [⟨⟨"Test", "works"⟩, if root.statements.isEmpty then some ⟨"broken", none⟩ else none⟩]

def executor : Executor Rat Unit where
  run root _ _ _ before := (.ok ⟨results root, none⟩, before)

def bench : Bench Rat (Unit × Nat) := ⟨.new .standard .keepAll, marks, ⟨[]⟩, (), 0⟩

/-- The first run sees the test pass, and records no coverage. -/
theorem establish_program [Root Rat] :
    ∃ b a base, bench.establish executor.counted program = (.ok a, b) ∧
      b.evaluator.baseline = some base ∧ base.root = program ∧ b.store = marks ∧
      b.evaluator.policy = .standard := by
  obtain ⟨disk, -, htrial⟩ : ∃ disk : Disk, disk.Fileless ∧
      bench.trial executor.counted 0 program (.everything true) =
        (.ok (.ok ⟨results program, none⟩), { bench with disk := disk, memory := ((), 1) }) :=
    Bench.trial_of_fileless Disk.fileless_empty (fun _ _ => rfl) 0
  have hnodup : ((results program).map (·.id)).Nodup := by decide
  obtain ⟨u, hrecorded, -⟩ := Universe.ofFirstRun_of_nodup hnodup
  have hestablish := Bench.establish_of_trial (by decide) htrial hrecorded (by decide)
  exact ⟨_, _, _, hestablish, rfl, rfl, rfl, rfl⟩

theorem fileNames_program : marks.fileNames program = ["a"] := by
  decide

theorem fileNames_shortened : marks.fileNames shortened = ["a"] := by
  decide

end StrayStatement

open StrayStatement in
/-- The unit is in both programs. -/
theorem skips_iff_shortened :
    ∃ (_ : Root Rat) (b : Bench Rat (Unit × Nat)) (base : Baseline Rat),
      b.evaluator.baseline = some base ∧ (b.store.fileNames base.root).Nodup ∧
        (b.store.fileNames shortened).Nodup ∧
        (b.Skips executor (.new 1 shortened) ↔
          (Variant.new 1 shortened : Variant Rat).stale = false ∧
            b.evaluator.policy.incremental = true ∧
            (base.root.id = shortened.id ∨ SameUnits b.store base.root shortened)) ∧
        (b.Skips executor (.new 1 shortened) → b.evaluate executor.counted (.new 1 shortened) =
          (.ok (⟨base.fitness, base.tests.negative, 0, true, none⟩,
            (Variant.new 1 shortened).assess base.fitness base.tests.negative), b.count)) := by
  let _ : Root Rat := ⟨fun q => (q.num.toNat.sqrt : Rat) / (q.den.sqrt : Rat)⟩
  obtain ⟨b, -, base, -, hbase, hroot, hstore, -⟩ := establish_program
  have hn : (b.store.fileNames base.root).Nodup := by
    rw [hroot, hstore, fileNames_program]
    decide
  have hn' : (b.store.fileNames shortened).Nodup := by
    rw [hstore, fileNames_shortened]
    decide
  exact ⟨inferInstance, b, base, hbase, hn, hn', Bench.skips_iff hbase hn hn'⟩

open StrayStatement in
/-- The test of the statement is not run on the program without it. -/
theorem not_sameContent_of_skips :
    ¬ ∀ (_ : Root Rat) (executor : Executor Rat Unit) (root : Node)
        (b₀ b : Bench Rat (Unit × Nat)) (a : Assessment Rat) (v : Variant Rat),
      b₀.establish executor.counted root = (.ok a, b) → b.Skips executor v →
        root.sameContent v.root = true := by
  intro hclaim
  let hroots : Root Rat := ⟨fun q => (q.num.toNat.sqrt : Rat) / (q.den.sqrt : Rat)⟩
  obtain ⟨b, a, base, hestablish, hbase, hroot, hstore, hpolicy⟩ := establish_program
  have hskips : b.Skips executor (.new 1 shortened) := by
    rw [Bench.skips_iff_inherit hbase, hroot, hstore, hpolicy]
    decide
  have hdiffer : program.sameContent shortened = false := by decide
  have hsame := hclaim hroots executor program bench b a (.new 1 shortened) hestablish hskips
  exact absurd (hdiffer.symm.trans hsame) (by decide)

end GeneticRepair

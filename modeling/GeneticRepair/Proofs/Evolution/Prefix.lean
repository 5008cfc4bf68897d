import Mathlib.Algebra.Order.Field.Rat
import GeneticRepair.Numeric.Rational
import GeneticRepair.Proofs.Evolution.Glances
import GeneticRepair.Proofs.Evolution.Lockstep
import GeneticRepair.Proofs.Evolution.Reordered
import GeneticRepair.Proofs.Syntax.Contents
import GeneticRepair.Proofs.Syntax.Forest

/-!
# `Proofs/Evolution/Prefix.lean` — a shorter run is the beginning of a longer one

A run that is cancelled before a generation has done the same as a run that was to end there. Next
to each other, with programs that are alike, the two stay in step to the end (`iterate_inStep`): the
number of generations and the flag have an influence on nothing but the way out of the loop.

Side by side the two do their batches in the same order. If they do not, a run in between has the
order of the one and the program of the other; without an oracle it comes to the same as either.

* `run_parts`: the reports of the two runs say the same, but for the outcome.
* `not_run_parts`: this takes more than programs that compare equal and carry equal marks.
-/

set_option autoImplicit false

namespace GeneticRepair

namespace Search

variable {α ω : Type} [Scalar α] [Root α]
  {like : Disk → Disk → Prop} {p : Pairing} {surplus limit : Nat}
  {c c' : Collaborators α ω}

/-- Two runs do their batches in the same order, if they do batches at all. -/
def SameOrder (settings : Settings α) (c c' : Collaborators α ω) : Prop :=
  settings.parallel = true → c'.schedule = c.schedule

/-- Two runs stay in step, if the flag of the first one is seen set after as many generations as the
second one has. -/
theorem iterate_inStep (hc : c.InStep like c') (settings : Settings α)
    (horder : SameOrder settings c c')
    (hmore : settings.maxGenerations = limit + surplus) (hlimit : limit ≠ 0)
    (hsurplus : 0 < surplus) {root root' : Node} (hroot : Node.Alike p root root')
    {s s' : Search α ω} (hs : Search.Alike like p s s')
    (hflag : Sees settings c root s fun generation => decide (limit < generation))
    (hflag' : Sees { settings with maxGenerations := limit } c' root' s' fun _ => false)
    (n : Nat) :
    let m := (step settings c)^[n] (start root s)
    let m' := (step { settings with maxGenerations := limit } c')^[n] (start root' s')
    ∃ q, p ≤ q ∧ Search.Alike like q m.search m'.search ∧
      Stage.InStep surplus limit q m.stage m'.stage := by
  induction n with
  | zero => exact ⟨p, le_refl p, hs, .fresh hroot⟩
  | succ n ih =>
    obtain ⟨q, hpq, hsearch, hstage⟩ := ih
    rw [Function.iterate_succ_apply', Function.iterate_succ_apply']
    obtain ⟨r, hqr, hnext⟩ := next_inStep hc settings horder hmore hlimit hsurplus hstage hsearch
      (fun course population hm hleft => hflag n _ _ (glance_between hm hleft))
      (fun course population hm hleft => hflag' n _ _ (glance_between hm hleft))
    exact ⟨r, hpq.trans hqr, hnext⟩

/-- In the same order, the two runs go side by side to the end. -/
theorem parted_of_sameOrder (hc : c.InStep like c') (settings : Settings α)
    (horder : SameOrder settings c c') {g : Nat} (hpos : 1 ≤ g)
    (hless : g < settings.maxGenerations) {policy : FitnessPolicy α}
    {suspicion : SuspicionPolicy α} {root root' : Node} (hroot : Node.Alike p root root')
    {b b' : Bench α ω} (hnew : b.evaluator = .new policy suspicion)
    (hnew' : b'.evaluator = .new policy suspicion) (hstore : p.Aligns b.store b'.store)
    (hdisk : like b.disk b'.disk)
    (hflag : Sees settings c root (.new b) fun generation => decide (g < generation))
    (hflag' : Sees { settings with maxGenerations := g } c' root' (.new b') fun _ => false) :
    let long := run settings c root (.new b)
    let short := run { settings with maxGenerations := g } c' root' (.new b')
    ∃ q, p ≤ q ∧ Parted q long.1 short.1 ∧ Search.Alike like q long.2 short.2 := by
  have hevaluator : Evaluator.Alike p b.evaluator b'.evaluator := by
    rw [hnew, hnew']
    exact ⟨rfl, rfl, .none, .none, rfl⟩
  have hsearch : Search.Alike like p (.new b) (.new b') :=
    ⟨⟨hevaluator, hstore, hdisk⟩, rfl, rfl, rfl⟩
  -- at the later one of the two ends both runs are over
  obtain ⟨last, hlast⟩ := exists_over settings c root (.new b)
  obtain ⟨last', hlast'⟩ :=
    exists_over { settings with maxGenerations := g } c' root' (.new b')
  obtain ⟨hsame, hover⟩ := hlast (max last last') (le_max_left _ _)
  obtain ⟨hsame', hover'⟩ := hlast' (max last last') (le_max_right _ _)
  obtain ⟨q, hpq, halike, hstages⟩ := iterate_inStep hc settings horder
    (Nat.add_sub_of_le (Nat.le_of_lt hless)).symm (Nat.one_le_iff_ne_zero.mp hpos)
    (Nat.sub_pos_of_lt hless) hroot hsearch hflag hflag' (max last last')
  rw [hover, hover'] at hstages
  rw [hsame, hsame'] at halike
  cases hstages with
  | ended parted => exact ⟨q, hpq, parted, halike⟩

/-! ## Another order -/

omit [Root α] in
/-- Searches stay alike if one of them gets another disk and another memory, as far as nothing is
asked of the disks. -/
theorem Alike.apart {s s' s'' : Search α ω} (h : Search.Alike like p s s') (happart : Apart s' s'')
    {like' : Disk → Disk → Prop} (hdisks : ∀ d d', like' d d') : Search.Alike like' p s s'' := by
  obtain ⟨disk, memory, rfl, -⟩ := happart
  exact ⟨⟨h.bench.evaluator, h.bench.store, hdisks _ _⟩, h.rng_eq, h.nextId_eq, h.stats_eq⟩

/-- In another order the two runs part in the same way, if there is no oracle and storage holds. -/
theorem parted_of_reordered (hc : c.InStep like c') {settings : Settings α}
    (hparallel : settings.parallel = true) (horacle : c.oracle = none)
    {replies : Node → Selection → ScratchFolder → Store α → Except TestRunError TestRun}
    (hreplies : c.executor.AnswersBy replies) {g : Nat} (hpos : 1 ≤ g)
    (hless : g < settings.maxGenerations) {policy : FitnessPolicy α}
    {suspicion : SuspicionPolicy α} {root root' : Node} (hroot : Node.Alike p root root')
    {b b' : Bench α ω} (hnew : b.evaluator = .new policy suspicion)
    (hnew' : b'.evaluator = .new policy suspicion) (hstore : p.Aligns b.store b'.store)
    (hdisk : like b.disk b'.disk)
    (hflag : Sees settings c root (.new b) fun generation => decide (g < generation))
    (hflag' : Sees { settings with maxGenerations := g } c' root' (.new b') fun _ => false)
    (hlong : ¬ Unstored (run settings c root (.new b)).1)
    (hshort : ¬ Unstored (run { settings with maxGenerations := g } c' root' (.new b')).1)
    {like' : Disk → Disk → Prop} (hdisks : ∀ d d', like' d d') :
    let long := run settings c root (.new b)
    let short := run { settings with maxGenerations := g } c' root' (.new b')
    ∃ q, p ≤ q ∧ Parted q long.1 short.1 ∧ Search.Alike like' q long.2 short.2 := by
  -- the run in between has the program of the second one and the order of the first one
  let mid : Collaborators α ω := { c'.unflagged with schedule := c.schedule }
  have hmid : c.InStep like mid := ⟨hc.disks, hc.executor, hc.executor_eq, hc.oracle, hc.oracle_eq,
    hc.seed_eq⟩
  have horacle' : c'.oracle = none := hc.oracle_eq.trans horacle
  have hreordered : mid.Reordered c'.unflagged replies := by
    refine ⟨?_, rfl, horacle', horacle', rfl, fun _ => rfl, fun _ => rfl⟩
    show c'.executor.AnswersBy replies
    rw [hc.executor_eq]
    exact hreplies
  intro long short
  obtain ⟨q, hpq, hparted, halike⟩ := parted_of_sameOrder hmid settings (fun _ => rfl) hpos hless
    hroot hnew hnew' hstore hdisk hflag (sees_of_uncancelled (fun _ => rfl) _ _ _)
  have hbatches : { settings with maxGenerations := g }.parallel = true := hparallel
  have hmatched := matched_run hreordered hbatches root' (.new b')
  rw [run_unflagged hflag'] at hmatched
  obtain ⟨fault, hfault⟩ | hfails | ⟨hsame, happart⟩ := hmatched
  · -- what fails in between fails in the first run, too
    rw [hfault] at hparted
    generalize hanswer : (run settings c root (.new b)).1 = answer at hparted
    cases hparted with
    | failed => exact absurd ⟨fault, hanswer⟩ hlong
  · exact absurd hfails hshort
  · refine ⟨q, hpq, ?_, Alike.apart halike happart hdisks⟩
    rw [show short.1 = _ from hsame]
    exact hparted

/-- A run of which the flag is first seen set before generation `g + 1`, next to an uncancelled run
of `g` generations. Evaluators are new, programs are built alike, with nodes shared at the same
places, and carry the same marks, executor and oracle answer by what they are shown. Batches, if
there are any, are done in the same order; or there is no oracle, and storage fails in neither run.
Then the two runs leave everything alike behind, up to the disks if the orders differ. They fail in
the same way, or find the same fix, or refuse the same program, or the first one is cancelled where
the second one has used up its generations, and but for that their reports are alike. -/
theorem run_parts (hc : c.InStep like c') (settings : Settings α) (g : Nat) (hpos : 1 ≤ g)
    (hless : g < settings.maxGenerations) (policy : FitnessPolicy α)
    (suspicion : SuspicionPolicy α) (root root' : Node) (hroot : Node.Alike p root root')
    (b b' : Bench α ω) (hnew : b.evaluator = .new policy suspicion)
    (hnew' : b'.evaluator = .new policy suspicion) (hstore : p.Aligns b.store b'.store)
    (hdisk : like b.disk b'.disk)
    (hflag : Sees settings c root (.new b) fun generation => decide (g < generation))
    (hflag' : Sees { settings with maxGenerations := g } c' root' (.new b') fun _ => false) :
    let long := run settings c root (.new b)
    let short := run { settings with maxGenerations := g } c' root' (.new b')
    (SameOrder settings c c' ∨ c.oracle = none ∧ (∃ replies, c.executor.AnswersBy replies) ∧
      ¬ Unstored long.1 ∧ ¬ Unstored short.1) →
    ∃ q, p ≤ q ∧ Parted q long.1 short.1 ∧
      Search.Alike (fun d d' => SameOrder settings c c' → like d d') q long.2 short.2 := by
  intro long short hcase
  by_cases horder : SameOrder settings c c'
  · obtain ⟨q, hpq, hparted, halike⟩ := parted_of_sameOrder hc settings horder hpos hless hroot hnew
      hnew' hstore hdisk hflag hflag'
    exact ⟨q, hpq, hparted, ⟨halike.bench.evaluator, halike.bench.store, fun _ => halike.bench.disk⟩,
      halike.rng_eq, halike.nextId_eq, halike.stats_eq⟩
  · obtain ⟨horacle, ⟨replies, hreplies⟩, hlong, hshort⟩ := hcase.resolve_left horder
    have hparallel : settings.parallel = true := by
      by_contra hsequential
      exact horder fun h => absurd h hsequential
    exact parted_of_reordered hc hparallel horacle hreplies hpos hless hroot hnew hnew' hstore hdisk
      hflag hflag' hlong hshort fun _ _ h => absurd h horder

/-! ## Duels -/

/-- Two runs of one team, with all that they may differ in. The first one might go on after as many
generations as the second one has, but finds its flag set. -/
structure Duel where
  settings : Settings Rat
  limit : Nat
  /-- The tests look at the texts of a program. -/
  tests : List String → Selection → TestRun
  /-- What a test run does to the disk depends on its folder. -/
  leave : ScratchFolder → Disk → Disk
  oracle : Option (Oracle Rat Nat)
  schedule : Schedule
  schedule' : Schedule
  root : Node
  root' : Node
  marks : Store Rat
  marks' : Store Rat

namespace Duel

/-- The memory counts how often the flag has been looked at. -/
def team (t : Duel) (schedule : Schedule) (flag : Nat → Bool) : Collaborators Rat Nat where
  executor := ⟨fun root selection dir _ (disk, looks) =>
    (.ok (t.tests root.tokens selection), t.leave dir disk, looks)⟩
  oracle := t.oracle
  cancelled looks := (flag (looks + 1), looks + 1)
  schedule := schedule
  seed := 0

def ahead (t : Duel) : Collaborators Rat Nat :=
  t.team t.schedule fun generation => decide (t.limit < generation)

def behind (t : Duel) : Collaborators Rat Nat := t.team t.schedule' fun _ => false

def newBench (marks : Store Rat) : Bench Rat Nat := ⟨.new .standard .keepAll, marks, .empty, 0⟩

/-- An oracle that answers by what it is shown, and does not touch the memory. -/
def Aloof (oracle : Oracle Rat Nat) : Prop :=
  oracle.Consistent ∧ ∀ root failing before, (oracle.propose root failing before).2.2 = before.2

theorem inStep (t : Duel) (ho : ∀ oracle, t.oracle = some oracle → Aloof oracle) :
    t.ahead.InStep (· = ·) t.behind where
  disks := Disk.interchangeable_eq
  executor := by
    rintro p s s' root root' d _ - hroot rfl selection dir memory memory'
    show Except.ok (t.tests root'.tokens selection) = .ok (t.tests root.tokens selection) ∧
      t.leave dir d = t.leave dir d
    rw [hroot.tokens_eq]
    exact ⟨rfl, rfl⟩
  executor_eq := rfl
  oracle oracle horacle := (ho oracle horacle).1
  oracle_eq := rfl
  seed_eq := rfl

theorem answersBy (t : Duel) :
    t.ahead.executor.AnswersBy fun root selection _ _ => .ok (t.tests root.tokens selection) :=
  fun _ _ _ _ _ => rfl

theorem clocked (t : Duel) (ho : ∀ oracle, t.oracle = some oracle → Aloof oracle) :
    Clocked t.ahead (fun root selection _ _ => .ok (t.tests root.tokens selection)) id
      fun generation => decide (t.limit < generation) where
  executor := ⟨t.answersBy, fun _ _ _ _ _ => rfl⟩
  oracle oracle horacle := (ho oracle horacle).2
  seen _ := rfl
  counted _ := rfl

variable [Root Rat]

theorem sees (t : Duel) (ho : ∀ oracle, t.oracle = some oracle → Aloof oracle) :
    Sees t.settings t.ahead t.root (.new (newBench t.marks))
      fun generation => decide (t.limit < generation) :=
  sees_of_clock (t.clocked ho) t.settings t.root rfl

def long (t : Duel) : Except RepairFault (RunReport Rat) :=
  (run t.settings t.ahead t.root (.new (newBench t.marks))).1

def short (t : Duel) : Except RepairFault (RunReport Rat) :=
  (run { t.settings with maxGenerations := t.limit } t.behind t.root'
    (.new (newBench t.marks'))).1

/-- The first run is cut off with this fitness, and the second one reports the same. -/
def CutOff (t : Duel) (fitness : Rat) : Prop :=
  ∃ q r r', t.long = .ok r ∧ t.short = .ok r' ∧ RunReport.Alike q r r' ∧
    r.outcome = .cancelled ∧ r'.outcome = .exhausted ∧ r.bestFitness = fitness

theorem cutOff_of_parted {t : Duel} {q : Pairing} {fitness : Rat}
    (h : Parted q t.long t.short)
    (hlong : (t.long.toOption.map fun r => (r.outcome, r.bestFitness)) =
      some (.cancelled, fitness)) : t.CutOff fitness := by
  unfold CutOff
  generalize t.long = long at h hlong
  generalize t.short = short at h
  cases h with
  | failed fault => cases hlong
  | @ended r r' halike hsame hearly =>
    obtain ⟨hcancelled, -⟩ := Prod.mk.inj (Option.some.inj hlong)
    rw [hsame, hcancelled] at hearly
    exact absurd hearly (by decide)
  | @cut r r' halike hcancelled hexhausted =>
    obtain ⟨-, hbest⟩ := Prod.mk.inj (Option.some.inj hlong)
    exact ⟨q, r, r', rfl, rfl, halike, hcancelled, hexhausted, hbest⟩

omit [Root Rat] in
theorem stored_of_figures {β : Type} {figures : RunReport Rat → β} {b : β}
    {answer : Except RepairFault (RunReport Rat)} (h : answer.toOption.map figures = some b) :
    ¬ Unstored answer := by
  rintro ⟨fault, rfl⟩
  cases h

/-- What one may want of two runs: executor and oracle answer by what they are shown, the programs
have the same content and carry the same marks, place by place, and the flag is first seen set when
the second run has used up its generations. -/
structure Fair (t : Duel) : Prop where
  pos : 1 ≤ t.limit
  less : t.limit < t.settings.maxGenerations
  inStep : t.ahead.InStep (· = ·) t.behind
  answersBy : ∃ replies, t.ahead.executor.AnswersBy replies
  forest : t.marks.Forest [t.root]
  forest' : t.marks'.Forest [t.root']
  content_eq : t.root'.content = t.root.content
  marks_eq : t.root'.preorder.map (t.marks'.mark ·.id) = t.root.preorder.map (t.marks.mark ·.id)
  sees : Sees t.settings t.ahead t.root (.new (newBench t.marks))
    fun generation => decide (t.limit < generation)
  sees' : Sees { t.settings with maxGenerations := t.limit } t.behind t.root'
    (.new (newBench t.marks')) fun _ => false

theorem fair {t : Duel} (ho : ∀ oracle, t.oracle = some oracle → Aloof oracle)
    (hpos : 1 ≤ t.limit) (hless : t.limit < t.settings.maxGenerations)
    (hforest : t.marks.Forest [t.root]) (hforest' : t.marks'.Forest [t.root'])
    (hcontent : t.root'.content = t.root.content)
    (hmarks : t.root'.preorder.map (t.marks'.mark ·.id) =
      t.root.preorder.map (t.marks.mark ·.id)) : t.Fair :=
  ⟨hpos, hless, t.inStep ho, ⟨_, t.answersBy⟩, hforest, hforest', hcontent, hmarks, t.sees ho,
    sees_of_uncancelled (fun _ => rfl) _ _ _⟩

/-- The best fitness that the two runs report, if they come to a report. -/
def Ends (t : Duel) (long short : Option Rat) : Prop :=
  t.long.toOption.map (·.bestFitness) = long ∧ t.short.toOption.map (·.bestFitness) = short

end Duel

/-! ### One statement less -/

namespace Duel

def statement (first : NodeId) (text : String) (line : Nat) : Node :=
  .make (first + 1) .atomicStatement [.leaf first text ⟨line, 1⟩]

def suspect : Mark Rat := (Mark.fresh []).raise 1

def unmarked (nodes : Nat) : List (Mark Rat) := List.replicate nodes (.fresh [])

def result (name : TestId) (passes : Bool) : TestResult :=
  ⟨name, if passes then none else some ⟨"assertion failed", none⟩⟩

/-- Two statements, in nodes that are numbered from the given one on. -/
def pair (first : NodeId) : Node :=
  .make (first + 4) .file [statement first "a" 1, statement (first + 2) "b" 2]

/-- Both statements are suspicious. The store may hold other nodes before those of the program. -/
def pairMarks (others : Nat) : Store Rat :=
  ⟨(unmarked others ++ [.fresh [], suspect, .fresh [], suspect, .fresh []]).toArray⟩

/-- The nodes of the program, alone and after one other node. -/
def shift : Pairing where
  pairs a b := a < 5 ∧ b = a + 1
  right_unique hb hc := hb.2.trans hc.2.symm
  left_unique ha hb := Nat.add_right_cancel (ha.2.symm.trans hb.2)

theorem pair_alike : Node.Alike shift (pair 0) (pair 1) := by
  have hpair {a : NodeId} (ha : a < 5) : shift.pairs a (a + 1) := ⟨ha, rfl⟩
  have hstatement {a : NodeId} (ha : a + 1 < 5) (text : String) (line : Nat) :
      Node.Alike shift (statement a text line) (statement (a + 1) text line) :=
    .make (hpair ha) _ (.cons (.leaf (hpair (Nat.lt_of_succ_lt ha)) _ _) .nil)
  refine .make (hpair (by decide)) _ (.cons ?_ (.cons ?_ .nil))
  · exact hstatement (by decide) "a" 1
  · exact hstatement (by decide) "b" 2

theorem pairMarks_aligned : shift.Aligns (pairMarks 0) (pairMarks 1) where
  left_lt hab := hab.1
  right_lt := by
    rintro a _ ⟨ha, rfl⟩
    exact Nat.succ_lt_succ ha
  mark_eq := by
    rintro a _ ⟨-, rfl⟩
    simp [Store.mark, pairMarks, unmarked]

/-- The fewer statements there are, the more tests pass. -/
def counting (tokens : List String) (_ : Selection) : TestRun where
  results := [0, 1, 2].map fun most => result ⟨"Test", toString most⟩ (tokens.length ≤ most)
  coverage := none

/-- Takes out the first statement. -/
def thinner : Oracle Rat Nat where
  propose root _ before :=
    let (id, store) := before.1.allocate (.fresh [])
    (.ok (some (.make id .file (root.children.eraseIdx 0))), store, before.2)

theorem aloof_thinner : Aloof thinner := by
  refine ⟨?_, fun _ _ _ => rfl⟩
  intro p s s' root root' hs hroot failing memory memory'
  obtain ⟨q, hpq, hnew, hq⟩ := hs.allocate (.fresh [])
  refine ⟨q, hpq, hq, .ok (.some (.make hnew _ ?_))⟩
  exact forall₂_eraseIdx (Node.Alike.mono_all hpq hroot.children) 0

theorem perm_backwards (_ size : Nat) : (List.range size).reverse.Perm (List.range size) :=
  List.reverse_perm _

/-- The last jobs first. -/
def backwards : Schedule := ⟨fun _ size => (List.range size).reverse, perm_backwards⟩

/-- One generation, in which every variant is shown to the oracle if there is one. -/
def thinning (parallel : Bool) (oracle : Option (Oracle Rat Nat)) (schedule' : Schedule) :
    Duel where
  settings := ⟨2, 2, 1, .program, [.delete], parallel, some 0⟩
  limit := 1
  tests := counting
  leave _ := id
  oracle := oracle
  schedule := .inOrder
  schedule' := schedule'
  root := pair 0
  root' := pair 1
  marks := pairMarks 0
  marks' := pairMarks 1

end Duel

open Duel in
/-- In one generation a statement is taken out. This is so if an oracle is asked for each variant,
in turn, and if the variants are changed at random and done as batches, in one run forwards and in
the other one backwards. -/
theorem run_parts_thinning : ∃ _ : Root Rat,
    (thinning false (some thinner) .inOrder).CutOff 11 ∧
      (thinning true none backwards).CutOff 11 := by
  let _ : Root Rat := ⟨id⟩
  refine ⟨inferInstance, ?_, ?_⟩
  · let t := thinning false (some thinner) .inOrder
    have horacle : ∀ oracle, t.oracle = some oracle → Aloof oracle := by
      rintro _ ⟨⟩
      exact aloof_thinner
    have hlong : (t.long.toOption.map fun r => (r.outcome, r.bestFitness)) =
        some (.cancelled, 11) := by
      rw [Duel.long, run]
      unfold restart
      rw [WordStream.ofSeed_eq]
      decide +kernel
    obtain ⟨q, -, hparted, -⟩ := run_parts (t.inStep horacle) t.settings t.limit (by decide)
      (by decide) .standard .keepAll t.root t.root' pair_alike (newBench t.marks)
      (newBench t.marks') rfl rfl pairMarks_aligned rfl (t.sees horacle)
      (sees_of_uncancelled (fun _ => rfl) _ _ _) (.inl fun h => absurd h Bool.false_ne_true)
    rw [← Duel.long, ← Duel.short] at hparted
    exact cutOff_of_parted hparted hlong
  · let t := thinning true none backwards
    have horacle : ∀ oracle, t.oracle = some oracle → Aloof oracle := by
      rintro _ ⟨⟩
    have hlong : (t.long.toOption.map fun r => (r.outcome, r.bestFitness)) =
        some (.cancelled, 11) := by
      rw [Duel.long, run]
      unfold restart
      rw [WordStream.ofSeed_eq]
      decide +kernel
    have hshort : (t.short.toOption.map fun r => r.outcome) = some .exhausted := by
      rw [Duel.short, run]
      unfold restart
      rw [WordStream.ofSeed_eq]
      decide +kernel
    have hstored : ¬ Unstored t.long ∧ ¬ Unstored t.short :=
      ⟨stored_of_figures hlong, stored_of_figures hshort⟩
    rw [Duel.long, Duel.short] at hstored
    obtain ⟨q, -, hparted, -⟩ := run_parts (t.inStep horacle) t.settings t.limit (by decide)
      (by decide) .standard .keepAll t.root t.root' pair_alike (newBench t.marks)
      (newBench t.marks') rfl rfl pairMarks_aligned rfl (t.sees horacle)
      (sees_of_uncancelled (fun _ => rfl) _ _ _) (.inr ⟨rfl, ⟨_, t.answersBy⟩, hstored⟩)
    rw [← Duel.long, ← Duel.short] at hparted
    exact cutOff_of_parted hparted hlong

/-! ### What else makes a difference -/

namespace Duel

def broken : TestId := ⟨"Test", "broken"⟩

/-- One test fails as long as there is an `x`. It executes the first line of one class. -/
def watching (tokens : List String) (selection : Selection) : TestRun where
  results := [result broken ("x" ∉ tokens), result ⟨"Test", "works"⟩ true]
  coverage := if selection.wantsCoverage then some [(broken, .ofList [⟨"A", 1⟩])] else none

/-- A class in a file of its own. -/
def file (first : NodeId) (statements : List Node) : Node :=
  .make (first + 1) .file [.make first .typeDeclaration statements]

def fileMarks (name : String) : List (Mark Rat) :=
  [.fresh [(Attributes.className, name)], .fresh [(Attributes.fileName, name ++ ".java")]]

/-- The two lines of a class are the other way round. -/
def lines : Duel where
  settings := ⟨2, 2, 0, .program, [.delete], false, some 135⟩
  limit := 1
  tests := watching
  leave _ := id
  oracle := none
  schedule := .inOrder
  schedule' := .inOrder
  root := file 4 [statement 0 "x" 2, statement 2 "y" 1]
  root' := file 4 [statement 0 "x" 1, statement 2 "y" 2]
  marks := ⟨(unmarked 4 ++ fileMarks "A").toArray⟩
  marks' := ⟨(unmarked 4 ++ fileMarks "A").toArray⟩

/-- Two classes, with one statement in both of them if the given node is the first one. -/
def classes (second : NodeId) : Node :=
  .make 8 .other [file 4 [statement 0 "x" 1], file 6 [statement second "x" 1]]

/-- The first run has one statement in two classes, and the second one has two of them. -/
def sharing : Duel where
  settings := ⟨2, 3, 0, .program, [.delete], false, some 135⟩
  limit := 2
  tests := watching
  leave _ := id
  oracle := none
  schedule := .inOrder
  schedule' := .inOrder
  root := classes 0
  root' := classes 2
  marks := ⟨(unmarked 4 ++ fileMarks "A" ++ fileMarks "B" ++ unmarked 1).toArray⟩
  marks' := ⟨(unmarked 4 ++ fileMarks "A" ++ fileMarks "B" ++ unmarked 1).toArray⟩

theorem forest_classes : sharing.marks.Forest [classes 0] := by
  let x : Node := .leaf 0 "x" ⟨1, 1⟩
  let s : Node := .make 1 .atomicStatement [x]
  let a : Node := .make 4 .typeDeclaration [s]
  let b : Node := .make 6 .typeDeclaration [s]
  refine .of_nodes [classes 0, .make 5 .file [a], a, s, x, .make 7 .file [b], b] (by decide)
    (by decide) ?_
  intro t ht
  have hnodes : (classes 0).preorder =
      [classes 0, .make 5 .file [a], a, s, x, .make 7 .file [b], b, s, x] := rfl
  rw [List.mem_singleton.mp ht, hnodes]
  simp

/-- Proposes what it is shown, which is localized anew then. -/
def same : Oracle Rat Nat := ⟨fun root _ before => (.ok (some root), before)⟩

theorem aloof_same : Aloof same := by
  refine ⟨?_, fun _ _ _ => rfl⟩
  intro p s s' root root' hs hroot failing memory memory'
  exact ⟨p, le_refl p, hs, .ok (.some hroot)⟩

/-- One class of tests never passes as a whole, and another one fails when both statements are gone.
That one executes a line only after the first statement is gone. -/
def spreading (tokens : List String) (selection : Selection) : TestRun :=
  let a := "a" ∈ tokens
  let b := "b" ∈ tokens
  let all : List (TestResult × List CodeLine) := [
    (result ⟨"Never", "passes"⟩ false, [⟨"A", 1⟩, ⟨"B", 1⟩]),
    (result ⟨"Late", "watches"⟩ (a ∨ b), if a then [] else [⟨"A", 2⟩]),
    (result ⟨"Never", "b"⟩ ¬b, [⟨"B", 1⟩]),
    (result ⟨"Never", "a"⟩ ¬a, [⟨"A", 1⟩])]
  let selected := all.filter fun entry => selection.selects entry.1.id.className
  { results := selected.map (·.1)
    coverage :=
      if selection.wantsCoverage then some (selected.map fun entry => (entry.1.id, .ofList entry.2))
      else none }

def orderRoot : Node := .make 8 .other [file 4 [statement 0 "a" 1], file 6 [statement 2 "b" 1]]

def orderMarks : Store Rat :=
  ⟨([.fresh [], suspect, .fresh [], suspect] ++ fileMarks "A" ++ fileMarks "B" ++
    unmarked 1).toArray⟩

/-- What one variant of a batch is localized to decides on the tests of another one. -/
def order : Duel where
  settings := ⟨4, 3, 1 / 2, .program, [.delete], true, some 135⟩
  limit := 2
  tests := spreading
  leave _ := id
  oracle := some same
  schedule := .inOrder
  schedule' := backwards
  root := orderRoot
  root' := orderRoot
  marks := orderMarks
  marks' := orderMarks

def area : ScratchArea := (.standard : FitnessPolicy Rat).scratchArea

/-- A test run in the second folder leaves a file where the first one ought to be. -/
def storage : Duel where
  settings := ⟨2, 2, 0, .program, [.delete], true, some 135⟩
  limit := 1
  tests := counting
  leave dir disk := if dir = area.folder 2 then disk.put (area.folder 1).path .file else disk
  oracle := none
  schedule := .inOrder
  schedule' := backwards
  root := pair 0
  root' := pair 0
  marks := pairMarks 0
  marks' := pairMarks 0

variable [Root Rat]

theorem fair_lines : lines.Fair := by
  refine fair nofun (by decide) (by decide) (.of_nodup ?_ (by decide)) (.of_nodup ?_ (by decide))
    rfl rfl
  all_goals
    unfold Store.Holds
    decide

theorem fair_sharing : sharing.Fair := by
  refine fair nofun (by decide) (by decide) forest_classes (.of_nodup ?_ (by decide)) rfl rfl
  unfold Store.Holds
  decide

theorem fair_order : order.Fair := by
  have hforest : orderMarks.Forest [orderRoot] := by
    refine .of_nodup ?_ (by decide)
    unfold Store.Holds
    decide
  refine fair ?_ (by decide) (by decide) hforest hforest rfl rfl
  rintro _ ⟨⟩
  exact aloof_same

theorem fair_storage : storage.Fair := by
  have hforest : (pairMarks 0).Forest [pair 0] := by
    refine .of_nodup ?_ (by decide)
    unfold Store.Holds
    decide
  exact fair nofun (by decide) (by decide) hforest hforest rfl rfl

end Duel

open Duel in
/-- Programs that compare equal and carry equal marks are not enough. In turn, a run may come to
something else if the lines of the program are others, and if it has two nodes where the other
program has one twice. As batches, two runs on one program may part if their orders differ, be it
that an oracle has variants localized, be it that test runs get into the way of each other's
folders. -/
theorem not_run_parts : ∃ _ : Root Rat,
    (lines.Fair ∧ lines.Ends (some 1) (some 11)) ∧
      (sharing.Fair ∧ sharing.Ends (some 11) (some 1)) ∧
      (order.Fair ∧ order.Ends (some 20) (some 21)) ∧
      (storage.Fair ∧ storage.Ends (some 11) none) := by
  let _ : Root Rat := ⟨id⟩
  refine ⟨inferInstance, ⟨fair_lines, ?_, ?_⟩, ⟨fair_sharing, ?_, ?_⟩, ⟨fair_order, ?_, ?_⟩,
    fair_storage, ?_, ?_⟩
  all_goals
    first | rw [Duel.long, run] | rw [Duel.short, run]
    unfold restart
    rw [WordStream.ofSeed_eq]
    decide +kernel

end Search

end GeneticRepair

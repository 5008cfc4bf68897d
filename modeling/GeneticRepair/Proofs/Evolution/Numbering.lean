import Mathlib.Data.List.Perm.Subperm
import GeneticRepair.Proofs.Evolution.Accounts
import GeneticRepair.Proofs.Evolution.Logging

/-!
# `Proofs/Evolution/Numbering.lean` — variants and their numbers

The original has the number zero, and the variants of a generation have the numbers that follow
those of the generation before, each of them one (`Numbers`): wherever a number is drawn, the
variant that gets it ends up in the generation that is evaluated.

A variant is tested in the scratch folder of its number. A number that has been tried is spent
(`Stage.Spent`) and is not tried again, so no two test runs share a folder (`Tidy`).

* `numbering`: both of these, for every run.
-/

set_option autoImplicit false

namespace GeneticRepair

variable {α ω : Type}

namespace Search

/-! ## The numbers in hand -/

/-- The first number of a generation. -/
def Course.first (size : Nat) (course : Course α) : Nat := (course.generation - 1) * size + 1

/-- The variants in hand have the numbers that have been drawn for their generation. -/
structure Numbers (size nextId : Nat) (course : Course α) (hand : List (Variant α)) : Prop where
  original : course.original.id = 0
  begun : 1 ≤ course.generation
  next : nextId = course.first size + hand.length
  perm : (hand.map Variant.id).Perm (List.range' (course.first size) hand.length)

namespace Numbers

variable {size nextId : Nat} {course : Course α} {hand hand' made : List (Variant α)}

/-- Variants that keep their numbers may change otherwise, and change places. -/
theorem move (h : Numbers size nextId course hand)
    (hids : (hand'.map Variant.id).Perm (hand.map Variant.id)) :
    Numbers size nextId course hand' := by
  have hlength : hand'.length = hand.length := by simpa using hids.length_eq
  refine ⟨h.original, h.begun, ?_, ?_⟩
  · rw [hlength]
    exact h.next
  · rw [hlength]
    exact hids.trans h.perm

/-- New variants get the next numbers. -/
theorem draw (h : Numbers size nextId course hand)
    (hmade : made.map Variant.id = List.range' nextId made.length) :
    Numbers size (nextId + made.length) course (hand ++ made) := by
  refine ⟨h.original, h.begun, ?_, ?_⟩
  · rw [List.length_append, h.next, Nat.add_assoc]
  · rw [List.map_append, hmade, List.length_append, h.next, ← List.range'_append_1]
    exact h.perm.append_right _

/-- After a whole generation comes the next one. -/
theorem close (h : Numbers size nextId course hand) (hsize : hand.length = size) :
    Numbers size nextId { course with generation := course.generation + 1 } [] := by
  refine ⟨h.original, Nat.le_add_left 1 _, ?_, List.Perm.refl _⟩
  obtain ⟨g, hg⟩ := Nat.exists_eq_add_of_le h.begun
  have hlast : course.generation - 1 = g := by omega
  have hnext : course.generation + 1 - 1 = g + 1 := by omega
  simp only [h.next, hsize, Course.first, hlast, hnext, Nat.succ_mul, List.length_nil]
  omega

theorem nodup (h : Numbers size nextId course hand) : (hand.map Variant.id).Nodup :=
  h.perm.nodup_iff.mpr List.nodup_range'

theorem lt (h : Numbers size nextId course hand) {v : Variant α} (hv : v ∈ hand) :
    v.id < nextId := by
  have hmem := h.perm.mem_iff.mp (List.mem_map_of_mem hv)
  rw [h.next]
  exact (List.mem_range'_1.mp hmem).2

end Numbers

/-- What has been numbered by a stage, and how. -/
def Stage.Numbered (size nextId : Nat) : Stage α → Prop
  | .fresh _ => True
  | .between course _ => Numbers size nextId course []
  | .crossing course bred parents => Numbers size nextId course (bred ++ parents)
  | .varying course done todo => Numbers size nextId course (done ++ todo)
  | .rating course done todo => Numbers size nextId course (done ++ todo)
  | .batch course generation _ jobs =>
    Numbers size nextId course generation ∧ (jobs.map (·.2)).Subperm generation
  | .over _ => True

theorem filterMap_getElem?_range {β : Type} (l : List β) :
    (List.range l.length).filterMap (l[·]?) = l := by
  induction l with
  | nil => rfl
  | cons b l ih =>
    rw [List.length_cons, List.range_succ_eq_map, List.filterMap_cons, List.filterMap_map]
    exact congrArg (b :: ·) ih

/-- Every job of a batch is one of its variants. -/
theorem subperm_jobs (schedule : Schedule) (number : Nat) (generation : List (Variant α)) :
    let unscored := generation.filter (·.fitness.isNone)
    (((schedule.order number unscored.length).filterMap fun job =>
      unscored[job]?.map (job, ·)).map (·.2)).Subperm generation := by
  intro unscored
  have hall : ((List.range unscored.length).filterMap fun job =>
      unscored[job]?.map (job, ·)).map (·.2) = unscored := by
    rw [List.map_filterMap]
    simp only [Option.map_map, Function.comp_def, Option.map_id_fun', id_eq]
    exact filterMap_getElem?_range unscored
  have hperm := ((schedule.perm number unscored.length).filterMap fun job =>
    unscored[job]?.map (job, ·)).map (·.2)
  rw [hall] at hperm
  exact hperm.subperm.trans List.filter_sublist.subperm

/-- The generation that is being evaluated, if one is. -/
def Stage.assessed : Stage α → Option (Course α × List (Variant α))
  | .rating course done todo => some (course, done ++ todo)
  | .batch course generation _ _ => some (course, generation)
  | _ => none

theorem numbers_of_assessed {stage : Stage α} {course : Course α} {generation : List (Variant α)}
    {size nextId : Nat} (h : stage.assessed = some (course, generation))
    (hnumbered : stage.Numbered size nextId) (hsize : stage.Sized size) :
    Numbers size nextId course generation ∧ generation.length = size := by
  cases stage with
  | rating _ done todo =>
    obtain ⟨rfl, rfl⟩ := Prod.mk.inj (Option.some.inj h)
    exact ⟨hnumbered, hsize⟩
  | batch _ _ results jobs =>
    obtain ⟨rfl, rfl⟩ := Prod.mk.inj (Option.some.inj h)
    exact ⟨hnumbered.1, hsize⟩
  | _ => cases h

theorem assessed_assessing (settings : Settings α) (c : Collaborators α ω) (course : Course α)
    (generation : List (Variant α)) :
    (assessing settings c course generation).assessed = some (course, generation) := by
  unfold assessing
  split
  · rfl
  · rfl

variable [Scalar α] {settings : Settings α} {c : Collaborators α ω}

/-- One step keeps the numbers in order. -/
theorem Stage.Numbered.passage {s s' : Search α ω} {stage stage' : Stage α}
    (h : stage.Numbered settings.populationSize s.nextId)
    (hsize : stage.Sized settings.populationSize) (hstep : Passage settings c s stage stage' s') :
    stage'.Numbered settings.populationSize s'.nextId := by
  cases hstep with
  | failed => trivial
  | unfit => trivial
  | flawless => trivial
  | founded valid number scored first nextId stats =>
    refine ⟨number, Nat.le_of_eq first.symm, ?_, List.Perm.refl _⟩
    simp [nextId, Course.first, first]
  | gaveUp => trivial
  | entered few orphaned scored numbers nextId stats =>
    rw [nextId]
    obtain ⟨horiginal, hbegun, hnext, hperm⟩ := h
    exact Numbers.draw ⟨horiginal, hbegun, hnext, hperm⟩ numbers
  | @crossed course bred rest a b x y _ nextId stats first second =>
    rw [nextId]
    have hmade : [x, y].map Variant.id = List.range' s.nextId [x, y].length := by
      simp [first, second, List.range'_succ]
    have hplaces : ([x, y] ++ rest).Perm (rest ++ [x, y]) := List.perm_append_comm
    refine (Numbers.draw h hmade).move (List.Perm.map _ ?_)
    simp only [List.append_assoc, List.cons_append, List.nil_append]
    exact ((hplaces.cons b).cons a).append_left bred
  | @missed course bred rest a b _ nextId stats =>
    rw [nextId]
    exact Numbers.move h (by simp)
  | filled few size numbers copied nextId stats =>
    rw [nextId]
    exact Numbers.draw h numbers
  | @varied course done todo v w _ renewed number fitness nextId stats =>
    rw [nextId]
    exact Numbers.move h (by simp [number])
  | handed =>
    rw [Stage.Numbered, List.append_nil] at h
    unfold assessing
    split
    · exact ⟨h, subperm_jobs c.schedule _ _⟩
    · exact h
  | spared => exact Numbers.move h (by simp)
  | @rated course done todo v w _ unscored number scored nextId stats =>
    rw [nextId]
    exact Numbers.move h (by simp [number])
  | found => trivial
  | @closed course done _ _ nextId stats =>
    rw [nextId]
    exact Numbers.close h hsize
  | worked scored nextId stats =>
    rw [nextId]
    exact ⟨h.1, (List.sublist_cons_self _ _).subperm.trans h.2⟩
  | settled _ nextId stats =>
    rw [nextId]
    exact h.1.close hsize
  | fixed => trivial
  | ended => trivial

/-! ## Numbers that are spent -/

/-- The numbers of the variants in hand that may still be tested. -/
def Stage.awaiting : Stage α → List Nat
  | .crossing _ bred parents => (bred ++ parents).map Variant.id
  | .varying _ done todo => (done ++ todo).map Variant.id
  | .rating _ _ todo => todo.map Variant.id
  | .batch _ _ _ jobs => (jobs.map (·.2)).map Variant.id
  | _ => []

/-- No variant with the number will be tested any more. -/
def Stage.Spent (nextId : Nat) (stage : Stage α) (id : Nat) : Prop :=
  match stage with
  | .fresh _ => False
  | .over _ => True
  | stage => id < nextId ∧ id ∉ stage.awaiting

omit [Scalar α] in
theorem trying_of_spent {stage : Stage α} {nextId id : Nat} (h : stage.Spent nextId id) :
    stage.trying ≠ some id := by
  intro htrying
  cases stage with
  | fresh root => exact h.elim
  | rating course done todo =>
    cases todo with
    | nil => cases htrying
    | cons v todo =>
      rw [Stage.trying] at htrying
      split at htrying
      · cases htrying
      · obtain rfl := Option.some.inj htrying
        exact h.2 List.mem_cons_self
  | batch course generation results jobs =>
    cases jobs with
    | nil => cases htrying
    | cons entry jobs =>
      obtain rfl := Option.some.inj htrying
      exact h.2 List.mem_cons_self
  | _ => cases htrying

/-- What is spent stays spent. -/
theorem Stage.Spent.passage {s s' : Search α ω} {stage stage' : Stage α} {id : Nat}
    (h : stage.Spent s.nextId id) (hstep : Passage settings c s stage stage' s') :
    stage'.Spent s'.nextId id := by
  cases hstep with
  | failed => trivial
  | unfit => trivial
  | flawless => trivial
  | founded => exact h.elim
  | gaveUp => trivial
  | entered few orphaned scored numbers nextId stats =>
    refine ⟨by rw [nextId]; exact Nat.lt_add_right _ h.1, fun hmem => ?_⟩
    rw [awaiting, List.nil_append, numbers] at hmem
    exact Nat.not_lt_of_le (List.mem_range'_1.mp hmem).1 h.1
  | @crossed course bred rest a b x y _ nextId stats first second =>
    obtain ⟨hlt, hnot⟩ := h
    have hx : id ≠ x.id := by omega
    have hy : id ≠ y.id := by omega
    refine ⟨by omega, fun hmem => hnot ?_⟩
    simpa [awaiting, hx, hy] using hmem
  | @missed course bred rest a b _ nextId stats =>
    obtain ⟨hlt, hnot⟩ := h
    refine ⟨by omega, fun hmem => hnot ?_⟩
    simpa [awaiting] using hmem
  | @filled course bred rest copies _ few size numbers copied nextId stats =>
    obtain ⟨hlt, hnot⟩ := h
    refine ⟨by omega, fun hmem => ?_⟩
    rw [awaiting, List.nil_append, List.map_append, List.mem_append, numbers] at hmem
    obtain hmem | hmem := hmem
    · exact hnot hmem
    · exact Nat.not_lt_of_le (List.mem_range'_1.mp hmem).1 hlt
  | @varied course done todo v w _ renewed number fitness nextId stats =>
    obtain ⟨hlt, hnot⟩ := h
    refine ⟨by omega, fun hmem => hnot ?_⟩
    simpa [awaiting, number] using hmem
  | @handed course done =>
    obtain ⟨hlt, hnot⟩ := h
    rw [awaiting, List.append_nil] at hnot
    unfold assessing
    split
    · refine ⟨hlt, fun hmem => hnot ?_⟩
      exact List.map_subset _ (subperm_jobs c.schedule course.generation done).subset hmem
    · exact ⟨hlt, hnot⟩
  | spared => exact ⟨h.1, fun hmem => h.2 (List.mem_cons_of_mem _ hmem)⟩
  | rated _ _ _ nextId stats =>
    exact ⟨nextId ▸ h.1, fun hmem => h.2 (List.mem_cons_of_mem _ hmem)⟩
  | found => trivial
  | closed nextId stats => exact ⟨nextId ▸ h.1, List.not_mem_nil⟩
  | worked scored nextId stats =>
    exact ⟨nextId ▸ h.1, fun hmem => h.2 (List.mem_cons_of_mem _ hmem)⟩
  | settled _ nextId stats => exact ⟨nextId ▸ h.1, List.not_mem_nil⟩
  | fixed => trivial
  | ended => trivial

/-- A number that has been tried is spent. -/
theorem spent_of_trying {s s' : Search α ω} {stage stage' : Stage α} {id : Nat}
    (h : stage.trying = some id) (hnumbered : stage.Numbered settings.populationSize s.nextId)
    (hstep : Passage settings c s stage stage' s') : stage'.Spent s'.nextId id := by
  cases hstep with
  | failed => trivial
  | unfit => trivial
  | flawless => trivial
  | founded valid number scored first nextId stats =>
    obtain rfl := Option.some.inj h
    exact ⟨by rw [nextId]; exact Nat.one_pos, List.not_mem_nil⟩
  | gaveUp => trivial
  | entered => cases h
  | crossed => cases h
  | missed => cases h
  | filled => cases h
  | varied => cases h
  | handed => cases h
  | spared scored =>
    rw [Stage.trying, if_pos scored] at h
    cases h
  | @rated course done todo v w _ unscored number scored nextId stats =>
    rw [Stage.trying, unscored] at h
    obtain rfl := Option.some.inj h
    refine ⟨nextId ▸ hnumbered.lt (List.mem_append_right _ List.mem_cons_self), ?_⟩
    have hnodup := hnumbered.nodup
    rw [List.map_append] at hnodup
    exact (List.nodup_cons.mp (List.nodup_append.mp hnodup).2.1).1
  | found => trivial
  | closed => cases h
  | worked scored nextId stats =>
    obtain ⟨hnumbers, hjobs⟩ := hnumbered
    obtain rfl := Option.some.inj h
    refine ⟨nextId ▸ hnumbers.lt (hjobs.subset List.mem_cons_self), ?_⟩
    obtain ⟨picked, hpicked, hsub⟩ := hjobs
    have hnodup := (hpicked.map Variant.id).nodup_iff.mp (hnumbers.nodup.sublist (hsub.map _))
    exact (List.nodup_cons.mp hnodup).1
  | settled => cases h
  | fixed => trivial
  | ended => trivial

/-! ### Folders of spent numbers -/

/-- The folders that have been written down are different ones, and each of them is that of a number
that is spent. -/
structure Tidy (area : ScratchArea) (log : List ScratchFolder) (nextId : Nat) (stage : Stage α) :
    Prop where
  nodup : log.Nodup
  spent : ∀ dir ∈ log, ∃ id, dir = area.folder id ∧ stage.Spent nextId id

theorem Tidy.passage {area : ScratchArea} {log log' : List ScratchFolder} {s s' : Search α ω}
    {stage stage' : Stage α} (h : Tidy area log s.nextId stage)
    (hused : Used area stage.trying log log')
    (hnumbered : stage.Numbered settings.populationSize s.nextId)
    (hstep : Passage settings c s stage stage' s') : Tidy area log' s'.nextId stage' := by
  have hold : ∀ dir ∈ log, ∃ id, dir = area.folder id ∧ stage'.Spent s'.nextId id := by
    intro dir hdir
    obtain ⟨id, hid, hspent⟩ := h.spent dir hdir
    exact ⟨id, hid, hspent.passage hstep⟩
  obtain rfl | ⟨id, htrying, rfl⟩ := hused
  · exact ⟨h.nodup, hold⟩
  · constructor
    · refine List.nodup_append.mpr ⟨h.nodup, List.nodup_singleton _, ?_⟩
      intro dir hdir new hnew heq
      obtain ⟨other, hother, hspent⟩ := h.spent dir hdir
      rw [List.mem_singleton.mp hnew, hother] at heq
      rw [ScratchArea.folder_inj.mp heq] at hspent
      exact trying_of_spent hspent htrying
    · intro dir hdir
      obtain hdir | hdir := List.mem_append.mp hdir
      · exact hold dir hdir
      · exact ⟨id, List.mem_singleton.mp hdir, spent_of_trying htrying hnumbered hstep⟩

/-! ## All of a run -/

variable [Root α]

theorem numbered_iterate (settings : Settings α) (c : Collaborators α ω) (root : Node)
    (s : Search α ω) (n : Nat) :
    let moment := (step settings c)^[n] (start root s)
    moment.stage.Numbered settings.populationSize moment.search.nextId := by
  induction n with
  | zero => trivial
  | succ n ih =>
    rw [Function.iterate_succ_apply']
    exact ih.passage (accounted_iterate settings c root s n).1 (passage settings c _ _)

/-- A moment with what has been written down. -/
def Moment.over (m : Moment α ω) (log : List ScratchFolder) :
    Moment α (ω × List ScratchFolder) :=
  ⟨(Veil.log log).over m.search, m.stage, m.ratings⟩

theorem logged_iterate (settings : Settings α) (c : Collaborators α ω) (root : Node)
    (s : Search α ω) (n : Nat) :
    let moment := (step settings c)^[n] (start root s)
    ∃ log, (step settings c.logged)^[n] (start root ((Veil.log []).over s)) = moment.over log ∧
      moment.search.bench.evaluator.policy = s.bench.evaluator.policy ∧
      Tidy s.bench.evaluator.policy.scratchArea log moment.search.nextId moment.stage := by
  induction n with
  | zero => exact ⟨[], rfl, rfl, List.nodup_nil, nofun⟩
  | succ n ih =>
    obtain ⟨log, hlogged, hpolicy, htidy⟩ := ih
    rw [Function.iterate_succ_apply', Function.iterate_succ_apply', hlogged]
    have hnumbered := numbered_iterate settings c root s n
    generalize (step settings c)^[n] (start root s) = m at hpolicy htidy hnumbered
    have hlogs : Logs settings c log m.stage m.search := logged_next m.stage m.search
    obtain ⟨log', hused, hnext⟩ := hlogs
    rw [hpolicy] at hused
    refine ⟨log', ?_, (samePolicies_next settings c m.stage m.search).1.trans hpolicy,
      htidy.passage hused hnumbered (passage settings c m.stage m.search)⟩
    unfold step Moment.over
    simp only [hnext]
    rfl

theorem exists_assessed {settings : Settings α} {c : Collaborators α ω} {root : Node}
    {s : Search α ω} {report : RunReport α} (h : (run settings c root s).1 = .ok report)
    {generation : Nat} (hfirst : 1 ≤ generation) (hle : generation ≤ report.stats.generations) :
    ∃ n course variants, ((step settings c)^[n] (start root s)).stage.assessed =
      some (course, variants) ∧ course.generation = generation := by
  obtain ⟨n, ratings, hn⟩ := iterate_step_start settings c root s
  rw [h] at hn
  obtain ⟨k, course, full, hk, hgeneration⟩ := exists_turned settings c root s n generation hfirst
    (by rw [hn]; exact hle)
  refine ⟨k + 1, course, full, ?_, hgeneration⟩
  rw [Function.iterate_succ_apply']
  show ((Stage.next settings c _ _).1.1).assessed = _
  rw [hk]
  exact assessed_assessing settings c course full

/-- What the variants of a generation are called while it is being evaluated. -/
theorem numbers_iterate {settings : Settings α} {c : Collaborators α ω} {root : Node}
    {s : Search α ω} {n : Nat} {course : Course α} {variants : List (Variant α)}
    (h : ((step settings c)^[n] (start root s)).stage.assessed = some (course, variants)) :
    course.original.id = 0 ∧ 1 ≤ course.generation ∧
      (variants.map Variant.id).Perm
        (List.range' (course.first settings.populationSize) settings.populationSize) := by
  obtain ⟨hnumbers, hsize⟩ := numbers_of_assessed h (numbered_iterate settings c root s n)
    (accounted_iterate settings c root s n).1
  have hperm := hnumbers.perm
  rw [hsize] at hperm
  exact ⟨hnumbers.original, hnumbers.begun, hperm⟩

omit [Scalar α] [Root α] in
/-- The numbers of a generation are over before those of a later one begin. -/
theorem Course.first_add_le {course course' : Course α} (hbegun : 1 ≤ course.generation)
    (hlt : course.generation < course'.generation) (size : Nat) :
    course.first size + size ≤ course'.first size := by
  have hgap : (course.generation - 1) * size + size ≤ (course'.generation - 1) * size := by
    rw [← Nat.succ_mul]
    exact Nat.mul_le_mul_right size (by omega)
  simp only [Course.first]
  omega

/-- A run whose executor writes down its folders is the same run, and each folder is written down
once. -/
theorem logged_run (settings : Settings α) (c : Collaborators α ω) (root : Node)
    (s : Search α ω) :
    ∃ log, run settings c.logged root ((Veil.log []).over s) =
        ((run settings c root s).1, (Veil.log log).over (run settings c root s).2) ∧
      log.Nodup ∧
      ∀ dir ∈ log, ∃ id, dir = s.bench.evaluator.policy.scratchArea.folder id := by
  obtain ⟨n, ratings, hn⟩ := iterate_step_start settings c root s
  obtain ⟨k, ratings', hk⟩ := iterate_step_start settings c.logged root ((Veil.log []).over s)
  obtain ⟨log, hlogged, -, htidy⟩ := logged_iterate settings c root s n
  rw [hn] at hlogged htidy
  have hsame := eq_of_over (congrArg Moment.stage hlogged) (congrArg Moment.stage hk)
  rw [hlogged, hk] at hsame
  refine ⟨log, ?_, htidy.nodup, fun dir hdir => ?_⟩
  · have hstage := congrArg Moment.stage hsame
    have hsearch := congrArg Moment.search hsame
    exact Prod.ext (Stage.over.inj hstage).symm hsearch.symm
  · obtain ⟨id, hid, -⟩ := htidy.spent dir hdir
    exact ⟨id, hid⟩

/-- The numbers of a run. The original has the number zero. Whenever a generation is being
evaluated, its variants have the numbers of that generation, each of them one, and every generation
that is counted comes to be evaluated; so variants of later generations have greater numbers. And if
the executor writes down its folders, that is the same run, and no folder is written down twice. -/
theorem numbering (settings : Settings α) (c : Collaborators α ω) (root : Node) (s : Search α ω) :
    let moment : Nat → Moment α ω := fun n => (step settings c)^[n] (start root s)
    let size := settings.populationSize
    (∀ n course variants, (moment n).stage.assessed = some (course, variants) →
      course.original.id = 0 ∧
        (variants.map Variant.id).Perm
          (List.range' ((course.generation - 1) * size + 1) size)) ∧
    (∀ report, (run settings c root s).1 = .ok report →
      ∀ generation, 1 ≤ generation → generation ≤ report.stats.generations →
        ∃ n course variants, (moment n).stage.assessed = some (course, variants) ∧
          course.generation = generation) ∧
    (∀ n k course course' variants variants',
      (moment n).stage.assessed = some (course, variants) →
      (moment k).stage.assessed = some (course', variants') →
      course.generation < course'.generation →
        ∀ v ∈ variants, ∀ w ∈ variants', 0 < v.id ∧ v.id < w.id) ∧
    ∃ log, run settings c.logged root ((Veil.log []).over s) =
        ((run settings c root s).1, (Veil.log log).over (run settings c root s).2) ∧
      log.Nodup ∧
      ∀ dir ∈ log, ∃ id, dir = s.bench.evaluator.policy.scratchArea.folder id := by
  intro moment size
  refine ⟨fun n course variants h => ?_, fun report h generation => exists_assessed h,
    fun n k course course' variants variants' h h' hlt v hv w hw => ?_,
    logged_run settings c root s⟩
  · obtain ⟨horiginal, -, hperm⟩ := numbers_iterate h
    exact ⟨horiginal, hperm⟩
  · obtain ⟨-, hbegun, hperm⟩ := numbers_iterate h
    obtain ⟨-, -, hperm'⟩ := numbers_iterate h'
    have hv := List.mem_range'_1.mp (hperm.mem_iff.mp (List.mem_map_of_mem hv))
    have hw := List.mem_range'_1.mp (hperm'.mem_iff.mp (List.mem_map_of_mem hw))
    have hpositive : 0 < course.first settings.populationSize := Nat.succ_pos _
    have hgap := Course.first_add_le hbegun hlt settings.populationSize
    exact ⟨hpositive.trans_le hv.1, (hv.2.trans_le hgap).trans_le hw.1⟩

end Search

end GeneticRepair

import GeneticRepair.Proofs.Assessment.Evaluation
import GeneticRepair.Proofs.Evolution.Logging
import GeneticRepair.Proofs.Scratch.Isolation

/-!
# `Proofs/Assessment/Leftovers.lean` — no folder is left behind

The first run and every evaluation remove the folder in which tests were run, whatever came of the
tests: only a failure of scratch storage can leave it behind. `Tried` says what such a call does to
the disk and to the memory of the executor, and the log of `Executor.logged` says in which folders
tests have been run. Together with the statements on single operations and on acts in any order this
is `ScratchArea.isolation`.
-/

set_option autoImplicit false

namespace GeneticRepair

variable {α ω : Type}

/-! ## One call -/

/-- What a call does outside of marks and evaluator: nothing, or one test run in the folder with a
number, from preparing the folder to discarding it. -/
inductive Tried (executor : Executor α ω) (area : ScratchArea) (id : Nat) :
    Disk × ω → Disk × ω → Prop where
  | idle (x : Disk × ω) : Tried executor area id x x
  | tested {disk made after disk' : Disk} {memory memory' : ω} {root : Node}
      {selection : Selection} {store : Store α} {outcome : Except TestRunError TestRun}
      (prepare : area.prepare id disk = .ok (area.folder id, made))
      (run : executor.run root selection (area.folder id) store (made, memory) =
        (outcome, (after, memory')))
      (discard : (area.folder id).discard after = .ok disk') :
      Tried executor area id (disk, memory) (disk', memory')

namespace Bench

variable {executor : Executor α ω} {id : Nat} {b b' : Bench α ω}

/-- The disk and the memory of the executor. -/
def outside (b : Bench α ω) : Disk × ω := (b.disk, b.memory)

def area (b : Bench α ω) : ScratchArea := b.evaluator.policy.scratchArea

theorem tried_of_trial {root : Node} {selection : Selection} {outcome : Except TestRunError TestRun}
    (h : b.trial executor id root selection = (.ok outcome, b')) :
    Tried executor b.area id b.outside b'.outside := by
  unfold trial at h
  split at h
  · cases h
  · next dir made hprepare =>
    obtain rfl := ScratchArea.folder_of_prepare hprepare
    simp only [] at h
    split at h
    · cases h
    · next disk hdiscard =>
      cases h
      exact .tested hprepare rfl hdiscard

variable [Scalar α] [Root α]

theorem outside_relocalize (wanted : Bool) (run : TestRun) (v : Variant α) (b : Bench α ω) :
    (b.relocalize wanted run v).2.outside = b.outside := by
  rw [relocalize]
  split
  · obtain ⟨hdisk, hmemory⟩ := outside_localize v.root run b
    exact Prod.ext hdisk hmemory
  · rfl

theorem outside_adopt (root : Node) (run : TestRun) (u : Universe) (b : Bench α ω) :
    (b.adopt root run u).2.outside = b.outside := by
  obtain ⟨hdisk, hmemory⟩ := outside_localize root run b
  exact Prod.ext hdisk hmemory

/-- An evaluation that storage does not stop runs tests to the end or not at all. -/
theorem tried_evaluate (executor : Executor α ω) (v : Variant α) (b : Bench α ω)
    (h : ∀ fault, (b.evaluate executor v).1 ≠ .error (.storage fault)) :
    Tried executor b.area v.id b.outside (b.evaluate executor v).2.outside := by
  cases hb : b.evaluator.baseline with
  | none =>
    rw [evaluate, hb]
    exact .idle _
  | some base =>
    have hev := evaluation executor v hb
    generalize b.evaluate executor v = answer at h hev
    cases hev with
    | inherited plan => exact .idle _
    | unstored plan trial => exact absurd rfl (h _)
    | refused plan trial verdict => exact tried_of_trial (b := b.count) trial
    | collapsed plan trial verdict => exact tried_of_trial (b := b.count) trial
    | scored plan trial verdict =>
      rw [outside_relocalize]
      exact tried_of_trial (b := b.count) trial

theorem tried_establish (executor : Executor α ω) (root : Node) (b : Bench α ω)
    (h : ∀ fault, (b.establish executor root).1 ≠ .error (.storage fault)) :
    Tried executor b.area 0 b.outside (b.establish executor root).2.outside := by
  unfold establish at h ⊢
  cases hvalid : b.evaluator.validate with
  | error fault => exact .idle _
  | ok _ =>
    rw [hvalid] at h
    simp only [] at h ⊢
    rcases htrial : b.trial executor 0 root (.everything true) with ⟨answer, b'⟩
    rw [htrial] at h
    rcases answer with fault | outcome
    · exact absurd rfl (h fault)
    · have htried := tried_of_trial htrial
      rcases outcome with e | run
      · cases e with
        | _ => exact htried
      · simp only []
        split
        · exact htried
        · split
          · exact htried
          · rw [outside_adopt]
            exact htried

end Bench

/-! ## The log -/

/-- The executor changes nothing outside of the folder that it is given, except that it may make
directories on the way. -/
def Executor.StaysInside (executor : Executor α ω) : Prop :=
  ∀ (root : Node) (selection : Selection) (dir : ScratchFolder) (store : Store α) (disk : Disk)
    (memory : ω) (q : FilePath), ¬ dir.path <+: q →
    let after := (executor.run root selection dir store (disk, memory)).2.1
    after.entryAt q = disk.entryAt q ∨
      q <+: dir.path ∧ disk.entryAt q ≠ some .file ∧ after.entryAt q = some .directory

/-- Nothing is left of the folders in the log. -/
def Tidy (x : Disk × (ω × List ScratchFolder)) : Prop :=
  ∀ dir ∈ x.2.2, ∀ q, dir.path <+: q → x.1.entryAt q = none

section

variable {executor : Executor α ω} {area : ScratchArea} {id : Nat}
  {x x' : Disk × (ω × List ScratchFolder)}

/-- Tests run in the folder with the number only, and after that nothing is left of it. -/
theorem Tried.log (h : Tried executor.logged area id x x') :
    x' = x ∨ x'.2.2 = x.2.2 ++ [area.folder id] ∧
      ∀ q, (area.folder id).path <+: q → x'.1.entryAt q = none := by
  cases h with
  | idle => exact .inl rfl
  | tested prepare run discard =>
    have hlog := congrArg (fun y => y.2.2.2) run
    exact .inr ⟨hlog.symm, fun q hq => (ScratchArea.discarded discard q).trans (if_pos hq)⟩

theorem Tried.tidy_of_nil (h : Tried executor.logged area id x x') (hlog : x.2.2 = []) :
    Tidy x' := by
  intro dir hdir
  obtain rfl | ⟨happend, hnone⟩ := h.log
  · rw [hlog] at hdir
    exact absurd hdir List.not_mem_nil
  · rw [happend, hlog] at hdir
    obtain rfl := List.mem_singleton.mp hdir
    exact hnone

/-- An executor that stays inside changes nothing about the folders of others. -/
theorem Tried.frame (hexecutor : executor.StaysInside) (h : Tried executor.logged area id x x') :
    area.Frame id x.1 x'.1 := by
  cases h with
  | idle => exact area.frame_refl id _
  | @tested disk made after disk' memory _ root selection store _ prepare run discard =>
    have hprepare : area.change id .prepare disk = .ok made :=
      congrArg (Except.map Prod.snd) prepare
    have hdiscard : area.change id .discard after = .ok disk' := discard
    have hrun : area.Frame id made after := by
      intro q hq
      have hafter : (executor.logged.run root selection (area.folder id) store
          (made, memory)).2.1 = after := congrArg (fun y => y.2.1) run
      rw [← hafter]
      refine (hexecutor root selection (area.folder id) store made memory.1 q hq).imp_right ?_
      rintro ⟨habove, hmade⟩
      exact ⟨ScratchArea.prefix_root (habove.trans (List.prefix_append _ [])) hq, hmade⟩
    exact (ScratchArea.frame_change hprepare).trans
      (hrun.trans (ScratchArea.frame_change hdiscard))

/-- After another call, nothing is left of the folders of all calls. -/
theorem Tried.tidy (hexecutor : executor.StaysInside) (h : Tried executor.logged area id x x')
    (hdirs : ∀ dir ∈ x.2.2, ∃ i, dir = area.folder i) (hx : Tidy x) :
    (∀ dir ∈ x'.2.2, ∃ i, dir = area.folder i) ∧ Tidy x' := by
  obtain rfl | ⟨happend, hnone⟩ := h.log
  · exact ⟨hdirs, hx⟩
  · have hcases {dir : ScratchFolder} (hdir : dir ∈ x'.2.2) :
        dir ∈ x.2.2 ∨ dir = area.folder id := by
      rw [happend] at hdir
      exact (List.mem_append.mp hdir).imp_right List.mem_singleton.mp
    refine ⟨fun dir hdir => ?_, fun dir hdir q hq => ?_⟩
    · obtain hdir | rfl := hcases hdir
      · exact hdirs dir hdir
      · exact ⟨id, rfl⟩
    · obtain hold | rfl := hcases hdir
      · obtain ⟨i, rfl⟩ := hdirs dir hold
        by_cases hi : id = i
        · exact hnone q (hi ▸ hq)
        · rw [← ((h.frame hexecutor).alikeAt hi).below q hq]
          exact hx _ hold q hq
      · exact hnone q hq

end

/-! ## Any calls -/

/-- A call of the evaluator. -/
inductive Call (α : Type) where
  | establish (root : Node)
  | evaluate (v : Variant α)

namespace Call

/-- The number of the folder in which a call may run tests. -/
def number : Call α → Nat
  | .establish _ => 0
  | .evaluate v => v.id

variable [Scalar α] [Root α] {executor : Executor α ω} {b b' : Bench α ω}

/-- What a call answers, and what it makes of the bench. -/
def perform (executor : Executor α ω) :
    Call α → Bench α ω → Except RepairFault (Assessment α) × Bench α ω
  | .establish root, b => b.establish executor root
  | .evaluate v, b => ((b.evaluate executor v).1.map Prod.fst, (b.evaluate executor v).2)

/-- The call ends, well or not, but not because storage failed. -/
def Ends (executor : Executor α ω) (call : Call α) (b : Bench α ω) : Prop :=
  ∀ fault, (call.perform executor b).1 ≠ .error (.storage fault)

theorem tried {call : Call α} (h : call.Ends executor b) :
    Tried executor b.area call.number b.outside (call.perform executor b).2.outside := by
  cases call with
  | establish root => exact b.tried_establish executor root h
  | evaluate v =>
    refine b.tried_evaluate executor v fun fault herror => h fault ?_
    rw [perform, herror]
    rfl

theorem area_perform (call : Call α) (b : Bench α ω) :
    (call.perform executor b).2.area = b.area := by
  cases call with
  | establish root =>
    rcases h : b.establish executor root with ⟨fault | a, b'⟩
    · rw [perform, h, Bench.area, Bench.evaluator_of_establish h]
      rfl
    · obtain ⟨base, hsame, -⟩ := Bench.fits_of_establish h
      rw [perform, h, Bench.area, hsame]
      rfl
  | evaluate v =>
    cases hb : b.evaluator.baseline with
    | none =>
      rw [perform, Bench.evaluate, hb]
    | some base =>
      rw [perform, Bench.area, Bench.evaluator_evaluate hb]
      rfl

end Call

/-- From one bench to another by calls none of which storage has stopped. In between anything but
the disk, the memory of the executor and the scratch area may change. -/
inductive Calls [Scalar α] [Root α] (executor : Executor α ω) : Bench α ω → Bench α ω → Prop where
  | none (b : Bench α ω) : Calls executor b b
  | next {b b' b'' : Bench α ω} (h : Calls executor b b') (houtside : b''.outside = b'.outside)
      (harea : b''.area = b'.area) (call : Call α) (hends : call.Ends executor b'') :
      Calls executor b (call.perform executor b'').2

/-- Nothing is left of any folder in which tests have been run. -/
theorem Calls.tidy [Scalar α] [Root α] {b b' : Bench α (ω × List ScratchFolder)}
    {executor : Executor α ω} (hexecutor : executor.StaysInside)
    (h : Calls executor.logged b b') (hlog : b.memory.2 = []) :
    Tidy b'.outside := by
  suffices hall : b'.area = b.area ∧ (∀ dir ∈ b'.memory.2, ∃ i, dir = b.area.folder i) ∧
      Tidy b'.outside from hall.2.2
  induction h with
  | none =>
    have hnone (dir : ScratchFolder) : dir ∉ b.memory.2 := hlog ▸ List.not_mem_nil
    exact ⟨rfl, fun dir hdir => absurd hdir (hnone dir), fun dir hdir => absurd hdir (hnone dir)⟩
  | @next b' b'' h houtside harea call hends ih =>
    obtain ⟨hsame, hdirs, htidy⟩ := ih
    have htried := call.tried hends
    rw [houtside, harea, hsame] at htried
    refine ⟨?_, htried.tidy hexecutor hdirs htidy⟩
    rw [call.area_perform, harea, hsame]

/-! ## Isolation -/

/-- Scratch folders are isolated, on any disk that is a tree.

A folder can be prepared unless a plain file stands in its way or in its place, and holds two empty
directories then; it can be discarded if it is there. Nothing else changes on the disk, but that
missing directories on the way to the folder are made. Whatever others do in their folders, and in
whatever order, an evaluation sees only its own files, and what it has discarded stays away. Calls
of the evaluator leave no folder behind in which tests have been run, whatever came of them, unless
storage fails. -/
theorem ScratchArea.isolation [Scalar α] [Root α] (s : ScratchArea) (id : Nat) {d : Disk}
    (hd : d.IsTree) :
    ((∃ dir d', s.prepare id d = .ok (dir, d')) ↔ d.Passable (s.folder id).path) ∧
    (∀ dir d', s.prepare id d = .ok (dir, d') →
      dir = s.folder id ∧ s.Prepared id d d' ∧ d'.IsTree ∧ s.SeesOwn id d') ∧
    ((∃ d', (s.folder id).discard d = .ok d') ↔
      d.entryAt (s.folder id).path = some .directory) ∧
    (∀ d', (s.folder id).discard d = .ok d' →
      (s.folder id).Discarded d d' ∧ d'.IsTree ∧
      ∀ events : List (Nat × FolderAct), (∀ event ∈ events, event.1 ≠ id) →
        ∀ q, (s.folder id).path <+: q → (s.performAll events d').2.entryAt q = none) ∧
    (∀ events, (s.performAll events d).2.IsTree) ∧
    ∀ (executor : Executor α ω) (b : Bench α (ω × List ScratchFolder)), b.memory.2 = [] →
      (∀ call : Call α, call.Ends executor.logged b →
        Tidy (call.perform executor.logged b).2.outside) ∧
      (executor.StaysInside → ∀ b', Calls executor.logged b b' → Tidy b'.outside) := by
  refine ⟨exists_prepare hd, fun dir d' h => ?_, exists_discard hd, fun d' h => ?_,
    isTree_performAll hd, fun executor b hlog => ⟨fun call hends => ?_, fun hexecutor b' h => ?_⟩⟩
  · exact ⟨folder_of_prepare h, prepared hd h, isTree_of_prepare hd h, seesOwn hd h⟩
  · exact ⟨discarded h, hd.pruned (discarded h), fun events hothers q hq =>
      discarded_performAll h hothers hq⟩
  · exact (call.tried hends).tidy_of_nil hlog
  · exact h.tidy hexecutor hlog

namespace StaleFolder

def area : ScratchArea := ⟨["scratch"]⟩

/-- A file has been left in the folder with the number three. -/
def stale : Disk :=
  ⟨[(["scratch", "variant-3", "old"], .file), (["scratch", "variant-3"], .directory),
    (["scratch"], .directory)]⟩

/-- The same disk after the folder has been prepared. -/
def swept : Disk :=
  ⟨[(["scratch", "variant-3", "output"], .directory),
    (["scratch", "variant-3", "classes"], .directory), (["scratch", "variant-3"], .directory),
    (["scratch"], .directory)]⟩

theorem isTree_stale : stale.IsTree :=
  Disk.isTree_empty.writeFile
    (rfl : Disk.empty.writeFile ["scratch", "variant-3", "old"] = .ok stale)

/-- Writes a file into its folder if it can, and reports that its tests are not those expected. -/
def executor : Executor Rat Unit where
  run _ _ dir _ before :=
    (.error (.inconsistent "other tests"),
      ((before.1.writeFile (dir.path ++ ["report"])).toOption.getD before.1, ()))

theorem staysInside : executor.StaysInside := by
  intro root selection dir store disk memory q hq
  simp only [executor]
  cases hwrite : disk.writeFile (dir.path ++ ["report"]) with
  | error fault => exact .inl rfl
  | ok after =>
    obtain ⟨above, name, hpath, hpass, -, hentries⟩ := Disk.writeFile_eq_ok hwrite
    obtain ⟨rfl, -⟩ := List.append_inj' hpath rfl
    have hne : q ≠ dir.path ++ ["report"] := by
      rintro rfl
      exact hq (List.prefix_append _ _)
    have hentry := hentries q
    rw [if_neg hne] at hentry
    split at hentry
    · next hle => exact .inr ⟨hle, hpass q hle, hentry⟩
    · exact .inl hentry

def bench : Bench Rat (Unit × List ScratchFolder) :=
  ⟨.new .standard .keepAll, .empty, stale, (), []⟩

end StaleFolder

open StaleFolder in
/-- The old file is gone once the folder has been prepared, a file of another evaluation is not
seen in it, and a first run with the wrong tests leaves no folder behind. -/
theorem ScratchArea.isolation_stale : ∃ _ : Root Rat, stale.IsTree ∧
    area.prepare 3 stale = .ok (area.folder 3, swept) ∧
    swept.entryAt ["scratch", "variant-3", "old"] = none ∧
    area.SeesOwn 3 swept ∧ executor.StaysInside ∧
    (bench.establish executor.logged (.make 0 .file [])).1 =
      .error (.integrity (.reported "other tests")) ∧
    Tidy (bench.establish executor.logged (.make 0 .file [])).2.outside := by
  let _ : Root Rat := ⟨fun x => x⟩
  obtain ⟨-, hprepare, -, -, -, hcalls⟩ := isolation (α := Rat) (ω := Unit) area 3 isTree_stale
  have hswept : area.prepare 3 stale = .ok (area.folder 3, swept) := rfl
  obtain ⟨-, hprepared, -, hown⟩ := hprepare _ _ hswept
  have hanswer : (bench.establish executor.logged (.make 0 .file [])).1 =
      .error (.integrity (.reported "other tests")) := rfl
  have hends : (Call.establish (.make 0 .file [])).Ends executor.logged bench := by
    intro fault hfault
    cases hanswer.symm.trans hfault
  exact ⟨inferInstance, isTree_stale, hswept,
    (hprepared.inside ["old"] (List.cons_ne_nil _ _)).trans (by decide), hown, staysInside, hanswer,
    (hcalls executor bench rfl).2 staysInside _ (.next (.none bench) rfl rfl _ hends)⟩

end GeneticRepair

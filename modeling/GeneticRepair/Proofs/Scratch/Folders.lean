import GeneticRepair.Scratch.Area

/-!
# `Proofs/Scratch/Folders.lean` — scratch folders

Different numbers name different folders. All that stands in the way of a scratch folder is a plain
file. On a disk that holds nothing but directories, a folder can be prepared whatever its path, and
it can be discarded afterwards; both leave a disk without plain files.
-/

set_option autoImplicit false

namespace GeneticRepair

theorem exists_of_bind_eq_ok {ε β γ : Type} {x : Except ε β} {f : β → Except ε γ} {y : γ}
    (h : (x >>= f) = .ok y) : ∃ b, x = .ok b ∧ f b = .ok y := by
  cases x with
  | error e => cases h
  | ok b => exact ⟨b, rfl, h⟩

theorem exists_of_map_eq_ok {ε β γ : Type} {x : Except ε β} {f : β → γ} {y : γ}
    (h : x.map f = .ok y) : ∃ a, x = .ok a ∧ f a = y := by
  cases x with
  | error e => cases h
  | ok a => exact ⟨a, rfl, Except.ok.inj h⟩

namespace ScratchArea

theorem repr_injective : Function.Injective Nat.repr := by
  intro i j h
  have hdigits : Nat.toDigits 10 i = Nat.toDigits 10 j := String.ofList_injective h
  have hvalue := congrArg (Nat.ofDigitChars 10 · 0) hdigits
  simpa only [Nat.ofDigitChars_ten_toDigits] using hvalue

theorem folderName_inj {i j : Nat} : folderName i = folderName j ↔ i = j := by
  constructor
  · intro h
    have hdigits : "variant-" ++ i.repr = "variant-" ++ j.repr := h
    exact repr_injective ((String.append_right_inj _).mp hdigits)
  · rintro rfl
    rfl

/-- Two numbers never share a folder. -/
theorem folder_inj {s : ScratchArea} {i j : Nat} : s.folder i = s.folder j ↔ i = j := by
  constructor
  · intro h
    have hpath : s.root ++ [folderName i] = s.root ++ [folderName j] :=
      congrArg ScratchFolder.path h
    exact folderName_inj.mp (List.singleton_inj.mp (List.append_cancel_left hpath))
  · rintro rfl
    rfl

/-- The folder that is prepared is the one with the number. -/
theorem folder_of_prepare {s : ScratchArea} {id : Nat} {d d' : Disk} {dir : ScratchFolder}
    (h : s.prepare id d = .ok (dir, d')) : dir = s.folder id := by
  unfold prepare at h
  simp only [] at h
  split at h
  all_goals
    obtain ⟨cleared, -, h⟩ := exists_of_bind_eq_ok h
    obtain ⟨made, -, h⟩ := exists_of_bind_eq_ok h
    obtain ⟨done, -, h⟩ := exists_of_bind_eq_ok h
    exact (Prod.mk.inj (Except.ok.inj h)).1.symm

end ScratchArea

namespace Disk

/-- There are only directories. -/
def Fileless (d : Disk) : Prop := ∀ p, d.entryAt p ≠ some .file

theorem entryAt_nil (d : Disk) : d.entryAt [] = some .directory := rfl

theorem fileless_empty : empty.Fileless := by
  intro p h
  cases p with
  | nil => cases h
  | cons name rest => cases h

theorem Fileless.put {d : Disk} (hd : d.Fileless) (p : FilePath) :
    (d.put p .directory).Fileless := by
  intro q
  by_cases hq : q = []
  · rw [hq, entryAt_nil]
    nofun
  · rw [entryAt_put d p .directory q hq]
    split
    · nofun
    · exact hd q

theorem Fileless.prune {d : Disk} (hd : d.Fileless) (p : FilePath) : (d.prune p).Fileless := by
  intro q
  by_cases hq : q = []
  · rw [hq, entryAt_nil]
    nofun
  · rw [entryAt_prune d p q hq]
    split
    · nofun
    · exact hd q

theorem Fileless.blocked {d : Disk} (hd : d.Fileless) (above p : FilePath) :
    d.blocked above p = false := by
  induction p generalizing above with
  | nil => rfl
  | cons name rest ih =>
    cases rest with
    | nil => rfl
    | cons name' rest =>
      rw [Disk.blocked, ih, Bool.or_false, decide_eq_false_iff_not]
      · exact hd _
      · nofun

/-- Directories can be made, and what is a directory stays one. -/
theorem Fileless.createBelow {d : Disk} (hd : d.Fileless) (above p : FilePath) :
    ∃ d', Disk.createBelow above p d = .ok d' ∧ d'.Fileless ∧
      (∀ q, d.entryAt q = some .directory → d'.entryAt q = some .directory) ∧
      ∀ q, q <+: p → q ≠ [] → d'.entryAt (above ++ q) = some .directory := by
  induction p generalizing above d with
  | nil =>
    refine ⟨d, rfl, hd, fun _ h => h, fun q hq hne => ?_⟩
    exact absurd (List.prefix_nil.mp hq) hne
  | cons name rest ih =>
    -- after the first name, made or found, the rest is made below it
    have hrest : ∀ e : Disk, e.Fileless → e.entryAt (above ++ [name]) = some .directory →
        (∀ q, d.entryAt q = some .directory → e.entryAt q = some .directory) →
        ∃ d', Disk.createBelow (above ++ [name]) rest e = .ok d' ∧ d'.Fileless ∧
          (∀ q, d.entryAt q = some .directory → d'.entryAt q = some .directory) ∧
          ∀ q, q <+: name :: rest → q ≠ [] → d'.entryAt (above ++ q) = some .directory := by
      intro e he hname hkeep
      obtain ⟨d', hd', hfree, hkeep', hmade⟩ := ih he (above ++ [name])
      refine ⟨d', hd', hfree, fun q hq => hkeep' q (hkeep q hq), fun q hq hne => ?_⟩
      cases q with
      | nil => exact absurd rfl hne
      | cons name' q =>
        obtain ⟨rfl, hq'⟩ := List.cons_prefix_cons.mp hq
        cases q with
        | nil => exact hkeep' _ hname
        | cons name'' q =>
          have := hmade _ hq' (List.cons_ne_nil _ _)
          rwa [List.append_assoc] at this
    rw [Disk.createBelow]
    have hp : above ++ [name] ≠ [] := by simp
    cases h : d.entryAt (above ++ [name]) with
    | none =>
      refine hrest _ (hd.put _) ?_ fun q hq => ?_
      · rw [entryAt_put _ _ _ _ hp, if_pos rfl]
      · by_cases hnil : q = []
        · rw [hnil, entryAt_nil]
        · rw [entryAt_put _ _ _ _ hnil]
          split
          · rfl
          · exact hq
    | some entry =>
      cases entry with
      | file => exact absurd h (hd _)
      | directory => exact hrest d hd h fun _ hq => hq

end Disk

open Disk

theorem ScratchFolder.discard_of_fileless {d : Disk} (hd : d.Fileless) {s : ScratchFolder}
    (hs : d.entryAt s.path = some .directory) : ∃ d', s.discard d = .ok d' ∧ d'.Fileless := by
  refine ⟨d.prune s.path, ?_, hd.prune _⟩
  rw [discard, removeTree, hd.blocked, hs]
  rfl

theorem mapError_ok {ε ε' β : Type} (f : ε → ε') (b : β) :
    (Except.ok b : Except ε β).mapError f = .ok b := rfl

/-- Without plain files a scratch folder can be made, and is a directory then. -/
theorem ScratchArea.prepare_of_fileless {d : Disk} (hd : d.Fileless) (s : ScratchArea) (id : Nat) :
    ∃ d', s.prepare id d = .ok (s.folder id, d') ∧ d'.Fileless ∧
      d'.entryAt (s.folder id).path = some .directory := by
  have hmake : ∀ d₁ : Disk, d₁.Fileless →
      ∃ d₂ d₃, d₁.createDirectories (s.folder id).classes = .ok d₂ ∧
        d₂.createDirectories (s.folder id).output = .ok d₃ ∧ d₃.Fileless ∧
        d₃.entryAt (s.folder id).path = some .directory := by
    intro d₁ hd₁
    obtain ⟨d₂, h₂, hd₂, -, hmade⟩ := hd₁.createBelow [] (s.folder id).classes
    obtain ⟨d₃, h₃, hd₃, hkeep, -⟩ := hd₂.createBelow [] (s.folder id).output
    refine ⟨d₂, d₃, h₂, h₃, hd₃, hkeep _ (hmade _ (List.prefix_append _ _) ?_)⟩
    simp
  cases h : d.entryAt (s.folder id).path with
  | none =>
    obtain ⟨d₂, d₃, h₂, h₃, hd₃, hdir⟩ := hmake d hd
    refine ⟨d₃, ?_, hd₃, hdir⟩
    simp only [prepare, h, h₂, h₃, mapError_ok, Option.isSome_none, Bool.false_eq_true, if_false,
      bind, Except.bind, pure, Except.pure]
  | some entry =>
    cases entry with
    | file => exact absurd h (hd _)
    | directory =>
      obtain ⟨d₁, h₁, hd₁⟩ := ScratchFolder.discard_of_fileless hd h
      obtain ⟨d₂, d₃, h₂, h₃, hd₃, hdir⟩ := hmake d₁ hd₁
      refine ⟨d₃, ?_, hd₃, hdir⟩
      simp only [prepare, h, h₁, h₂, h₃, mapError_ok, Option.isSome_some, if_true, bind,
        Except.bind, pure, Except.pure]

end GeneticRepair

import GeneticRepair.Proofs.Scratch.Folders

/-!
# `Proofs/Scratch/Trees.lean` — what the operations make of a disk

A disk is a tree if everything on it lies in directories (`Disk.IsTree`), and all operations keep it
one. For each operation there is one statement of what has become of every path, and on a tree one
of when the operation succeeds: all that can stand in the way of a directory is a plain file
(`Disk.Passable`). For a scratch folder that comes to `ScratchArea.Prepared` and
`ScratchFolder.Discarded`.
-/

set_option autoImplicit false

namespace GeneticRepair

namespace Disk

variable {d d' : Disk} {p q above rest : FilePath}

theorem entryAt_put_of_ne_nil (hp : p ≠ []) (d : Disk) (e : DiskEntry) (q : FilePath) :
    (d.put p e).entryAt q = if q = p then some e else d.entryAt q := by
  by_cases hq : q = []
  · rw [hq, if_neg (Ne.symm hp), entryAt_nil, entryAt_nil]
  · exact entryAt_put d p e q hq

theorem entryAt_prune_of_ne_nil (hp : p ≠ []) (d : Disk) (q : FilePath) :
    (d.prune p).entryAt q = if p <+: q then none else d.entryAt q := by
  by_cases hq : q = []
  · rw [hq, if_neg (fun h => hp (List.prefix_nil.mp h)), entryAt_nil, entryAt_nil]
  · simp only [entryAt_prune d p q hq, List.isPrefixOf_iff_prefix]

/-! ## Directories -/

/-- No plain file stands at a path or on the way to it. -/
def Passable (d : Disk) (p : FilePath) : Prop := ∀ q, q <+: p → d.entryAt q ≠ some .file

/-- A path and all on the way to it are directories. -/
def Reaches (d : Disk) (p : FilePath) : Prop := ∀ q, q <+: p → d.entryAt q = some .directory

theorem reaches_nil (d : Disk) : d.Reaches [] := by
  intro q hq
  rw [List.prefix_nil.mp hq]
  exact d.entryAt_nil

theorem Reaches.passable (h : d.Reaches p) : d.Passable p := by
  intro q hq hfile
  rw [h q hq] at hfile
  cases hfile

theorem ne_nil_of_concat (above : FilePath) (name : String) : above ++ [name] ≠ [] := by simp

/-- Where no file stands there is a directory after one step down. -/
theorem createBelow_cons {name : String} (h : d.entryAt (above ++ [name]) ≠ some .file) :
    ∃ e : Disk, createBelow above (name :: rest) d = createBelow (above ++ [name]) rest e ∧
      ∀ q, e.entryAt q = if q = above ++ [name] then some .directory else d.entryAt q := by
  rw [createBelow]
  cases hname : d.entryAt (above ++ [name]) with
  | none => exact ⟨_, rfl, entryAt_put_of_ne_nil (ne_nil_of_concat above name) d .directory⟩
  | some entry =>
    cases entry with
    | file => exact absurd hname h
    | directory =>
      refine ⟨d, rfl, fun q => ?_⟩
      split
      · next hq => rw [hq, hname]
      · rfl

theorem Reaches.step {name : String} {e : Disk} (h : d.Reaches above)
    (he : ∀ q, e.entryAt q = if q = above ++ [name] then some .directory else d.entryAt q) :
    e.Reaches (above ++ [name]) := by
  intro q hq
  rw [he]
  split
  · rfl
  · next hne => exact h q ((List.prefix_concat_iff.mp hq).resolve_left hne)

/-- What has been made is the way down; there was no file on it. -/
theorem createBelow_eq_ok (habove : d.Reaches above) (h : createBelow above rest d = .ok d') :
    d.Passable (above ++ rest) ∧
      ∀ q, d'.entryAt q = if q <+: above ++ rest then some .directory else d.entryAt q := by
  induction rest generalizing above d with
  | nil =>
    obtain rfl := Except.ok.inj h
    rw [List.append_nil]
    refine ⟨habove.passable, fun q => ?_⟩
    split
    · next hq => exact habove q hq
    · rfl
  | cons name rest ih =>
    have hname : d.entryAt (above ++ [name]) ≠ some .file := by
      intro hfile
      rw [createBelow, hfile] at h
      cases h
    obtain ⟨e, hstep, he⟩ := @createBelow_cons d above rest name hname
    obtain ⟨hpass, hentries⟩ := ih (habove.step he) (hstep ▸ h)
    rw [List.append_cons]
    refine ⟨fun q hq => ?_, fun q => ?_⟩
    · by_cases hq' : q = above ++ [name]
      · rwa [hq']
      · have hfree := hpass q hq
        rwa [he, if_neg hq'] at hfree
    · rw [hentries, he]
      split
      · rfl
      · next hq =>
        rw [if_neg]
        rintro rfl
        exact hq (List.prefix_append _ _)

theorem exists_createBelow (h : d.Passable (above ++ rest)) :
    ∃ d', createBelow above rest d = .ok d' := by
  induction rest generalizing above d with
  | nil => exact ⟨d, rfl⟩
  | cons name rest ih =>
    rw [List.append_cons] at h
    obtain ⟨e, hstep, he⟩ := createBelow_cons (h _ (List.prefix_append _ rest))
    rw [hstep]
    refine ih fun q hq => ?_
    rw [he]
    split
    · nofun
    · exact h q hq

/-- Directories can be made where no file is in the way. -/
theorem exists_createDirectories : (∃ d', d.createDirectories p = .ok d') ↔ d.Passable p :=
  ⟨fun ⟨_, h⟩ => (createBelow_eq_ok d.reaches_nil h).1, @exists_createBelow d [] p⟩

theorem entryAt_createDirectories (h : d.createDirectories p = .ok d') (q : FilePath) :
    d'.entryAt q = if q <+: p then some .directory else d.entryAt q :=
  (createBelow_eq_ok d.reaches_nil h).2 q

/-! ## Files -/

/-- A path is no directory on the way to itself. -/
theorem concat_not_above (above : FilePath) (name : String) : ¬ above ++ [name] <+: above := by
  intro h
  have hlen := h.length_le
  rw [List.length_append, List.length_singleton] at hlen
  exact absurd hlen (Nat.not_succ_le_self _)

theorem prefix_child {name : String} (hrest : rest ≠ []) :
    p ++ rest <+: p ++ [name] ↔ rest = [name] := by
  rw [List.prefix_append_right_inj, ← List.nil_append [name], List.prefix_concat_iff]
  simp [hrest]

/-- A file is written in a directory that is made for it, unless a directory stands there. -/
theorem writeFile_eq_ok (h : d.writeFile p = .ok d') :
    ∃ above name, p = above ++ [name] ∧ d.Passable above ∧ d.entryAt p ≠ some .directory ∧
      ∀ q, d'.entryAt q = if q = p then some .file
        else if q <+: above then some .directory else d.entryAt q := by
  obtain ⟨made, hmade, h⟩ := exists_of_bind_eq_ok h
  have hentries := entryAt_createDirectories hmade
  have hpass := exists_createDirectories.mp ⟨made, hmade⟩
  split at h
  · cases h
  · next hdirectory =>
    obtain rfl := Except.ok.inj h
    obtain rfl | ⟨above, name, hp⟩ := List.eq_nil_or_concat p
    · exact absurd rfl hdirectory
    · rw [List.concat_eq_append] at hp
      subst hp
      rw [List.dropLast_concat] at hentries hpass
      refine ⟨above, name, rfl, hpass, fun hp => ?_, fun q => ?_⟩
      · refine hdirectory (decide_eq_true ?_)
        rw [hentries, if_neg (concat_not_above above name), hp]
      · rw [entryAt_put_of_ne_nil (ne_nil_of_concat above name), hentries]

/-! ## Trees -/

/-- Whatever there is lies in directories. -/
def IsTree (d : Disk) : Prop :=
  ∀ p q, p <+: q → p ≠ q → d.entryAt q ≠ none → d.entryAt p = some .directory

theorem isTree_empty : empty.IsTree := by
  intro p q hpq hne hq
  cases q with
  | nil => exact absurd (List.prefix_nil.mp hpq) hne
  | cons => exact absurd rfl hq

namespace IsTree

theorem reaches (h : d.IsTree) (hp : d.entryAt p = some .directory) : d.Reaches p := by
  intro q hq
  by_cases hne : q = p
  · rw [hne, hp]
  · exact h q p hq hne (by rw [hp]; nofun)

/-- Nothing lies below what is not there. -/
theorem none_below (h : d.IsTree) (hp : d.entryAt p = none) (hq : p <+: q) :
    d.entryAt q = none := by
  by_cases hne : p = q
  · rw [← hne, hp]
  · cases hsome : d.entryAt q with
    | none => rfl
    | some entry =>
      rw [h p q hq hne (by rw [hsome]; nofun)] at hp
      cases hp

theorem createDirectories (h : d.IsTree) (hd' : d.createDirectories p = .ok d') : d'.IsTree := by
  intro r q hrq hne hq
  rw [entryAt_createDirectories hd'] at hq ⊢
  split
  · rfl
  · next hr =>
    rw [if_neg fun hq' => hr (hrq.trans hq')] at hq
    exact h r q hrq hne hq

theorem pruned (h : d.IsTree)
    (hd' : ∀ q, d'.entryAt q = if p <+: q then none else d.entryAt q) : d'.IsTree := by
  intro r q hrq hne hq
  rw [hd'] at hq ⊢
  split at hq
  · exact absurd rfl hq
  · next hpq =>
    rw [if_neg fun hr => hpq (hr.trans hrq)]
    exact h r q hrq hne hq

theorem writeFile (h : d.IsTree) (hd' : d.writeFile p = .ok d') : d'.IsTree := by
  obtain ⟨above, name, rfl, -, hdirectory, hentries⟩ := writeFile_eq_ok hd'
  intro r q hrq hne hq
  rw [hentries] at hq ⊢
  by_cases hqp : q = above ++ [name]
  · subst hqp
    rw [if_neg hne, if_pos ((List.prefix_concat_iff.mp hrq).resolve_left hne)]
  · rw [if_neg hqp] at hq
    by_cases hqa : q <+: above
    · have hra : r <+: above := hrq.trans hqa
      have hr : r ≠ above ++ [name] := by
        rintro rfl
        exact concat_not_above above name hra
      rw [if_neg hr, if_pos hra]
    · rw [if_neg hqa] at hq
      have hr : r ≠ above ++ [name] := by
        rintro rfl
        exact hdirectory (h _ q hrq hne hq)
      rw [if_neg hr, h r q hrq hne hq, ite_self]

end IsTree

theorem blocked_cons {name : String} (hrest : rest ≠ []) :
    d.blocked above (name :: rest) =
      (decide (d.entryAt (above ++ [name]) = some .file) || d.blocked (above ++ [name]) rest) := by
  rw [blocked]
  exact hrest

theorem Passable.blocked (h : d.Passable (above ++ rest)) : d.blocked above rest = false := by
  induction rest generalizing above with
  | nil => rfl
  | cons name rest ih =>
    rw [List.append_cons] at h
    cases rest with
    | nil => rfl
    | cons name' rest =>
      rw [blocked_cons (List.cons_ne_nil name' rest), ih h, Bool.or_false, decide_eq_false_iff_not]
      exact h _ (List.prefix_append _ _)

theorem removeTree_eq_ok (h : d.removeTree p = .ok d') :
    d.entryAt p = some .directory ∧ d' = d.prune p := by
  unfold removeTree at h
  split at h
  · cases h
  · split at h
    · cases h
    · cases h
    · next hp => exact ⟨hp, (Except.ok.inj h).symm⟩

theorem entryAt_removeTree (hp : p ≠ []) (h : d.removeTree p = .ok d') (q : FilePath) :
    d'.entryAt q = if p <+: q then none else d.entryAt q := by
  obtain ⟨-, rfl⟩ := removeTree_eq_ok h
  exact entryAt_prune_of_ne_nil hp d q

/-- On a tree the directories can be removed. -/
theorem IsTree.removeTree (h : d.IsTree) (hp : d.entryAt p = some .directory) :
    d.removeTree p = .ok (d.prune p) := by
  have hpass : d.Passable ([] ++ p) := (h.reaches hp).passable
  simp only [Disk.removeTree, hpass.blocked, hp, Bool.false_eq_true, if_false]

end Disk

open Disk

theorem mapError_eq_ok {ε ε' β : Type} {x : Except ε β} {f : ε → ε'} {y : β}
    (h : x.mapError f = .ok y) : x = .ok y := by
  cases x with
  | error e => cases h
  | ok b =>
    cases h
    rfl

theorem map_bind_eq {ε β γ δ : Type} (x : Except ε β) (f : β → Except ε γ) (g : γ → δ) :
    (x >>= f).map g = x >>= fun b => (f b).map g := by
  cases x with
  | error e => rfl
  | ok b => rfl

variable {d d' : Disk} {s : ScratchArea} {id : Nat} {dir : ScratchFolder}

/-! ## Discarding -/

/-- The folder is gone with all that was in it, and everything else is as it was. -/
def ScratchFolder.Discarded (dir : ScratchFolder) (d d' : Disk) : Prop :=
  ∀ q, d'.entryAt q = if dir.path <+: q then none else d.entryAt q

theorem ScratchArea.path_folder (s : ScratchArea) (id : Nat) :
    (s.folder id).path = s.root ++ [folderName id] := rfl

theorem ScratchArea.path_folder_ne_nil (s : ScratchArea) (id : Nat) : (s.folder id).path ≠ [] :=
  ne_nil_of_concat _ _

theorem ScratchArea.discarded (h : (s.folder id).discard d = .ok d') :
    (s.folder id).Discarded d d' :=
  entryAt_removeTree (s.path_folder_ne_nil id) (mapError_eq_ok h)

/-- What can be discarded are the directories. -/
theorem ScratchArea.exists_discard (hd : d.IsTree) :
    (∃ d', (s.folder id).discard d = .ok d') ↔
      d.entryAt (s.folder id).path = some .directory := by
  constructor
  · rintro ⟨d', h⟩
    exact (removeTree_eq_ok (mapError_eq_ok h)).1
  · intro hdir
    refine ⟨d.prune (s.folder id).path, ?_⟩
    rw [ScratchFolder.discard, hd.removeTree hdir]
    rfl

/-! ## Preparing -/

namespace ScratchArea

/-- The folder holds two directories with nothing in them. All on the way to it are directories,
which were there or have been made, and everything else is as it was. -/
structure Prepared (s : ScratchArea) (id : Nat) (d d' : Disk) : Prop where
  reaches : d'.Reaches (s.folder id).path
  inside : ∀ rest, rest ≠ [] → d'.entryAt ((s.folder id).path ++ rest) =
    if rest = ["classes"] ∨ rest = ["output"] then some .directory else none
  above : ∀ q, q <+: s.root → d.entryAt q = none ∨ d.entryAt q = some .directory
  outside : ∀ q, ¬ (s.folder id).path <+: q → ¬ q <+: s.root → d'.entryAt q = d.entryAt q

/-- Preparing is clearing, and making two directories. -/
theorem map_snd_prepare (s : ScratchArea) (id : Nat) (d : Disk) :
    (s.prepare id d).map Prod.snd =
      ((if (d.entryAt (s.folder id).path).isSome then (s.folder id).discard d else .ok d) >>=
        fun cleared => (cleared.createDirectories (s.folder id).classes).mapError
          (⟨(s.folder id).classes, ·⟩) >>=
        fun made => (made.createDirectories (s.folder id).output).mapError
          (⟨(s.folder id).output, ·⟩)) := by
  unfold prepare
  simp only []
  split
  all_goals
    rw [map_bind_eq]
    refine bind_congr fun cleared => ?_
    rw [map_bind_eq]
    refine bind_congr fun made => ?_
    rw [map_bind_eq]
    cases (made.createDirectories (s.folder id).output).mapError _ with
    | error fault => rfl
    | ok done => rfl

section Clearing

variable {cleared : Disk}

theorem discarded_of_clear (hd : d.IsTree)
    (h : (if (d.entryAt (s.folder id).path).isSome then (s.folder id).discard d else .ok d) =
      .ok cleared) : (s.folder id).Discarded d cleared := by
  split at h
  · exact discarded h
  · next hsome =>
    obtain rfl := Except.ok.inj h
    intro q
    split
    · next hq => exact hd.none_below (Option.not_isSome_iff_eq_none.mp hsome) hq
    · rfl

/-- A file in the place of the folder is not cleared away. -/
theorem exists_clear (hd : d.IsTree) :
    (∃ cleared, (if (d.entryAt (s.folder id).path).isSome then (s.folder id).discard d
      else .ok d) = .ok cleared) ↔ d.entryAt (s.folder id).path ≠ some .file := by
  cases hhere : d.entryAt (s.folder id).path with
  | none => exact ⟨fun _ => nofun, fun _ => ⟨d, rfl⟩⟩
  | some entry =>
    rw [Option.isSome_some, if_pos rfl, exists_discard hd, hhere]
    cases entry with
    | file => exact ⟨nofun, fun h => absurd rfl h⟩
    | directory => exact ⟨fun _ => nofun, fun _ => rfl⟩

/-- The folder is cleared before anything is made in it. -/
theorem steps_of_prepare (hd : d.IsTree) (h : s.prepare id d = .ok (dir, d')) :
    d.entryAt (s.folder id).path ≠ some .file ∧
      ∃ cleared made, (s.folder id).Discarded d cleared ∧
        cleared.createDirectories (s.folder id).classes = .ok made ∧
        made.createDirectories (s.folder id).output = .ok d' := by
  have hsteps : (s.prepare id d).map Prod.snd = .ok d' := congrArg (Except.map Prod.snd) h
  rw [map_snd_prepare] at hsteps
  obtain ⟨cleared, hcleared, hsteps⟩ := exists_of_bind_eq_ok hsteps
  obtain ⟨made, hmade, hdone⟩ := exists_of_bind_eq_ok hsteps
  exact ⟨(exists_clear hd).mp ⟨cleared, hcleared⟩, cleared, made, discarded_of_clear hd hcleared,
    mapError_eq_ok hmade, mapError_eq_ok hdone⟩

/-- In a folder that has been cleared the two directories can be made. -/
theorem exists_make (hcleared : (s.folder id).Discarded d cleared)
    (hpass : d.Passable (s.folder id).path) :
    ∃ made d', cleared.createDirectories (s.folder id).classes = .ok made ∧
      made.createDirectories (s.folder id).output = .ok d' := by
  have hfree (name : String) : cleared.Passable ((s.folder id).path ++ [name]) := by
    intro q hq
    rw [hcleared]
    split
    · nofun
    · next hnot =>
      obtain rfl | hq := List.prefix_concat_iff.mp hq
      · exact absurd (List.prefix_append _ _) hnot
      · exact hpass q hq
  obtain ⟨made, hmade⟩ := exists_createDirectories.mpr (hfree "classes")
  have hfree' : made.Passable (s.folder id).output := by
    intro q hq
    rw [entryAt_createDirectories hmade]
    split
    · nofun
    · exact hfree "output" q hq
  obtain ⟨d', hdone⟩ := exists_createDirectories.mpr hfree'
  exact ⟨made, d', hmade, hdone⟩

end Clearing

theorem not_below_folder {q : FilePath} (hq : q <+: s.root) : ¬ (s.folder id).path <+: q :=
  fun h => concat_not_above s.root (folderName id) (h.trans hq)

theorem prepared (hd : d.IsTree) (h : s.prepare id d = .ok (dir, d')) :
    s.Prepared id d d' := by
  obtain ⟨-, cleared, made, hcleared, hmade, hdone⟩ := steps_of_prepare hd h
  have hentries (q : FilePath) : d'.entryAt q =
      if q <+: (s.folder id).path ++ ["output"] then some .directory
      else if q <+: (s.folder id).path ++ ["classes"] then some .directory
      else if (s.folder id).path <+: q then none else d.entryAt q := by
    rw [entryAt_createDirectories hdone, entryAt_createDirectories hmade, hcleared,
      ScratchFolder.output, ScratchFolder.classes]
  refine ⟨fun q hq => ?_, fun rest hrest => ?_, fun q hq => ?_, fun q hbelow habove => ?_⟩
  · rw [hentries, if_pos (hq.trans (List.prefix_append _ _))]
  · rw [hentries, if_pos (List.prefix_append (s.folder id).path rest)]
    simp only [prefix_child hrest]
    by_cases hout : rest = ["output"]
    · rw [if_pos hout, if_pos (.inr hout)]
    · rw [if_neg hout]
      by_cases hclasses : rest = ["classes"]
      · rw [if_pos hclasses, if_pos (.inl hclasses)]
      · rw [if_neg hclasses, if_neg (not_or.mpr ⟨hclasses, hout⟩)]
  · have hpass := exists_createDirectories.mp ⟨made, hmade⟩ q
      (hq.trans ((List.prefix_append _ _).trans (List.prefix_append _ _)))
    rw [hcleared, if_neg (not_below_folder hq)] at hpass
    cases hentry : d.entryAt q with
    | none => exact .inl rfl
    | some entry =>
      cases entry with
      | file => exact absurd hentry hpass
      | directory => exact .inr rfl
  · have hnot (name : String) : ¬ q <+: (s.folder id).path ++ [name] := by
      intro hq
      obtain rfl | hq := List.prefix_concat_iff.mp hq
      · exact hbelow (List.prefix_append _ _)
      · obtain rfl | hq := List.prefix_concat_iff.mp hq
        · exact hbelow (List.prefix_refl _)
        · exact habove hq
    rw [hentries, if_neg (hnot _), if_neg (hnot _), if_neg hbelow]

theorem isTree_of_prepare (hd : d.IsTree) (h : s.prepare id d = .ok (dir, d')) : d'.IsTree := by
  obtain ⟨-, cleared, made, hcleared, hmade, hdone⟩ := steps_of_prepare hd h
  exact ((hd.pruned hcleared).createDirectories hmade).createDirectories hdone

/-- A folder can be prepared unless a plain file stands in its way, or in its place. -/
theorem exists_prepare (hd : d.IsTree) :
    (∃ dir d', s.prepare id d = .ok (dir, d')) ↔ d.Passable (s.folder id).path := by
  constructor
  · rintro ⟨dir, d', h⟩ q hq hfile
    obtain ⟨hhere, -⟩ := steps_of_prepare hd h
    obtain rfl | hq := List.prefix_concat_iff.mp hq
    · exact hhere hfile
    · obtain hnone | hdir := (prepared hd h).above q hq
      · rw [hnone] at hfile
        cases hfile
      · rw [hdir] at hfile
        cases hfile
  · intro hpass
    obtain ⟨cleared, hcleared⟩ := (exists_clear hd).mpr (hpass _ (List.prefix_refl _))
    obtain ⟨made, d', hmade, hdone⟩ := exists_make (discarded_of_clear hd hcleared) hpass
    have hsteps : (s.prepare id d).map Prod.snd = .ok d' := by
      rw [map_snd_prepare, hcleared]
      simp only [bind, Except.bind, hmade, hdone, mapError_ok]
    cases hprepare : s.prepare id d with
    | error fault =>
      rw [hprepare] at hsteps
      cases hsteps
    | ok prepared => exact ⟨prepared.1, prepared.2, rfl⟩

end ScratchArea

end GeneticRepair

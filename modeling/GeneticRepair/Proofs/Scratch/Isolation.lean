import GeneticRepair.Proofs.Scratch.Trees

/-!
# `Proofs/Scratch/Isolation.lean` — working side by side

Evaluations that run at the same time each work in a folder of their own, and their acts come in any
order. Whoever works in a folder can tell two disks apart only by what is in it and by the plain
files that stand in its way (`Disk.AlikeAt`). Its own acts keep such disks alike
(`ScratchArea.alike_perform`), and the acts of others keep every disk like itself
(`ScratchArea.alike_of_other`), so it gets the answers that it would get alone, and finds no file in
its folder but its own (`ScratchArea.seesOwn`).
-/

set_option autoImplicit false

namespace GeneticRepair

/-! ## Disks that look alike -/

namespace Disk

/-- The same entries from a path on down, and plain files at the same places on the way to it. -/
structure AlikeAt (p : FilePath) (d d' : Disk) : Prop where
  below : ∀ q, p <+: q → d.entryAt q = d'.entryAt q
  above : ∀ q, q <+: p → (d.entryAt q = some .file ↔ d'.entryAt q = some .file)

/-- Operations that fail in the same way, or both succeed and leave disks that look alike. -/
inductive AgreeAt {ε : Type} (p : FilePath) : Except ε Disk → Except ε Disk → Prop where
  | fails (e : ε) : AgreeAt p (.error e) (.error e)
  | works {d d' : Disk} (h : AlikeAt p d d') : AgreeAt p (.ok d) (.ok d')

variable {d d' : Disk} {p q above rest : FilePath} {ε ε' : Type}

namespace AgreeAt

theorem bind {x x' : Except ε Disk} {f f' : Disk → Except ε Disk} (h : AgreeAt p x x')
    (hf : ∀ d d', AlikeAt p d d' → AgreeAt p (f d) (f' d')) : AgreeAt p (x >>= f) (x' >>= f') := by
  cases h with
  | fails e => exact .fails e
  | works h => exact hf _ _ h

theorem mapError {x x' : Except ε Disk} (h : AgreeAt p x x') (f : ε → ε') :
    AgreeAt p (x.mapError f) (x'.mapError f) := by
  cases h with
  | fails e => exact .fails (f e)
  | works h => exact .works h

end AgreeAt

namespace AlikeAt

theorem refl (p : FilePath) (d : Disk) : AlikeAt p d d := ⟨fun _ _ => rfl, fun _ _ => Iff.rfl⟩

theorem symm (h : AlikeAt p d d') : AlikeAt p d' d :=
  ⟨fun q hq => (h.below q hq).symm, fun q hq => (h.above q hq).symm⟩

theorem trans {d'' : Disk} (h : AlikeAt p d d') (h' : AlikeAt p d' d'') : AlikeAt p d d'' :=
  ⟨fun q hq => (h.below q hq).trans (h'.below q hq),
    fun q hq => (h.above q hq).trans (h'.above q hq)⟩

/-- Plain files stand at the same places on the way to any path from there on down. -/
theorem file_iff (h : AlikeAt p d d') (hq : q <+: p ++ rest) :
    d.entryAt q = some .file ↔ d'.entryAt q = some .file := by
  obtain hq | hq := List.prefix_or_prefix_of_prefix hq (List.prefix_append p rest)
  · exact h.above q hq
  · rw [h.below q hq]

/-- The same change at the same paths. -/
theorem change {e e' : Disk} {changed : FilePath → Prop} [DecidablePred changed]
    {entry : Option DiskEntry} (h : AlikeAt p d d')
    (he : ∀ q, e.entryAt q = if changed q then entry else d.entryAt q)
    (he' : ∀ q, e'.entryAt q = if changed q then entry else d'.entryAt q) : AlikeAt p e e' := by
  constructor
  · intro q hq
    rw [he, he', h.below q hq]
  · intro q hq
    rw [he, he']
    split
    · rfl
    · exact h.above q hq

theorem createBelow (h : AlikeAt p d d') (hfiles : ∀ q, q <+: above ++ rest →
    (d.entryAt q = some .file ↔ d'.entryAt q = some .file)) :
    AgreeAt p (Disk.createBelow above rest d) (Disk.createBelow above rest d') := by
  induction rest generalizing above d d' with
  | nil => exact .works h
  | cons name rest ih =>
    rw [List.append_cons] at hfiles
    have hname := hfiles _ (List.prefix_append _ rest)
    by_cases hfile : d.entryAt (above ++ [name]) = some .file
    · rw [Disk.createBelow, Disk.createBelow, hfile, hname.mp hfile]
      exact .fails _
    · obtain ⟨e, hstep, he⟩ := @createBelow_cons d above rest name hfile
      obtain ⟨e', hstep', he'⟩ := @createBelow_cons d' above rest name (mt hname.mpr hfile)
      rw [hstep, hstep']
      refine ih (h.change he he') fun q hq => ?_
      rw [he, he']
      split
      · rfl
      · exact hfiles q hq

/-- Directories on the way to a path below. -/
theorem createDirectories (h : AlikeAt p d d') (hq : q <+: p ++ rest) :
    AgreeAt p (d.createDirectories q) (d'.createDirectories q) :=
  h.createBelow fun _ hr => h.file_iff (hr.trans hq)

theorem blocked (hfiles : ∀ q, q <+: above ++ rest →
    (d.entryAt q = some .file ↔ d'.entryAt q = some .file)) :
    d.blocked above rest = d'.blocked above rest := by
  induction rest generalizing above with
  | nil => rfl
  | cons name rest ih =>
    rw [List.append_cons] at hfiles
    cases rest with
    | nil => rfl
    | cons name' rest =>
      rw [blocked_cons (List.cons_ne_nil name' rest), blocked_cons (List.cons_ne_nil name' rest),
        ih hfiles, decide_eq_decide.mpr (hfiles _ (List.prefix_append _ _))]

theorem removeTree (h : AlikeAt p d d') (hp : p ≠ []) :
    AgreeAt p (d.removeTree (p ++ rest)) (d'.removeTree (p ++ rest)) := by
  have hne : p ++ rest ≠ [] := List.append_ne_nil_of_left_ne_nil hp rest
  have hblocked : d.blocked [] (p ++ rest) = d'.blocked [] (p ++ rest) :=
    blocked fun q hq => h.file_iff hq
  unfold Disk.removeTree
  rw [hblocked, h.below _ (List.prefix_append p rest)]
  split
  · exact .fails _
  · cases d'.entryAt (p ++ rest) with
    | none => exact .fails _
    | some entry =>
      cases entry with
      | file => exact .fails _
      | directory =>
        exact .works (h.change (entryAt_prune_of_ne_nil hne d) (entryAt_prune_of_ne_nil hne d'))

theorem writeFile (h : AlikeAt p d d') (hp : p ≠ []) :
    AgreeAt p (d.writeFile (p ++ rest)) (d'.writeFile (p ++ rest)) := by
  have hne : p ++ rest ≠ [] := List.append_ne_nil_of_left_ne_nil hp rest
  refine (h.createDirectories (List.dropLast_prefix _)).bind fun e e' he => ?_
  have hdirectory : e.isDirectory (p ++ rest) = e'.isDirectory (p ++ rest) := by
    rw [isDirectory, isDirectory, he.below _ (List.prefix_append p rest)]
  simp only [hdirectory]
  cases e'.isDirectory (p ++ rest) with
  | true => exact .fails _
  | false =>
    exact .works (he.change (entryAt_put_of_ne_nil hne e _) (entryAt_put_of_ne_nil hne e' _))

end AlikeAt

end Disk

open Disk

/-! ## Acts in a folder -/

/-- What an evaluation does with its scratch folder, and in it. An act takes place at once; who
prepares the folder step by step looks whether it is there, removes it, and makes two
directories. -/
inductive FolderAct where
  | prepare
  | discard
  | look (rest : FilePath)
  | make (rest : FilePath)
  | write (rest : FilePath)
  | remove (rest : FilePath)

/-- What an act comes to: a fault, or what was seen. -/
abbrev FolderAnswer := Except StorageFault (Option DiskEntry)

namespace ScratchArea

/-- What the act of the evaluation with a number makes of the disk. -/
def change (s : ScratchArea) (id : Nat) : FolderAct → Disk → Except StorageFault Disk
  | .prepare, d => (s.prepare id d).map Prod.snd
  | .discard, d => (s.folder id).discard d
  | .look _, d => .ok d
  | .make rest, d =>
    let p := (s.folder id).path ++ rest
    (d.createDirectories p).mapError (⟨p, ·⟩)
  | .write rest, d =>
    let p := (s.folder id).path ++ rest
    (d.writeFile p).mapError (⟨p, ·⟩)
  | .remove rest, d =>
    let p := (s.folder id).path ++ rest
    (d.removeTree p).mapError (⟨p, ·⟩)

/-- What the act shows. -/
def seen (s : ScratchArea) (id : Nat) : FolderAct → Disk → Option DiskEntry
  | .look rest, d => d.entryAt ((s.folder id).path ++ rest)
  | _, _ => none

/-- One act; if it fails, the disk stays as it was. -/
def perform (s : ScratchArea) (id : Nat) (act : FolderAct) (d : Disk) : FolderAnswer × Disk :=
  match s.change id act d with
  | .error fault => (.error fault, d)
  | .ok d' => (.ok (s.seen id act d'), d')

/-- The acts of many evaluations, in the order in which they come, each with the number of the one
that acts. -/
def performAll (s : ScratchArea) :
    List (Nat × FolderAct) → Disk → List (Nat × FolderAnswer) × Disk
  | [], d => ([], d)
  | (id, act) :: events, d =>
    let (answer, d) := s.perform id act d
    let (answers, d) := s.performAll events d
    ((id, answer) :: answers, d)

variable {s : ScratchArea} {id i : Nat} {d d' : Disk} {act : FolderAct}

/-! ### One's own acts -/

/-- Who acts in a folder cannot tell disks apart that look alike there. -/
theorem agree_change (h : AlikeAt (s.folder id).path d d') (act : FolderAct) :
    AgreeAt (s.folder id).path (s.change id act d) (s.change id act d') := by
  have hdiscard : AgreeAt (s.folder id).path ((s.folder id).discard d)
      ((s.folder id).discard d') := by
    have hremove := @AlikeAt.removeTree d d' _ [] h (s.path_folder_ne_nil id)
    rw [List.append_nil] at hremove
    exact hremove.mapError _
  cases act with
  | prepare =>
    rw [change, change, map_snd_prepare, map_snd_prepare, h.below _ (List.prefix_refl _)]
    refine .bind ?_ fun e e' he => ?_
    · split
      · exact hdiscard
      · exact .works h
    · refine ((he.createDirectories (List.prefix_refl _)).mapError _).bind fun e e' he => ?_
      exact (he.createDirectories (List.prefix_refl _)).mapError _
  | discard => exact hdiscard
  | look rest => exact .works h
  | make rest => exact (h.createDirectories (List.prefix_refl _)).mapError _
  | write rest => exact (h.writeFile (s.path_folder_ne_nil id)).mapError _
  | remove rest => exact (h.removeTree (s.path_folder_ne_nil id)).mapError _

theorem alike_perform (h : AlikeAt (s.folder id).path d d') (act : FolderAct) :
    (s.perform id act d).1 = (s.perform id act d').1 ∧
      AlikeAt (s.folder id).path (s.perform id act d).2 (s.perform id act d').2 := by
  have hagree := agree_change h act
  unfold perform
  generalize s.change id act d = x at hagree ⊢
  generalize s.change id act d' = x' at hagree ⊢
  cases hagree with
  | fails e => exact ⟨rfl, h⟩
  | works h =>
    refine ⟨?_, h⟩
    cases act with
    | look rest => exact congrArg Except.ok (h.below _ (List.prefix_append _ rest))
    | _ => rfl

/-! ### What all acts keep to -/

theorem entryAt_remove {rest : FilePath}
    (h : d.removeTree ((s.folder id).path ++ rest) = .ok d') (q : FilePath) :
    d'.entryAt q = if (s.folder id).path ++ rest <+: q then none else d.entryAt q :=
  entryAt_removeTree (List.append_ne_nil_of_left_ne_nil (s.path_folder_ne_nil id) rest) h q

/-- A relation between disks that directories made on the way to a path in a folder, or removed from
it, keep to. -/
structure Kept (s : ScratchArea) (id : Nat) (R : Disk → Disk → Prop) : Prop where
  refl : ∀ d, R d d
  trans : ∀ {d d' d'' : Disk}, R d d' → R d' d'' → R d d''
  make : ∀ {d d' : Disk} {q rest : FilePath}, q <+: (s.folder id).path ++ rest →
    d.createDirectories q = .ok d' → R d d'
  remove : ∀ {d d' : Disk} {rest : FilePath},
    d.removeTree ((s.folder id).path ++ rest) = .ok d' → R d d'

variable {R : Disk → Disk → Prop}

theorem Kept.discard (hR : s.Kept id R) (h : (s.folder id).discard d = .ok d') : R d d' := by
  have hremove := mapError_eq_ok h
  rw [← List.append_nil (s.folder id).path] at hremove
  exact hR.remove hremove

theorem Kept.prepare (hR : s.Kept id R) (h : (s.prepare id d).map Prod.snd = .ok d') : R d d' := by
  rw [map_snd_prepare] at h
  obtain ⟨cleared, hcleared, h⟩ := exists_of_bind_eq_ok h
  obtain ⟨made, hmade, hdone⟩ := exists_of_bind_eq_ok h
  have hclear : R d cleared := by
    split at hcleared
    · exact hR.discard hcleared
    · obtain rfl := Except.ok.inj hcleared
      exact hR.refl d
  exact hR.trans (hR.trans hclear (hR.make (List.prefix_refl _) (mapError_eq_ok hmade)))
    (hR.make (List.prefix_refl _) (mapError_eq_ok hdone))

/-- An act keeps to it, unless a file is written. -/
theorem Kept.change (hR : s.Kept id R) (h : s.change id act d = .ok d') :
    R d d' ∨ ∃ rest, act = .write rest ∧ d.writeFile ((s.folder id).path ++ rest) = .ok d' := by
  cases act with
  | prepare => exact .inl (hR.prepare h)
  | discard => exact .inl (hR.discard h)
  | look rest =>
    obtain rfl := Except.ok.inj h
    exact .inl (hR.refl d)
  | make rest => exact .inl (hR.make (List.prefix_refl _) (mapError_eq_ok h))
  | write rest => exact .inr ⟨rest, rfl, mapError_eq_ok h⟩
  | remove rest => exact .inl (hR.remove (mapError_eq_ok h))

theorem isTree_change (hd : d.IsTree) (h : s.change id act d = .ok d') : d'.IsTree := by
  have hkept : s.Kept id fun d d' => d.IsTree → d'.IsTree :=
    { refl := fun _ hd => hd
      trans := fun h h' hd => h' (h hd)
      make := fun _ hmake hd => hd.createDirectories hmake
      remove := fun hremove hd => hd.pruned (entryAt_remove hremove) }
  obtain hkeep | ⟨rest, -, hwrite⟩ := hkept.change h
  · exact hkeep hd
  · exact hd.writeFile hwrite

/-- Only writing makes a file, in the place where it is written. -/
theorem file_of_change (h : s.change id act d = .ok d') {q : FilePath}
    (hq : d'.entryAt q = some .file) :
    d.entryAt q = some .file ∨ ∃ rest, act = .write rest ∧ q = (s.folder id).path ++ rest := by
  have hkept : s.Kept id fun d d' => ∀ q, d'.entryAt q = some .file → d.entryAt q = some .file :=
    { refl := fun _ _ hq => hq
      trans := fun h h' q hq => h q (h' q hq)
      make := fun _ hmake q hq => by
        rw [entryAt_createDirectories hmake] at hq
        split at hq
        · cases hq
        · exact hq
      remove := fun hremove q hq => by
        rw [entryAt_remove hremove] at hq
        split at hq
        · cases hq
        · exact hq }
  obtain hkeep | ⟨rest, hact, hwrite⟩ := hkept.change h
  · exact .inl (hkeep q hq)
  · obtain ⟨above, name, -, -, -, hentries⟩ := writeFile_eq_ok hwrite
    rw [hentries] at hq
    split at hq
    · next hhere => exact .inr ⟨rest, hact, hhere⟩
    · split at hq
      · cases hq
      · exact .inl hq

theorem isTree_perform (hd : d.IsTree) (act : FolderAct) : (s.perform id act d).2.IsTree := by
  unfold perform
  cases h : s.change id act d with
  | error fault => exact hd
  | ok d' => exact isTree_change hd h

theorem file_of_perform {q : FilePath} (hq : (s.perform id act d).2.entryAt q = some .file) :
    d.entryAt q = some .file ∨ ∃ rest, act = .write rest ∧ q = (s.folder id).path ++ rest := by
  unfold perform at hq
  cases h : s.change id act d with
  | error fault =>
    rw [h] at hq
    exact .inl hq
  | ok d' =>
    rw [h] at hq
    exact file_of_change h hq

/-- Outside the folder all is as it was, except that directories may have been made on the way. -/
def Frame (s : ScratchArea) (id : Nat) (d d' : Disk) : Prop :=
  ∀ q, ¬ (s.folder id).path <+: q → d'.entryAt q = d.entryAt q ∨
    q <+: s.root ∧ d.entryAt q ≠ some .file ∧ d'.entryAt q = some .directory

theorem frame_refl (s : ScratchArea) (id : Nat) (d : Disk) : s.Frame id d d := fun _ _ => .inl rfl

theorem Frame.trans {d'' : Disk} (h : s.Frame id d d') (h' : s.Frame id d' d'') :
    s.Frame id d d'' := by
  intro q hq
  obtain heq' | ⟨hroot, hfree', hdir'⟩ := h' q hq
  · rw [heq']
    exact h q hq
  · obtain heq | ⟨-, hfree, -⟩ := h q hq
    · exact .inr ⟨hroot, heq ▸ hfree', hdir'⟩
    · exact .inr ⟨hroot, hfree, hdir'⟩

/-- The paths on the way to one in the folder are in it too, or on the way to it. -/
theorem prefix_root {q rest : FilePath} (hq : q <+: (s.folder id).path ++ rest)
    (hout : ¬ (s.folder id).path <+: q) : q <+: s.root := by
  have habove := (List.prefix_or_prefix_of_prefix hq (List.prefix_append _ rest)).resolve_right hout
  refine (List.prefix_concat_iff.mp habove).resolve_left ?_
  rintro rfl
  exact hout (List.prefix_refl _)

theorem frame_make {q rest : FilePath} (hq : q <+: (s.folder id).path ++ rest)
    (h : d.createDirectories q = .ok d') : s.Frame id d d' := by
  intro r hr
  rw [entryAt_createDirectories h]
  split
  · next hrq =>
    exact .inr ⟨prefix_root (hrq.trans hq) hr, exists_createDirectories.mp ⟨d', h⟩ r hrq, rfl⟩
  · exact .inl rfl

theorem frame_change (h : s.change id act d = .ok d') : s.Frame id d d' := by
  have hkept : s.Kept id (s.Frame id) :=
    { refl := s.frame_refl id
      trans := Frame.trans
      make := frame_make
      remove := fun hremove q hq => by
        rw [entryAt_remove hremove, if_neg fun hle => hq ((List.prefix_append _ _).trans hle)]
        exact .inl rfl }
  obtain hkeep | ⟨rest, -, hwrite⟩ := hkept.change h
  · exact hkeep
  · obtain ⟨above, name, hp, hpass, -, hentries⟩ := writeFile_eq_ok hwrite
    intro q hq
    have hne : q ≠ (s.folder id).path ++ rest := by
      rintro rfl
      exact hq (List.prefix_append _ _)
    rw [hentries, if_neg hne]
    split
    · next hle =>
      have hin : q <+: (s.folder id).path ++ rest :=
        hp ▸ hle.trans (List.prefix_append above [name])
      exact .inr ⟨prefix_root hin hq, hpass q hle, rfl⟩
    · exact .inl rfl

/-! ### The acts of others -/

/-- A path is in one of the folders at most. -/
theorem eq_of_below {q : FilePath} (h : (s.folder i).path <+: q) (h' : (s.folder id).path <+: q) :
    i = id := by
  have hlen : (s.folder i).path.length = (s.folder id).path.length := by
    rw [path_folder, path_folder, List.length_append, List.length_append]
    rfl
  have hpath := (List.prefix_of_prefix_length_le h h' (Nat.le_of_eq hlen)).eq_of_length hlen
  exact folder_inj.mp (congrArg ScratchFolder.mk hpath)

theorem Frame.alikeAt (h : s.Frame i d d') (hne : i ≠ id) : AlikeAt (s.folder id).path d d' := by
  constructor
  · intro q hq
    obtain heq | ⟨hroot, -⟩ := h q fun hi => hne (eq_of_below hi hq)
    · exact heq.symm
    · exact absurd hq (not_below_folder hroot)
  · intro q hq
    have hout : ¬ (s.folder i).path <+: q := fun hi =>
      hne (eq_of_below (hi.trans hq) (List.prefix_refl _))
    obtain heq | ⟨-, hfree, hdir⟩ := h q hout
    · rw [heq]
    · rw [hdir]
      exact ⟨fun hfile => absurd hfile hfree, nofun⟩

theorem frame_perform (s : ScratchArea) (id : Nat) (act : FolderAct) (d : Disk) :
    s.Frame id d (s.perform id act d).2 := by
  unfold perform
  cases h : s.change id act d with
  | error fault => exact s.frame_refl id d
  | ok d' => exact frame_change h

theorem alike_of_other (hne : i ≠ id) (act : FolderAct) (d : Disk) :
    AlikeAt (s.folder id).path d (s.perform i act d).2 :=
  (s.frame_perform i act d).alikeAt hne

/-! ## Any order of acts -/

variable {events events' : List (Nat × FolderAct)}

/-- An evaluation gets the answers that it gets alone, and so does its folder its content. -/
theorem own_of_performAll (h : AlikeAt (s.folder id).path d d')
    (events : List (Nat × FolderAct)) :
    (s.performAll events d).1.filter (·.1 = id) =
        (s.performAll (events.filter (·.1 = id)) d').1 ∧
      AlikeAt (s.folder id).path (s.performAll events d).2
        (s.performAll (events.filter (·.1 = id)) d').2 := by
  induction events generalizing d d' with
  | nil => exact ⟨rfl, h⟩
  | cons event events ih =>
    obtain ⟨i, act⟩ := event
    by_cases hi : i = id
    · subst hi
      obtain ⟨hanswer, halike⟩ := alike_perform h act
      obtain ⟨hanswers, hafter⟩ := ih halike
      simp only [performAll, List.filter_cons, decide_true, if_true, hanswer, hanswers]
      exact ⟨trivial, hafter⟩
    · obtain ⟨hanswers, hafter⟩ := ih ((alike_of_other hi act d).symm.trans h)
      simp only [performAll, List.filter_cons, hi, decide_false, Bool.false_eq_true, if_false,
        hanswers]
      exact ⟨trivial, hafter⟩

theorem isTree_performAll (hd : d.IsTree) (events : List (Nat × FolderAct)) :
    (s.performAll events d).2.IsTree := by
  induction events generalizing d with
  | nil => exact hd
  | cons event events ih => exact ih (isTree_perform hd event.2)

/-- A file that is there at the end was there before or has been written. -/
theorem file_of_performAll {q : FilePath} (hq : (s.performAll events d).2.entryAt q = some .file) :
    d.entryAt q = some .file ∨
      ∃ i rest, (i, .write rest) ∈ events ∧ q = (s.folder i).path ++ rest := by
  induction events generalizing d with
  | nil => exact .inl hq
  | cons event events ih =>
    obtain ⟨i, act⟩ := event
    obtain hmid | ⟨j, rest, hmem, hpath⟩ := ih hq
    · obtain hold | ⟨rest, rfl, hpath⟩ := file_of_perform hmid
      · exact .inl hold
      · exact .inr ⟨i, rest, List.mem_cons_self, hpath⟩
    · exact .inr ⟨j, rest, List.mem_cons_of_mem _ hmem, hpath⟩

/-- What has been discarded stays away while only others act. -/
theorem discarded_performAll (h : (s.folder id).discard d = .ok d')
    (hothers : ∀ event ∈ events, event.1 ≠ id) {q : FilePath} (hq : (s.folder id).path <+: q) :
    (s.performAll events d').2.entryAt q = none := by
  have hnone : events.filter (·.1 = id) = [] :=
    List.filter_eq_nil_iff.mpr fun event he => by simpa using hothers event he
  obtain ⟨-, halike⟩ := own_of_performAll (AlikeAt.refl (s.folder id).path d') events
  rw [hnone] at halike
  rw [halike.below q hq]
  exact (discarded h q).trans (if_pos hq)

/-- A folder that has been prepared looks the same on all disks. -/
theorem Prepared.alikeAt {e e' : Disk} (h : s.Prepared id d e) (h' : s.Prepared id d' e') :
    AlikeAt (s.folder id).path e e' := by
  constructor
  · rintro q ⟨rest, rfl⟩
    by_cases hrest : rest = []
    · rw [hrest, List.append_nil, h.reaches _ (List.prefix_refl _),
        h'.reaches _ (List.prefix_refl _)]
    · rw [h.inside rest hrest, h'.inside rest hrest]
  · intro q hq
    rw [h.reaches q hq, h'.reaches q hq]

/-- What an evaluation does and sees after its folder has been prepared on a disk: it makes no
difference which disk that was, nor what the others do, and in which order; and every file in the
folder is one that the evaluation has written. -/
def SeesOwn (s : ScratchArea) (id : Nat) (d : Disk) : Prop :=
  ∀ events : List (Nat × FolderAct),
    (∀ (before : Disk) (dir : ScratchFolder) (d' : Disk) (events' : List (Nat × FolderAct)),
      before.IsTree → s.prepare id before = .ok (dir, d') →
      events'.filter (·.1 = id) = events.filter (·.1 = id) →
      (s.performAll events' d').1.filter (·.1 = id) = (s.performAll events d).1.filter (·.1 = id) ∧
        ∀ rest, (s.performAll events' d').2.entryAt ((s.folder id).path ++ rest) =
          (s.performAll events d).2.entryAt ((s.folder id).path ++ rest)) ∧
    ∀ rest, (s.performAll events d).2.entryAt ((s.folder id).path ++ rest) = some .file →
      (id, .write rest) ∈ events

theorem seesOwn {dir : ScratchFolder} (hd : d.IsTree) (h : s.prepare id d = .ok (dir, d')) :
    s.SeesOwn id d' := by
  have hprepared := prepared hd h
  intro events
  constructor
  · intro before dir' e events' hbefore h' hown
    have hprepared' := prepared hbefore h'
    -- both runs are compared with that of the acts of the evaluation alone
    obtain ⟨hanswers, hafter⟩ := own_of_performAll (hprepared.alikeAt hprepared) events
    obtain ⟨hanswers', hafter'⟩ := own_of_performAll (hprepared'.alikeAt hprepared) events'
    rw [hown] at hanswers' hafter'
    refine ⟨hanswers'.trans hanswers.symm, fun rest => ?_⟩
    have hin := List.prefix_append (s.folder id).path rest
    rw [hafter'.below _ hin, hafter.below _ hin]
  · intro rest hfile
    obtain hold | ⟨i, rest', hmem, hpath⟩ := file_of_performAll hfile
    · -- no file is there when the folder has been prepared
      by_cases hrest : rest = []
      · rw [hrest, List.append_nil, hprepared.reaches _ (List.prefix_refl _)] at hold
        cases hold
      · rw [hprepared.inside rest hrest] at hold
        split at hold
        · cases hold
        · cases hold
    · obtain rfl := eq_of_below (hpath ▸ List.prefix_append (s.folder i).path rest')
        (List.prefix_append (s.folder id).path rest)
      rw [List.append_cancel_left hpath]
      exact hmem

end ScratchArea

end GeneticRepair

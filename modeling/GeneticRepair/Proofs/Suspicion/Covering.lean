import GeneticRepair.Proofs.Syntax.Growth
import GeneticRepair.Suspicion.Localization

/-!
# `Proofs/Suspicion/Covering.lean` — what a localization leaves on the units

A localization writes to marks in many places, but always to nodes of its program, and it only
raises or clears their suspicion or adds covering classes. Whatever preorder on stores these three
writes are in (`Localization.Writes`), the steps of a pass and the whole pass are in it.

Of all that only two things matter to a retest: names stay, and covering classes are only added.
`Store.Annotates` is such a preorder, so a class that is recorded anywhere in a pass is there at its
end (`coveredBy_localize`).
-/

set_option autoImplicit false

namespace GeneticRepair

namespace Store

variable {α : Type} [Scalar α]

/-- A test class is among those that cover a node. -/
def CoveredBy (s : Store α) (id : NodeId) (testClass : String) : Prop :=
  ∃ classes, (s.mark id).coveredBy = some classes ∧ testClass ∈ classes

/-- Suspicion may have changed and covering classes may have been added. -/
structure Annotates (s s' : Store α) : Prop where
  next_eq : s'.next = s.next
  attributes_eq : ∀ id, (s'.mark id).attributes = (s.mark id).attributes
  covered : ∀ id testClass, s.CoveredBy id testClass → s'.CoveredBy id testClass

theorem Annotates.refl (s : Store α) : s.Annotates s := ⟨rfl, fun _ => rfl, fun _ _ h => h⟩

theorem Annotates.trans {s s' s'' : Store α} (h : s.Annotates s') (h' : s'.Annotates s'') :
    s.Annotates s'' :=
  ⟨h'.next_eq.trans h.next_eq, fun id => (h'.attributes_eq id).trans (h.attributes_eq id),
    fun id c hc => h'.covered id c (h.covered id c hc)⟩

theorem Annotates.foldl {β : Type} {f : Store α → β → Store α}
    (hf : ∀ (s : Store α) x, s.Annotates (f s x)) (l : List β) (s : Store α) :
    s.Annotates (l.foldl f s) :=
  List.foldlRecOn l f (Annotates.refl s) fun s' hs' x _ => hs'.trans (hf s' x)

/-- What one step of a pass records is there at its end. -/
theorem CoveredBy.foldl {β : Type} {f : Store α → β → Store α} {s : Store α} {id : NodeId}
    {testClass : String} (hf : ∀ (s : Store α) x, s.Annotates (f s x)) {l : List β} {x : β}
    (hx : x ∈ l) (hstep : ∀ s' : Store α, s.Annotates s' → (f s' x).CoveredBy id testClass) :
    (l.foldl f s).CoveredBy id testClass := by
  obtain ⟨before, after, rfl⟩ := List.append_of_mem hx
  rw [List.foldl_append, List.foldl_cons]
  have hbefore := Annotates.foldl hf before s
  exact (Annotates.foldl hf after _).covered id testClass (hstep _ hbefore)

theorem Annotates.update (s : Store α) (id : NodeId) {f : Mark α → Mark α}
    (ha : ∀ m, (f m).attributes = m.attributes)
    (hc : ∀ m c classes, m.coveredBy = some classes → c ∈ classes →
      ∃ more, (f m).coveredBy = some more ∧ c ∈ more) : s.Annotates (s.update id f) := by
  refine ⟨next_update s id f, fun x => ?_, fun x c ⟨classes, hclasses, hmem⟩ => ?_⟩
  · rw [mark_update]
    split
    · exact ha _
    · rfl
  · rw [CoveredBy, mark_update]
    split
    · exact hc _ c classes hclasses hmem
    · exact ⟨classes, hclasses, hmem⟩

theorem annotates_raise (s : Store α) (n : Node) (score : α) : s.Annotates (s.raise n score) := by
  apply Annotates.update
  · intro m
    simp
  · intro m c classes h hc
    refine ⟨classes, ?_, hc⟩
    simp [h]

theorem annotates_clear (s : Store α) (n : Node) : s.Annotates (s.clear n) :=
  Annotates.update s n.id (fun _ => rfl) fun _ _ classes h hc => ⟨classes, h, hc⟩

theorem annotates_cover (s : Store α) (n : Node) (classes : List String) :
    s.Annotates (s.cover n classes) := by
  apply Annotates.update
  · exact fun m => rfl
  · intro m c old h hc
    refine ⟨old.insertAll classes, ?_, SortedSet.mem_insertAll.mpr (Or.inr hc)⟩
    rw [Mark.cover, h]
    rfl

theorem coveredBy_cover {s : Store α} {n : Node} (hn : n.id < s.next) {classes : List String}
    {c : String} (hc : c ∈ classes) : (s.cover n classes).CoveredBy n.id c := by
  rw [CoveredBy, cover, mark_update, if_pos ⟨rfl, hn⟩]
  exact ⟨_, rfl, SortedSet.mem_insertAll.mpr (Or.inl hc)⟩

/-! ## Names -/

theorem Annotates.attribute_eq {s s' : Store α} (h : s.Annotates s') (n : Node) (key : String) :
    s'.attribute? n key = s.attribute? n key := by
  rw [attribute?, h.attributes_eq]
  rfl

theorem Annotates.resolveClass_eq {s s' : Store α} (h : s.Annotates s') (root : Node)
    (name : String) : s'.resolveClass root name = s.resolveClass root name := by
  unfold resolveClass
  simp only [h.attribute_eq]

theorem mem_declarations_of_resolveClass {s : Store α} {root : Node} {name : String}
    {found : ClassMatch} (h : s.resolveClass root name = some found) :
    found ∈ declarations root := by
  obtain h | ⟨-, h⟩ := Option.or_eq_some_iff.mp h
  · exact List.mem_of_find?_eq_some h
  · exact List.mem_of_find?_eq_some h

theorem unit_mem_of_resolveClass {s : Store α} {root : Node} {name : String} {found : ClassMatch}
    (h : s.resolveClass root name = some found) : found.unit ∈ root.units := by
  obtain ⟨u, hu, hd⟩ := List.mem_flatMap.mp (mem_declarations_of_resolveClass h)
  obtain ⟨d, -, rfl⟩ := List.mem_map.mp hd
  exact hu

theorem declaration_mem_of_resolveClass {s : Store α} {root : Node} {name : String}
    {found : ClassMatch} (h : s.resolveClass root name = some found) :
    found.declaration ∈ root.preorder := by
  obtain ⟨u, hu, hd⟩ := List.mem_flatMap.mp (mem_declarations_of_resolveClass h)
  obtain ⟨d, hmem, rfl⟩ := List.mem_map.mp hd
  exact Node.mem_preorder_trans (List.mem_filter.mp hmem).1 (List.mem_filter.mp hu).1

end Store

namespace Localization

variable {α : Type} [Scalar α]

/-! ## The steps of a pass -/

/-- A relation between stores that is closed under what a pass writes to the nodes of a program. -/
structure Writes (root : Node) (R : Store α → Store α → Prop) : Prop where
  refl : ∀ s, R s s
  trans : ∀ {s s' s''}, R s s' → R s' s'' → R s s''
  raise : ∀ s n score, n ∈ root.preorder → R s (s.raise n score)
  clear : ∀ s n, n ∈ root.preorder → R s (s.clear n)
  cover : ∀ s n classes, n ∈ root.preorder → R s (s.cover n classes)

namespace Writes

variable {root : Node} {R : Store α → Store α → Prop} (h : Writes root R)

include h

theorem foldl {β : Type} {f : Store α → β → Store α} {l : List β}
    (hf : ∀ s, ∀ x ∈ l, R s (f s x)) (s : Store α) : R s (l.foldl f s) :=
  List.foldlRecOn l f (h.refl s) fun s' hs' x hx => h.trans hs' (hf s' x hx)

theorem scoreLine [Root α] (s : Scoring α) (line : CodeLine × Spectrum) :
    R s.store (scoreLine root s line).store := by
  unfold Localization.scoreLine
  simp only []
  split
  · exact h.refl _
  · split
    · exact h.refl _
    · next found hfound =>
      refine h.foldl (fun store n hn => h.raise store n _ ?_) s.store
      have hstatement := (List.mem_filter.mp (List.mem_filter.mp (List.mem_filter.mp hn).1).1).1
      exact Node.mem_preorder_trans hstatement (Store.declaration_mem_of_resolveClass hfound)

theorem scoreLines [Root α] (store : Store α) (lines : List (CodeLine × Spectrum)) :
    R store (scoreLines root store lines).store := by
  have hall (s : Scoring α) : R s.store (lines.foldl (Localization.scoreLine root) s).store := by
    induction lines generalizing s with
    | nil => exact h.refl _
    | cons line lines ih => exact h.trans (h.scoreLine s line) (ih _)
  exact hall ⟨store, [], ∅⟩

theorem coverUnit (store : Store α) {unit : Node} (hunit : unit ∈ root.units)
    (classes : List String) : R store (store.cover unit classes) :=
  h.cover store unit classes (List.mem_filter.mp hunit).1

/-- The step of `coverUnits` for one class. -/
theorem coverClass (test : CoveredTest) (store : Store α) (className : String) :
    R store (match store.resolveClass root className with
      | none => store
      | some found => store.cover found.unit [test.id.className]) := by
  split
  · exact h.refl _
  · next found hfound => exact h.coverUnit _ (Store.unit_mem_of_resolveClass hfound) _

theorem coverUnits (store : Store α) (test : CoveredTest) :
    R store (coverUnits root store test) :=
  h.foldl (fun store className _ => h.coverClass test store className) store

theorem recordCoverage (store : Store α) (tests : List CoveredTest) :
    R store (recordCoverage root store tests) :=
  h.trans (h.foldl (fun store _ hu => h.coverUnit store hu []) store)
    (h.foldl (fun store test _ => h.coverUnits store test) _)

theorem clearLow (policy : SuspicionPolicy α) (store : Store α) :
    R store (clearLow policy root store).2 := by
  have hclear {l : List Node} (hl : ∀ n ∈ l, n ∈ store.suspects root) (s : Store α) :
      R s (l.foldl Store.clear s) :=
    h.foldl (fun s n hn => h.clear s n (List.mem_filter.mp (hl n hn)).1) s
  have hlow := hclear (l := (store.suspects root).filter fun n =>
    store.suspicion n < policy.threshold) (fun n hn => (List.mem_filter.mp hn).1) store
  unfold Localization.clearLow
  simp only []
  split
  · exact hlow
  · split
    · refine h.trans hlow (hclear (fun n hn => ?_) _)
      exact (List.mem_filter.mp (mem_ranked.mp (List.mem_of_mem_drop hn))).1
    · exact hlow

theorem localize [Root α] (policy : SuspicionPolicy α) (results : List TestResult)
    (coverage : Coverage) (store : Store α) :
    R store (localize policy root results coverage store).2 :=
  h.trans (h.scoreLines store (spectra results coverage))
    (h.trans (h.recordCoverage _ (covered (outcomes results) coverage)) (h.clearLow policy _))

end Writes

theorem writes_annotates (root : Node) :
    Writes root (Store.Annotates : Store α → Store α → Prop) where
  refl := .refl
  trans := .trans
  raise s n score _ := s.annotates_raise n score
  clear s n _ := s.annotates_clear n
  cover s n classes _ := s.annotates_cover n classes

/-! ## The covering classes -/

theorem mem_covered {results : List TestResult} {coverage : Coverage} {id : TestId}
    {lines : SortedSet CodeLine} (hid : id ∈ results.map (·.id))
    (hlines : coverage.linesOf id = some lines) :
    ∃ passed, ⟨id, passed, lines⟩ ∈ covered (outcomes results) coverage := by
  have hmem : id ∈ (SortedSet.ofList (results.map (·.id))).toList :=
    SortedSet.mem_ofList.mpr hid
  refine ⟨((results.reverse.find? (·.id = id)).map TestResult.hasPassed).getD true, ?_⟩
  refine List.mem_filterMap.mpr ⟨(id, _), List.mem_map_of_mem hmem, ?_⟩
  rw [hlines]
  rfl

theorem coveredBy_coverUnits {root : Node} {store : Store α} {test : CoveredTest} {l : CodeLine}
    {found : ClassMatch} (hl : l ∈ test.lines)
    (hfound : store.resolveClass root l.className = some found)
    (hnext : found.unit.id < store.next) :
    (coverUnits root store test).CoveredBy found.unit.id test.id.className := by
  have hmem : l.className ∈ (touchedClasses test.lines).toList :=
    SortedSet.mem_ofList.mpr (List.mem_map_of_mem hl)
  refine Store.CoveredBy.foldl ((writes_annotates root).coverClass test) hmem fun s' hs' => ?_
  rw [hs'.resolveClass_eq, hfound]
  exact Store.coveredBy_cover (hs'.next_eq ▸ hnext) List.mem_cons_self

/-- After a pass each unit has the class of every reported test that executes a line of it. -/
theorem coveredBy_localize [Root α] {policy : SuspicionPolicy α} {root : Node}
    {results : List TestResult} {coverage : Coverage} {store : Store α} {id : TestId}
    {lines : SortedSet CodeLine} {l : CodeLine} {found : ClassMatch}
    (hid : id ∈ results.map (·.id)) (hlines : coverage.linesOf id = some lines) (hl : l ∈ lines)
    (hfound : store.resolveClass root l.className = some found)
    (hnext : found.unit.id < store.next) :
    (localize policy root results coverage store).2.CoveredBy found.unit.id id.className := by
  obtain ⟨passed, htest⟩ := mem_covered hid hlines
  have hwrites : Writes root (Store.Annotates : Store α → Store α → Prop) := writes_annotates root
  have hscores := hwrites.scoreLines store (spectra results coverage)
  have hunits := hscores.trans (Store.Annotates.foldl
    (fun (s : Store α) u => s.annotates_cover u []) root.units
    (scoreLines root store (spectra results coverage)).store)
  have hcovers : (recordCoverage root (scoreLines root store (spectra results coverage)).store
      (covered (outcomes results) coverage)).CoveredBy found.unit.id id.className := by
    refine Store.CoveredBy.foldl hwrites.coverUnits htest fun s' hs' => ?_
    have hsame := hunits.trans hs'
    refine coveredBy_coverUnits hl ?_ (hsame.next_eq ▸ hnext)
    rw [hsame.resolveClass_eq, hfound]
  exact (hwrites.clearLow policy _).covered _ _ hcovers

end Localization

end GeneticRepair

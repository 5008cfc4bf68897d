import GeneticRepair.Proofs.Suspicion.Pruning

/-!
# `Proofs/Suspicion/Commuting.lean` — the order of passes

Without a limit a pass takes the greatest of what a statement had and of the scores that it awards,
and cuts the result to zero if it is below the threshold. A cut between two passes loses a value,
but only one that a later cut would have lost as well (`exists_isGreatest_cut`). So after any number
of passes the suspicion is the greatest of all scores, cut once (`suspicion_passes`), and the
covering classes are the union of all (`coveredBy_passes`); the order of the passes appears in
neither (`passes_perm`).
-/

set_option autoImplicit false

namespace GeneticRepair

namespace Localization

variable {α : Type} [OrderedScalar α]

/-! ## Cutting -/

/-- A value below the threshold counts as zero. -/
def cut (threshold x : α) : α := if threshold ≤ x then x else 0

theorem cut_nonneg {threshold x : α} (hx : 0 ≤ x) : 0 ≤ cut threshold x := by
  unfold cut
  split
  · exact hx
  · exact le_refl _

theorem cut_le {threshold x : α} (hx : 0 ≤ x) : cut threshold x ≤ x := by
  unfold cut
  split
  · exact le_refl _
  · exact hx

/-- Whether or not the greatest of the earlier values was cut, the greatest of all is the same after
the next cut. -/
theorem exists_isGreatest_cut {threshold v m kept a : α} {A B : Set α} (hv : 0 ≤ v)
    (hm : IsGreatest (insert v A) m) (hkept : kept = m ∨ kept = cut threshold m)
    (ha : IsGreatest (insert kept B) a) :
    ∃ m', IsGreatest (insert v (A ∪ B)) m' ∧ cut threshold a = cut threshold m' := by
  have hm0 : 0 ≤ m := hv.trans (hm.2 (.inl rfl))
  have hle : kept ≤ m := by
    obtain rfl | rfl := hkept
    · exact le_refl _
    · exact cut_le hm0
  have hka : kept ≤ a := ha.2 (.inl rfl)
  have hmem : m ∈ insert v (A ∪ B) := Set.insert_subset_insert Set.subset_union_left hm.1
  refine ⟨max m a, ⟨?_, ?_⟩, ?_⟩
  · obtain rfl | hB := ha.1
    · rwa [max_eq_left hle]
    · obtain hmax | hmax := max_choice m a
      · rwa [hmax]
      · rw [hmax]
        exact .inr (.inr hB)
  · rintro x (rfl | hA | hB)
    · exact (hm.2 (.inl rfl)).trans (le_max_left _ _)
    · exact (hm.2 (.inr hA)).trans (le_max_left _ _)
    · exact (ha.2 (.inr hB)).trans (le_max_right _ _)
  · obtain hma | ham := le_or_gt m a
    · rw [max_eq_right hma]
    · -- then the greatest of the earlier values was lost, as it is now
      have hlost : ¬ threshold ≤ m := by
        intro hreach
        have hsame : kept = m := hkept.elim id fun h => h.trans (if_pos hreach)
        exact absurd (hsame ▸ hka) (not_le_of_gt ham)
      rw [max_eq_left ham.le, cut, cut, if_neg hlost,
        if_neg fun hreach => hlost (hreach.trans ham.le)]

/-! ## Passes -/

variable {policy : SuspicionPolicy α} {root : Node} {store : Store α}
  {runs : List (List TestResult × Coverage)} {id : NodeId}

/-- Without a limit, what is cleared is suspicious and below the threshold. -/
theorem cleared_iff_of_unlimited (hlimit : policy.limit = none) {n : Node}
    (hn : n ∈ root.statements) :
    Cleared policy root store n.id ↔
      0 < store.suspicion n ∧ store.suspicion n < policy.threshold := by
  have hbeyond : beyond policy root store = [] := by rw [beyond, hlimit]
  rw [Cleared, hbeyond, List.append_nil]
  constructor
  · rintro ⟨m, hm, hid⟩
    obtain ⟨hsuspect, hlt⟩ := mem_low.mp hm
    rw [Store.mem_suspects, suspicion_eq_of_id hid] at hsuspect
    rw [suspicion_eq_of_id hid] at hlt
    exact ⟨hsuspect.2, hlt⟩
  · exact fun ⟨hpos, hlt⟩ => ⟨n, mem_low.mpr ⟨Store.mem_suspects.mpr ⟨hn, hpos⟩, hlt⟩, rfl⟩

variable [Root α]

/-- The marks after one pass after the other, each with its own results and coverage. -/
def passes (policy : SuspicionPolicy α) (root : Node) (runs : List (List TestResult × Coverage))
    (store : Store α) : Store α :=
  runs.foldl (fun s run => (localize policy root run.1 run.2 s).2) store

theorem annotates_passes (policy : SuspicionPolicy α) (root : Node)
    (runs : List (List TestResult × Coverage)) (store : Store α) :
    store.Annotates (passes policy root runs store) := by
  unfold passes
  refine Store.Annotates.foldl (fun s run => ?_) runs store
  exact (writes_annotates root).localize policy run.1 run.2 s

theorem passes_append (run : List TestResult × Coverage) : passes policy root (runs ++ [run]) store =
    (localize policy root run.1 run.2 (passes policy root runs store)).2 := by
  rw [passes, List.foldl_append]
  rfl

/-- The scores that any of the passes awards to a node. -/
def awarded (root : Node) (store : Store α) (runs : List (List TestResult × Coverage))
    (id : NodeId) : Set α :=
  {x | ∃ run ∈ runs, Awards root store run.1 run.2 id x}

theorem awarded_append (run : List TestResult × Coverage) :
    awarded root store (runs ++ [run]) id =
      awarded root store runs id ∪ {x | Awards root store run.1 run.2 id x} := by
  ext x
  simp only [awarded, List.mem_append, List.mem_singleton, Set.mem_union, Set.mem_ofPred_eq,
    or_and_right, exists_or, exists_eq_left]

/-! ## Suspicion -/

/-- Without a limit a pass cuts what a statement has before anything is cleared. -/
theorem suspicion_localize_unlimited (hlimit : policy.limit = none) {n : Node}
    (hn : n ∈ root.statements) {results : List TestResult} {coverage : Coverage}
    (hnonneg : 0 ≤ (annotate root results coverage store).suspicion n) :
    (localize policy root results coverage store).2.suspicion n =
      cut policy.threshold ((annotate root results coverage store).suspicion n) := by
  have hclear := suspicion_clearLow policy root (annotate root results coverage store) n.id
  change (localize policy root results coverage store).2.suspicion n = _ at hclear
  rw [hclear, cut]
  simp only [cleared_iff_of_unlimited hlimit hn]
  by_cases hreach : policy.threshold ≤ (annotate root results coverage store).suspicion n
  · rw [if_pos hreach, if_neg fun h => absurd hreach (not_le_of_gt h.2)]
    rfl
  · rw [if_neg hreach, ite_eq_left_iff]
    intro hnot
    exact le_antisymm (le_of_not_gt fun hpos => hnot ⟨hpos, lt_of_not_ge hreach⟩) hnonneg

/-- After the passes a statement has the greatest of what it had and of all scores, cut once. -/
theorem suspicion_passes (hlimit : policy.limit = none) {n : Node} (hn : n ∈ root.statements)
    (hid : n.id < store.next) (hnonneg : 0 ≤ store.suspicion n)
    (runs : List (List TestResult × Coverage)) :
    ∃ m, IsGreatest (insert (store.suspicion n) (awarded root store runs n.id)) m ∧
      (passes policy root runs store).suspicion n =
        if runs = [] then m else cut policy.threshold m := by
  induction runs using List.reverseRecOn with
  | nil => exact ⟨store.suspicion n, by simp [awarded], rfl⟩
  | append_singleton runs run ih =>
    obtain ⟨m, hm, hsuspicion⟩ := ih
    let s := passes policy root runs store
    have hs : store.Annotates s := annotates_passes policy root runs store
    have hkept : s.suspicion n = m ∨ s.suspicion n = cut policy.threshold m := by
      rw [hsuspicion]
      split
      · exact .inl rfl
      · exact .inr rfl
    have ha : IsGreatest (insert (s.suspicion n) {x : α | Awards root store run.1 run.2 n.id x})
        ((annotate root run.1 run.2 s).suspicion n) := by
      simp only [← awards_iff_of_annotates hs]
      exact isGreatest_annotate (hs.next_eq ▸ hid)
    have hm0 : 0 ≤ m := hnonneg.trans (hm.2 (.inl rfl))
    have hs0 : 0 ≤ s.suspicion n :=
      hkept.elim (fun h => h ▸ hm0) fun h => h ▸ cut_nonneg hm0
    obtain ⟨m', hm', hcut⟩ := exists_isGreatest_cut hnonneg hm hkept ha
    rw [← awarded_append] at hm'
    refine ⟨m', hm', ?_⟩
    rw [passes_append, suspicion_localize_unlimited hlimit hn (hs0.trans (ha.2 (.inl rfl))), hcut,
      if_neg (List.append_ne_nil_of_right_ne_nil _ (List.cons_ne_nil _ _))]

/-- No pass touches the suspicion of nodes that are no statements. -/
theorem suspicion_passes_of_ne (h : ∀ n ∈ root.statements, n.id ≠ id) :
    ((passes policy root runs store).mark id).suspicion = (store.mark id).suspicion := by
  induction runs using List.reverseRecOn with
  | nil => rfl
  | append_singleton runs run ih =>
    let s := passes policy root runs store
    have hclear : ¬ Cleared policy root (annotate root run.1 run.2 s) id := fun hid =>
      have ⟨n, hn, heq⟩ := hid.statement
      h n hn heq
    rw [passes_append, ← ih]
    refine (suspicion_clearLow policy root (annotate root run.1 run.2 s) id).trans ?_
    rw [if_neg hclear]
    refine suspicion_annotate_of_not_awards fun score hawards => ?_
    obtain ⟨n, hn, heq⟩ := statement_of_awards hawards
    exact h n hn heq

/-! ## Covering -/

/-- After the passes a unit is covered by the classes that it had and by all those that reach it in
one of the passes. -/
theorem coveredBy_passes (policy : SuspicionPolicy α) {u : Node} (hu : u ∈ root.units)
    (hid : u.id < store.next) (hruns : runs ≠ []) :
    ∃ classes, (passes policy root runs store).coveredBy u = some classes ∧
      ∀ c, c ∈ classes ↔ c ∈ (store.coveredBy u).getD ∅ ∨
        ∃ run ∈ runs, Reaches root store run.1 run.2 u.id c := by
  -- the first pass may meet a unit that has no set yet, so the induction is on what there is of one
  have hall (runs : List (List TestResult × Coverage)) (c : String) :
      c ∈ ((passes policy root runs store).coveredBy u).getD ∅ ↔
        c ∈ (store.coveredBy u).getD ∅ ∨ ∃ run ∈ runs, Reaches root store run.1 run.2 u.id c := by
    induction runs using List.reverseRecOn with
    | nil => simp [passes]
    | append_singleton runs run ih =>
      have hs := annotates_passes policy root runs store
      obtain ⟨classes, hclasses, hmem⟩ :=
        coveredBy_localize_unit policy run.1 run.2 hu (hs.next_eq ▸ hid)
      rw [passes_append, hclasses, Option.getD_some, hmem, reaches_iff_of_annotates hs, ih]
      simp only [List.mem_append, List.mem_singleton, or_and_right, exists_or, exists_eq_left,
        or_assoc]
  obtain ⟨before, last, rfl⟩ := (List.eq_nil_or_concat' runs).resolve_left hruns
  have hs := annotates_passes policy root before store
  obtain ⟨classes, hclasses, -⟩ :=
    coveredBy_localize_unit policy last.1 last.2 hu (hs.next_eq ▸ hid)
  rw [← passes_append] at hclasses
  refine ⟨classes, hclasses, fun c => ?_⟩
  rw [← hall, hclasses, Option.getD_some]

theorem coveredBy_passes_of_ne (h : ∀ u ∈ root.units, u.id ≠ id) :
    ((passes policy root runs store).mark id).coveredBy = (store.mark id).coveredBy := by
  induction runs using List.reverseRecOn with
  | nil => rfl
  | append_singleton runs run ih =>
    rw [passes_append, coveredBy_localize_of_ne policy run.1 run.2 h, ih]

/-! ## The order of the passes -/

/-- Passes in another order leave every mark the same. -/
theorem passes_perm (hlimit : policy.limit = none) (hholds : store.Holds root)
    (hnonneg : ∀ n ∈ root.statements, 0 ≤ store.suspicion n)
    {runs' : List (List TestResult × Coverage)} (h : runs.Perm runs') :
    passes policy root runs' store = passes policy root runs store := by
  rcases eq_or_ne runs [] with rfl | hruns
  · rw [h.nil_eq]
  have hruns' : runs' ≠ [] := by
    rintro rfl
    exact hruns h.eq_nil
  refine (annotates_passes policy root runs' store).eq_of_marks
    (annotates_passes policy root runs store) (fun id _ => ?_) fun id hid => ?_
  · by_cases hstatement : ∃ n ∈ root.statements, n.id = id
    · obtain ⟨n, hn, rfl⟩ := hstatement
      have hknown := hholds n (List.mem_filter.mp hn).1
      obtain ⟨m, hm, hsuspicion⟩ := suspicion_passes hlimit hn hknown (hnonneg n hn) runs
      obtain ⟨m', hm', hsuspicion'⟩ := suspicion_passes hlimit hn hknown (hnonneg n hn) runs'
      have hscores : awarded root store runs' n.id = awarded root store runs n.id := by
        simp only [awarded, h.mem_iff]
      rw [hscores] at hm'
      rw [if_neg hruns] at hsuspicion
      rw [if_neg hruns', hm'.unique hm] at hsuspicion'
      exact hsuspicion'.trans hsuspicion.symm
    · have hne : ∀ n ∈ root.statements, n.id ≠ id := fun n hn heq => hstatement ⟨n, hn, heq⟩
      rw [suspicion_passes_of_ne hne, suspicion_passes_of_ne hne]
  · by_cases hunit : ∃ u ∈ root.units, u.id = id
    · obtain ⟨u, hu, rfl⟩ := hunit
      obtain ⟨classes, hclasses, hmem⟩ := coveredBy_passes policy hu hid hruns
      obtain ⟨classes', hclasses', hmem'⟩ := coveredBy_passes policy hu hid hruns'
      have hsame : classes' = classes := SortedSet.ext fun c => by
        rw [hmem', hmem]
        simp only [h.mem_iff]
      exact (hclasses'.trans (congrArg some hsame)).trans hclasses.symm
    · have hne : ∀ u ∈ root.units, u.id ≠ id := fun u hu heq => hunit ⟨u, hu, heq⟩
      rw [coveredBy_passes_of_ne hne, coveredBy_passes_of_ne hne]

/-- What some passes come to: the greatest score of each statement, or zero if that is below the
threshold, and all the classes that reach a unit. -/
structure Merged (policy : SuspicionPolicy α) (root : Node)
    (runs : List (List TestResult × Coverage)) (store after : Store α) : Prop where
  suspicion : ∀ n ∈ root.statements, ∃ m,
    IsGreatest (insert (store.suspicion n)
      {x | ∃ run ∈ runs, Awards root store run.1 run.2 n.id x}) m ∧
    after.suspicion n = if policy.threshold ≤ m then m else 0
  covering : ∀ u ∈ root.units, ∃ classes, after.coveredBy u = some classes ∧
    ∀ c, c ∈ classes ↔ c ∈ (store.coveredBy u).getD ∅ ∨
      ∃ run ∈ runs, Reaches root store run.1 run.2 u.id c

/-- Without a limit, some passes come to the greatest score of each statement and all classes of
each unit, with what was there before; so they can change places. -/
theorem passes_commute (hlimit : policy.limit = none) (hholds : store.Holds root)
    (hnonneg : ∀ n ∈ root.statements, 0 ≤ store.suspicion n) (hruns : runs ≠ []) :
    Merged policy root runs store (passes policy root runs store) ∧
      ∀ runs' : List (List TestResult × Coverage), runs.Perm runs' →
        passes policy root runs' store = passes policy root runs store := by
  refine ⟨⟨fun n hn => ?_, fun u hu => ?_⟩, fun runs' h => passes_perm hlimit hholds hnonneg h⟩
  · have hknown := hholds n (List.mem_filter.mp hn).1
    obtain ⟨m, hm, hsuspicion⟩ := suspicion_passes hlimit hn hknown (hnonneg n hn) runs
    rw [if_neg hruns] at hsuspicion
    exact ⟨m, hm, hsuspicion⟩
  · exact coveredBy_passes policy hu (hholds u (List.mem_filter.mp hu).1) hruns

end Localization

/-! ## A score that is lost in between -/

namespace Exchange

def statement (id line : Nat) : Node := .make (id + 1) .atomicStatement [.leaf id "x" ⟨line, 1⟩]

def program : Node := .make 5 .file [.make 4 .typeDeclaration [statement 0 1, statement 2 2]]

/-- The second statement has a suspicion from before. -/
def marks : Store Rat :=
  ⟨#[.fresh [], .fresh [], .fresh [], ⟨1 / 4, none, []⟩, .fresh [(Attributes.className, "A")],
    .fresh []]⟩

def failure (name : String) : TestResult := .fail ⟨"Test", name⟩ "broken"

/-- One of four failing tests executes the first line. -/
def broad : List TestResult × Coverage :=
  (["a", "b", "c", "d"].map failure, [(⟨"Test", "a"⟩, .ofList [⟨"A", 1⟩])])

/-- The one failing test executes the second line. -/
def narrow : List TestResult × Coverage :=
  ([failure "a"], [(⟨"Test", "a"⟩, .ofList [⟨"A", 2⟩])])

def unlimited : SuspicionPolicy Rat := ⟨3 / 5, none⟩

end Exchange

open GeneticRepair.Localization Exchange in
/-- The broad pass clears both statements if it comes first; the narrow one raises the second from
zero then, or from its old suspicion. -/
theorem passes_commute_exchange : ∃ _ : Root Rat, unlimited.limit = none ∧
    marks.Holds program ∧ (∀ n ∈ program.statements, 0 ≤ marks.suspicion n) ∧
    [broad, narrow] ≠ [] ∧
    Merged unlimited program [broad, narrow] marks
      (passes unlimited program [broad, narrow] marks) ∧
    passes unlimited program [narrow, broad] marks =
      passes unlimited program [broad, narrow] marks ∧
    program.statements.map (annotate program broad.1 broad.2 marks).suspicion = [1 / 2, 1 / 4] ∧
    program.statements.map (passes unlimited program [broad] marks).suspicion = [0, 0] ∧
    program.statements.map (passes unlimited program [broad, narrow] marks).suspicion = [0, 1] := by
  let _ := quotientRoot
  have hholds : marks.Holds program := by
    unfold Store.Holds
    decide +kernel
  have hnonneg : ∀ n ∈ program.statements, 0 ≤ marks.suspicion n := by decide +kernel
  have hruns : [broad, narrow] ≠ [] := List.cons_ne_nil _ _
  have hlimit : unlimited.limit = none := rfl
  obtain ⟨hmerged, horder⟩ := passes_commute hlimit hholds hnonneg hruns
  exact ⟨quotientRoot, hlimit, hholds, hnonneg, hruns, hmerged, horder _ (.swap ..),
    by decide +kernel, by decide +kernel, by decide +kernel⟩

end GeneticRepair

import Mathlib.Data.Set.Card
import GeneticRepair.Proofs.Numeric.Exact
import GeneticRepair.Suspicion.Localization

/-!
# `Proofs/Suspicion/Spectra.lean` — what the spectrum of a line counts

A test may be reported more than once; its last result counts (`TestResult.IsLast`), so the reported
tests fall into a failing and a passing set (`Localization.listed`). The spectrum of a line is said
here in terms of these sets: how many members of each execute the line, and how many there are
(`Spectrum.Counts`). Each line that a reported test executes has exactly one spectrum, and its score
is positive exactly when one of these tests fails.
-/

set_option autoImplicit false

namespace GeneticRepair

/-- No later result of the test replaces this one. -/
def TestResult.IsLast (results : List TestResult) (r : TestResult) : Prop :=
  ∃ before after, results = before ++ r :: after ∧ ∀ later ∈ after, later.id ≠ r.id

/-- Coverage lists the line among those of the test. -/
def Coverage.Executes (c : Coverage) (id : TestId) (l : CodeLine) : Prop :=
  ∃ lines, c.linesOf id = some lines ∧ l ∈ lines

/-- The reported tests whose last result is a pass, or those whose last result is a failure. -/
def Localization.listed (results : List TestResult) (passed : Bool) : Set TestId :=
  {id | ∃ r : TestResult, r.IsLast results ∧ r.id = id ∧ r.hasPassed = passed}

open GeneticRepair.Localization

/-- The spectrum counts the reported tests that execute the line, and those that do not. -/
structure Spectrum.Counts (c : Spectrum) (results : List TestResult) (coverage : Coverage)
    (l : CodeLine) : Prop where
  failingHits_eq : c.failingHits = {id ∈ listed results false | coverage.Executes id l}.ncard
  passingHits_eq : c.passingHits = {id ∈ listed results true | coverage.Executes id l}.ncard
  failing_eq : c.failingHits + c.failingMisses = (listed results false).ncard
  passing_eq : c.passingHits + c.passingMisses = (listed results true).ncard

/-- A list without repeated keys counts a set of keys. -/
theorem countP_eq_ncard {β γ : Type} {key : β → γ} {l : List β} (hn : (l.map key).Nodup)
    {p : β → Bool} {t : Set γ} (ht : ∀ y, y ∈ t ↔ ∃ x ∈ l, p x = true ∧ key x = y) :
    l.countP p = t.ncard := by
  classical
  have hset : t = ((l.filter p).map key).toFinset := by
    ext y
    simp [ht, and_assoc]
  rw [hset, Set.ncard_coe_finset, List.toFinset_card_of_nodup (hn.sublist
    (List.filter_sublist.map key)), List.length_map, List.countP_eq_length_filter]

namespace Localization

variable {results : List TestResult} {coverage : Coverage} {id : TestId} {passed : Bool}

/-! ## The reported tests -/

theorem find?_reverse_eq_some_iff {r : TestResult} :
    results.reverse.find? (·.id = id) = some r ↔ r.IsLast results ∧ r.id = id := by
  rw [List.find?_eq_some_iff_append]
  constructor
  · rintro ⟨hid, after, before, hsplit, hafter⟩
    have hid : r.id = id := by simpa using hid
    refine ⟨⟨before.reverse, after.reverse, ?_, fun later hlater => ?_⟩, hid⟩
    · rw [← List.reverse_reverse results, hsplit]
      simp
    · have hlater := hafter later (List.mem_reverse.mp hlater)
      simpa [hid] using hlater
  · rintro ⟨⟨before, after, rfl, hafter⟩, rfl⟩
    refine ⟨by simp, after.reverse, before.reverse, by simp, fun later hlater => ?_⟩
    simpa using hafter later (List.mem_reverse.mp hlater)

theorem keys_outcomes (results : List TestResult) :
    (outcomes results).map (·.1) = (SortedSet.ofList (results.map (·.id))).toList := by
  simp [outcomes, Function.comp_def]

theorem nodup_outcomes (results : List TestResult) : ((outcomes results).map (·.1)).Nodup := by
  rw [keys_outcomes]
  exact SortedSet.nodup_toList _

theorem mem_outcomes : (id, passed) ∈ outcomes results ↔ id ∈ listed results passed := by
  constructor
  · intro h
    obtain ⟨id', hid', heq⟩ := List.mem_map.mp h
    obtain ⟨rfl, hpassed⟩ := Prod.mk.inj heq
    obtain ⟨r, hr, hrid⟩ := List.mem_map.mp (SortedSet.mem_ofList.mp hid')
    -- a test that is listed has a last result
    obtain ⟨last, hlast⟩ : ∃ last, results.reverse.find? (·.id = id') = some last :=
      Option.isSome_iff_exists.mp
        (List.find?_isSome.mpr ⟨r, List.mem_reverse.mpr hr, decide_eq_true hrid⟩)
    rw [hlast] at hpassed
    exact ⟨last, (find?_reverse_eq_some_iff.mp hlast).1, (find?_reverse_eq_some_iff.mp hlast).2,
      hpassed⟩
  · rintro ⟨r, hlast, rfl, rfl⟩
    have hfound := find?_reverse_eq_some_iff.mpr ⟨hlast, rfl⟩
    obtain ⟨before, after, rfl, -⟩ := hlast
    refine List.mem_map.mpr ⟨r.id, SortedSet.mem_ofList.mpr (by simp), ?_⟩
    rw [hfound]
    rfl

theorem countP_outcomes (results : List TestResult) (passed : Bool) :
    (outcomes results).countP (·.2 = passed) = (listed results passed).ncard := by
  refine countP_eq_ncard (nodup_outcomes results) fun id => ?_
  rw [← mem_outcomes]
  constructor
  · exact fun h => ⟨_, h, by simp, rfl⟩
  · rintro ⟨⟨id', passed'⟩, hmem, hpassed, rfl⟩
    simp only [decide_eq_true_eq] at hpassed
    exact hpassed ▸ hmem

theorem finite_listed (results : List TestResult) (passed : Bool) :
    (listed results passed).Finite :=
  (List.finite_toSet ((outcomes results).map (·.1))).subset fun _ h =>
    List.mem_map.mpr ⟨_, mem_outcomes.mpr h, rfl⟩

/-! ## The tests that execute a line -/

theorem mem_covered_iff {t : CoveredTest} : t ∈ covered (outcomes results) coverage ↔
    t.id ∈ listed results t.passed ∧ coverage.linesOf t.id = some t.lines := by
  rw [← mem_outcomes, covered, List.mem_filterMap]
  constructor
  · rintro ⟨⟨id, passed⟩, hmem, ht⟩
    obtain ⟨lines, hlines, rfl⟩ := Option.map_eq_some_iff.mp ht
    exact ⟨hmem, hlines⟩
  · rintro ⟨hmem, hlines⟩
    exact ⟨(t.id, t.passed), hmem, by rw [hlines]; rfl⟩

theorem nodup_covered (results : List TestResult) (coverage : Coverage) :
    ((covered (outcomes results) coverage).map CoveredTest.id).Nodup := by
  refine List.pairwise_map.mpr (List.Pairwise.filterMap _ (fun o o' hne t ht t' ht' => ?_)
    (List.pairwise_map.mp (nodup_outcomes results)))
  obtain ⟨lines, -, rfl⟩ := Option.map_eq_some_iff.mp ht
  obtain ⟨lines', -, rfl⟩ := Option.map_eq_some_iff.mp ht'
  exact hne

theorem covering_eq (results : List TestResult) (coverage : Coverage) (passed : Bool)
    (l : CodeLine) : covering (covered (outcomes results) coverage) passed l =
      {id ∈ listed results passed | coverage.Executes id l}.ncard := by
  refine countP_eq_ncard (nodup_covered results coverage) fun id => ?_
  simp only [Bool.and_eq_true, decide_eq_true_eq]
  constructor
  · rintro ⟨hid, lines, hlines, hl⟩
    exact ⟨⟨id, passed, lines⟩, mem_covered_iff.mpr ⟨hid, hlines⟩, ⟨rfl, hl⟩, rfl⟩
  · rintro ⟨t, ht, ⟨rfl, hl⟩, rfl⟩
    obtain ⟨hid, hlines⟩ := mem_covered_iff.mp ht
    exact ⟨hid, t.lines, hlines, hl⟩

theorem mem_coveredLines {tests : List CoveredTest} {l : CodeLine} :
    l ∈ coveredLines tests ↔ ∃ t ∈ tests, l ∈ t.lines := by
  have hfold (s : SortedSet CodeLine) :
      l ∈ tests.foldl (fun s t => s.union t.lines) s ↔ l ∈ s ∨ ∃ t ∈ tests, l ∈ t.lines := by
    induction tests generalizing s with
    | nil => simp
    | cons t tests ih =>
      rw [List.foldl_cons, ih, SortedSet.mem_union]
      simp only [List.mem_cons, exists_eq_or_imp]
      rw [or_comm (a := l ∈ t.lines), or_assoc]
  rw [coveredLines, hfold]
  simp

/-! ## Spectra -/

/-- The lines are listed in order, each once. -/
theorem ascending_spectra (results : List TestResult) (coverage : Coverage) :
    (spectra results coverage).Pairwise fun a b => compare a.1 b.1 = .lt :=
  List.pairwise_map.mpr (coveredLines _).ascending

theorem mem_keys_spectra {l : CodeLine} : (∃ c, (l, c) ∈ spectra results coverage) ↔
    ∃ passed, ∃ id ∈ listed results passed, coverage.Executes id l := by
  constructor
  · rintro ⟨c, hmem⟩
    obtain ⟨l', hl', heq⟩ := List.mem_map.mp hmem
    obtain ⟨rfl, -⟩ := Prod.mk.inj heq
    obtain ⟨t, ht, hl⟩ := mem_coveredLines.mp hl'
    obtain ⟨hid, hlines⟩ := mem_covered_iff.mp ht
    exact ⟨t.passed, t.id, hid, t.lines, hlines, hl⟩
  · rintro ⟨passed, id, hid, lines, hlines, hl⟩
    refine ⟨_, List.mem_map_of_mem (mem_coveredLines.mpr ⟨⟨id, passed, lines⟩, ?_, hl⟩)⟩
    exact mem_covered_iff.mpr ⟨hid, hlines⟩

theorem counts_of_mem_spectra {line : CodeLine × Spectrum}
    (h : line ∈ spectra results coverage) : line.2.Counts results coverage line.1 := by
  obtain ⟨l, -, rfl⟩ := List.mem_map.mp h
  have hfailing : (outcomes results).countP (!·.2) = (listed results false).ncard := by
    rw [← countP_outcomes]
    exact List.countP_congr fun o _ => by simp
  have hpassing : (outcomes results).length - (listed results false).ncard =
      (listed results true).ncard := by
    have hrest : (outcomes results).countP (fun o => decide ¬o.2 = true) =
        (outcomes results).countP (·.2 = false) :=
      List.countP_congr fun o _ => by simp
    rw [← countP_outcomes, ← countP_outcomes,
      List.length_eq_countP_add_countP (fun o => o.2 = true), ← hrest]
    simp
  -- no set of hits is larger than its total, so no difference is cut off at zero
  have hhits (passed : Bool) : {id ∈ listed results passed | coverage.Executes id l}.ncard ≤
      (listed results passed).ncard :=
    Set.ncard_le_ncard (Set.sep_subset _ _) (finite_listed results passed)
  simp only [Spectrum.ofTotals, hfailing, hpassing, covering_eq]
  exact ⟨rfl, rfl, Nat.add_sub_cancel' (hhits false), Nat.add_sub_cancel' (hhits true)⟩

end Localization

/-! ## Scores -/

namespace Spectrum

variable {α : Type} [ExactScalar α] [Root α]

theorem ochiai_pos_iff (hroot : ∀ x : α, 0 < x → 0 < Root.sqrt x) (c : Spectrum) :
    (0 : α) < c.ochiai ↔ 0 < c.failingHits := by
  obtain ⟨ef, nf, ep, np⟩ := c
  unfold ochiai
  simp only []
  constructor
  · intro h
    rcases Nat.eq_zero_or_pos ef with rfl | hpos
    · split at h
      · exact absurd h (lt_irrefl _)
      · split at h
        · exact absurd h (lt_irrefl _)
        · rw [Nat.cast_zero, zero_div] at h
          exact absurd h (lt_irrefl _)
    · exact hpos
  · intro hpos
    have hef : (0 : α) < ef := Nat.cast_pos.mpr hpos
    have hfailing : (0 : α) < ef + nf := add_pos_of_pos_of_nonneg hef (Nat.cast_nonneg nf)
    have hcovering : (0 : α) < ef + ep := add_pos_of_pos_of_nonneg hef (Nat.cast_nonneg ep)
    rw [if_neg (not_le_of_gt hfailing), if_neg (not_le_of_gt hcovering)]
    exact div_pos hef (hroot _ (mul_pos hfailing hcovering))

/-- A line has a positive score exactly if a failing test executes it. -/
theorem Counts.ochiai_pos_iff (hroot : ∀ x : α, 0 < x → 0 < Root.sqrt x) {c : Spectrum}
    {results : List TestResult} {coverage : Coverage} {l : CodeLine}
    (h : c.Counts results coverage l) :
    (0 : α) < c.ochiai ↔ ∃ id ∈ listed results false, coverage.Executes id l := by
  rw [Spectrum.ochiai_pos_iff hroot, h.failingHits_eq,
    Set.ncard_pos ((finite_listed results false).subset (Set.sep_subset _ _))]
  rfl

end Spectrum

end GeneticRepair

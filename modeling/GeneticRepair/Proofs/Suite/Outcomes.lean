import GeneticRepair.Proofs.Collection.Keyed
import GeneticRepair.Suite.Universe

/-!
# `Proofs/Suite/Outcomes.lean` — what a checked test run says about every test

The outcomes of a variant are pieced together: executed results first, then the tests that keep what
the first run recorded. Fitness counts passes in that list, the failing set is read off it, and
nothing in the code relates the two. The relation is proved here, from the one fact that makes it
true: results that pass the check, completed from the universe, list every test **once**
(`complete_mergedOutcomes`).

* `validate_eq_ok_iff`: what the check accepts.
* `passCounts_eq`: the counts are those of the tests outside the failing set, and no count is ever
  refused.
-/

set_option autoImplicit false

namespace GeneticRepair

namespace Universe

/-- The passes of either sort if exactly the given tests fail. -/
def passing (u : Universe) (failing : SortedSet TestId) : PassCounts :=
  ⟨(u.negative.filter (· ∉ failing)).size, (u.positive.filter (· ∉ failing)).size⟩

/-! ## The two sorts of tests -/

theorem not_mem_positive_of_mem_negative {u : Universe} {id : TestId} (h : id ∈ u.negative) :
    id ∉ u.positive := by
  intro h'
  rw [mem_negative] at h
  rw [mem_positive] at h'
  exact absurd (eq_of_mem_of_nodup_keys u.nodup h h') (by simp)

theorem mem_all_iff {u : Universe} {id : TestId} :
    id ∈ u.all ↔ id ∈ u.negative ∨ id ∈ u.positive := by
  rw [mem_all, mem_negative, mem_positive]
  constructor
  · rintro ⟨b, h⟩
    cases b with
    | false => exact .inl h
    | true => exact .inr h
  · rintro (h | h)
    · exact ⟨_, h⟩
    · exact ⟨_, h⟩

theorem passedAtFirst_eq_true_iff {u : Universe} {id : TestId} :
    u.passedAtFirst id = true ↔ id ∈ u.positive := by
  simp [passedAtFirst]

/-- A test of the universe failed at first unless it passed. -/
theorem mem_negative_iff {u : Universe} {id : TestId} (h : id ∈ u.all) :
    id ∈ u.negative ↔ u.passedAtFirst id = false := by
  rw [← Bool.not_eq_true, passedAtFirst_eq_true_iff]
  constructor
  · exact not_mem_positive_of_mem_negative
  · exact fun hp => (mem_all_iff.mp h).resolve_right hp

/-! ## The first run -/

theorem firstRepeat_eq_none {seen ids : List TestId} (hn : ids.Nodup) (hs : ∀ id ∈ ids, id ∉ seen) :
    firstRepeat seen ids = none := by
  induction ids generalizing seen with
  | nil => rfl
  | cons id ids ih =>
    obtain ⟨hid, hn⟩ := List.nodup_cons.mp hn
    rw [firstRepeat, if_neg (hs id List.mem_cons_self)]
    refine ih hn fun x hx hmem => ?_
    obtain rfl | hmem := List.mem_cons.mp hmem
    · exact hid hx
    · exact hs x (List.mem_cons_of_mem id hx) hmem

/-- A first run without repeated tests gives a universe. -/
theorem ofFirstRun_of_nodup {results : List TestResult} (hn : (results.map (·.id)).Nodup) :
    ∃ u, ofFirstRun results = .ok u ∧ u.outcomes = results.map fun r => (r.id, r.hasPassed) := by
  have h := firstRepeat_eq_none hn fun id _ => List.not_mem_nil (a := id)
  unfold ofFirstRun
  split
  · rename_i id hid
    rw [h] at hid
    cases hid
  · exact ⟨_, rfl, rfl⟩

/-! ## What the check accepts -/

theorem firstOffence_eq_none_iff {u : Universe} {seen : List TestId} {results : List TestResult} :
    u.firstOffence seen results = none ↔
      (results.map (·.id)).Nodup ∧ ∀ r ∈ results, r.id ∈ u.all ∧ r.id ∉ seen := by
  induction results generalizing seen with
  | nil => simp [firstOffence]
  | cons r rs ih =>
    rw [firstOffence]
    by_cases hk : r.id ∈ u.all
    · by_cases hs : r.id ∈ seen
      · rw [if_neg (not_not_intro hk), if_pos hs]
        simp [hs]
      · rw [if_neg (not_not_intro hk), if_neg hs, ih]
        simp only [List.map_cons, List.nodup_cons, List.mem_cons, forall_eq_or_imp, List.mem_map]
        -- what the rest must not repeat is split between the two sides
        constructor
        · rintro ⟨hn, hr⟩
          exact ⟨⟨fun ⟨x, hx, e⟩ => (hr x hx).2 (.inl e), hn⟩, ⟨hk, hs⟩,
            fun x hx => ⟨(hr x hx).1, fun h => (hr x hx).2 (.inr h)⟩⟩
        · rintro ⟨⟨hd, hn⟩, -, hr⟩
          refine ⟨hn, fun x hx => ⟨(hr x hx).1, ?_⟩⟩
          rintro (e | h)
          · exact hd ⟨x, hx, e⟩
          · exact (hr x hx).2 h
    · rw [if_pos hk]
      constructor
      · nofun
      · exact fun ⟨_, hr⟩ => absurd (hr r List.mem_cons_self).1 hk

theorem validate_eq_ok_iff {u : Universe} {results : List TestResult} {selection : Selection} :
    u.validate results selection = .ok () ↔
      (results.map (·.id)).Nodup ∧ (∀ r ∈ results, r.id ∈ u.all) ∧
        ∀ id ∈ u.all, selection.selects id.className = true → id ∈ results.map (·.id) := by
  have hoff := @firstOffence_eq_none_iff u [] results
  rw [validate]
  cases h : u.firstOffence [] results with
  | some fault =>
    rw [h] at hoff
    constructor
    · nofun
    · rintro ⟨hn, hk, -⟩
      exact nomatch hoff.mpr ⟨hn, fun r hr => ⟨hk r hr, by simp⟩⟩
  | none =>
    obtain ⟨hn, hk⟩ := hoff.mp h
    simp only []
    cases hm : u.all.toList.find? (fun id =>
        selection.selects id.className && decide (id ∉ results.map (·.id))) with
    | some id =>
      have hp := List.find?_some hm
      rw [Bool.and_eq_true, decide_eq_true_eq] at hp
      constructor
      · nofun
      · exact fun ⟨_, _, ha⟩ => absurd (ha id (List.mem_of_find?_eq_some hm) hp.1) hp.2
    | none =>
      refine ⟨fun _ => ⟨hn, fun r hr => (hk r hr).1, fun id hid hsel => ?_⟩, fun _ => rfl⟩
      have := List.find?_eq_none.mp hm id hid
      simpa [hsel] using this

/-! ## Outcome lists with one entry for each test -/

/-- An outcome list that says something about every test of the universe, and once. -/
structure Complete (u : Universe) (outcomes : List (TestId × Bool)) : Prop where
  nodup : (outcomes.map (·.1)).Nodup
  mem : ∀ id, id ∈ outcomes.map (·.1) ↔ id ∈ u.all

theorem complete_mergedOutcomes {u : Universe} {results : List TestResult}
    (hn : (results.map (·.id)).Nodup) (hk : ∀ r ∈ results, r.id ∈ u.all) :
    u.Complete (u.mergedOutcomes results) := by
  have hkeys : (u.mergedOutcomes results).map (·.1) =
      results.map (·.id) ++ u.all.toList.filter (· ∉ results.map (·.id)) := by
    simp [mergedOutcomes, Function.comp_def]
  constructor
  · rw [hkeys]
    refine List.nodup_append.mpr ⟨hn, u.all.nodup_toList.filter _, fun id hid id' hid' e => ?_⟩
    have hnot := (List.mem_filter.mp hid').2
    rw [decide_eq_true_eq] at hnot
    exact hnot (e ▸ hid)
  · intro id
    rw [hkeys, List.mem_append, List.mem_filter]
    constructor
    · rintro (h | ⟨h, -⟩)
      · obtain ⟨r, hr, rfl⟩ := List.mem_map.mp h
        exact hk r hr
      · exact h
    · intro h
      by_cases hr : id ∈ results.map (·.id)
      · exact .inl hr
      · exact .inr ⟨h, by simpa using hr⟩

theorem Complete.mem_failures {u : Universe} {outcomes : List (TestId × Bool)}
    (hc : u.Complete outcomes) {id : TestId} :
    id ∈ failures outcomes ↔ (id, false) ∈ outcomes := by
  rw [failures, SortedSet.mem_filter, SortedSet.mem_ofList, decide_eq_true_eq,
    lookup_reverse_eq_some_iff_mem hc.nodup]
  exact ⟨And.right, fun h => ⟨List.mem_map_of_mem h, h⟩⟩

/-! ## Counting passes -/

/-- What counting adds, with the passes already seen as an accumulator. -/
theorem tally_eq {u : Universe} {outcomes : List (TestId × Bool)}
    (hk : ∀ o ∈ outcomes, o.1 ∈ u.all) (counts : PassCounts) :
    u.tally counts outcomes =
      .ok ⟨counts.negative + outcomes.countP (fun o => o.2 && o.1 ∈ u.negative),
        counts.positive + outcomes.countP (fun o => o.2 && o.1 ∈ u.positive)⟩ := by
  induction outcomes generalizing counts with
  | nil => simp [tally]
  | cons o rest ih =>
    obtain ⟨id, passed⟩ := o
    have hrest := ih fun o ho => hk o (List.mem_cons_of_mem _ ho)
    rw [tally, List.countP_cons, List.countP_cons]
    cases passed with
    | false =>
      rw [if_pos (by decide), hrest]
      simp
    | true =>
      rw [if_neg (by decide)]
      by_cases hneg : id ∈ u.negative
      · have hpos := not_mem_positive_of_mem_negative hneg
        rw [if_pos hneg, hrest]
        simp only [hneg, hpos, Bool.true_and, decide_true, decide_false, if_true, if_false,
          Bool.false_eq_true]
        congr 2
        omega
      · have hpos := (mem_all_iff.mp (hk _ List.mem_cons_self)).resolve_left hneg
        rw [if_neg hneg, if_pos hpos, hrest]
        simp only [hneg, hpos, Bool.true_and, decide_true, decide_false, if_true, if_false,
          Bool.false_eq_true]
        congr 2
        omega

/-- The tests of one sort that pass, counted in the list and counted as a set. -/
theorem Complete.countP_eq {u : Universe} {outcomes : List (TestId × Bool)}
    (hc : u.Complete outcomes) {sort : SortedSet TestId} (hs : ∀ id ∈ sort, id ∈ u.all) :
    outcomes.countP (fun o => o.2 && o.1 ∈ sort) =
      (sort.filter (· ∉ failures outcomes)).size := by
  rw [List.countP_eq_length_filter, ← List.length_map (·.1)]
  refine List.Perm.length_eq ((List.perm_ext_iff_of_nodup ?_ (SortedSet.nodup_toList _)).mpr ?_)
  · exact hc.nodup.sublist (List.filter_sublist.map _)
  intro id
  rw [← SortedSet.mem_iff, SortedSet.mem_filter, decide_eq_true_eq, hc.mem_failures]
  simp only [List.mem_map, List.mem_filter, Bool.and_eq_true, decide_eq_true_eq]
  constructor
  · rintro ⟨⟨id, passed⟩, ⟨ho, rfl, hmem⟩, rfl⟩
    exact ⟨hmem, fun hf => absurd (eq_of_mem_of_nodup_keys hc.nodup ho hf) (by simp)⟩
  · rintro ⟨hmem, hf⟩
    obtain ⟨⟨id', passed⟩, ho, rfl⟩ := List.mem_map.mp ((hc.mem id).mpr (hs id hmem))
    cases passed with
    | true => exact ⟨_, ⟨ho, rfl, hmem⟩, rfl⟩
    | false => exact absurd ho hf

theorem size_filter_le {s : SortedSet TestId} {p : TestId → Bool} : (s.filter p).size ≤ s.size :=
  List.length_filter_le _ _

theorem passCounts_eq {u : Universe} {outcomes : List (TestId × Bool)} (hc : u.Complete outcomes) :
    u.passCounts outcomes = .ok (u.passing (failures outcomes)) := by
  have hknown : ∀ o ∈ outcomes, o.1 ∈ u.all := fun o ho =>
    (hc.mem o.1).mp (List.mem_map_of_mem ho)
  have hn := hc.countP_eq (fun id (h : id ∈ u.negative) => mem_all_iff.mpr (.inl h))
  have hp := hc.countP_eq (fun id (h : id ∈ u.positive) => mem_all_iff.mpr (.inr h))
  rw [passCounts, tally_eq hknown, hn, hp]
  -- both overcounts are ruled out, since the passing tests are among the existing ones
  have hln : ¬ u.negative.size < (u.passing (failures outcomes)).negative :=
    Nat.not_lt.mpr size_filter_le
  have hlp : ¬ u.positive.size < (u.passing (failures outcomes)).positive :=
    Nat.not_lt.mpr size_filter_le
  simp only [passing] at hln hlp
  simp only [bind, Except.bind, pure, Except.pure, passing, Nat.zero_add, hln, hlp, if_false]

theorem failures_subset {u : Universe} {outcomes : List (TestId × Bool)} (hc : u.Complete outcomes)
    {id : TestId} (h : id ∈ failures outcomes) : id ∈ u.all :=
  (hc.mem id).mp (List.mem_map_of_mem (hc.mem_failures.mp h))

end Universe

end GeneticRepair

import GeneticRepair.Proofs.Suspicion.Pruning
import GeneticRepair.Proofs.Syntax.Forest

/-!
# `Proofs/Suspicion/Exactness.lean` — what a report says

A line is scored because a failing test executes it (`Implicated`), and its score goes to the
statements on it that have no other such statement inside (`Innermost`). Inside means among the
nodes below, by identity; where nodes are known by their identity the filter of a pass finds exactly
these (`statementsOn_eq`), and some statement is innermost if any is on the line at all, since a
node below another one is smaller (`exists_innermost`).

`localize_exact` says of every report that it has what it must have and nothing else.
-/

set_option autoImplicit false

namespace GeneticRepair

/-- A reported test that fails executes the line. -/
def Implicated (results : List TestResult) (coverage : Coverage) (l : CodeLine) : Prop :=
  ∃ id ∈ Localization.listed results false, coverage.Executes id l

/-- A statement of a declaration on a line that has no other such statement inside. -/
def Innermost (declaration : Node) (line : Nat) (n : Node) : Prop :=
  n ∈ declaration.statements ∧ n.coversLine line = true ∧
    ∀ m ∈ declaration.statements, m.coversLine line = true → m ∈ n.preorder → m = n

theorem exists_innermost {declaration : Node} {line : Nat}
    (h : ∃ n ∈ declaration.statements, n.coversLine line = true) :
    ∃ n, Innermost declaration line n := by
  obtain ⟨n, hn, hline⟩ := h
  induction hsize : n.size using Nat.strong_induction_on generalizing n with
  | _ size ih =>
    by_cases hinside : ∃ m ∈ declaration.statements,
        m.coversLine line = true ∧ m ∈ n.preorder ∧ m ≠ n
    · obtain ⟨m, hm, hmline, hbelow, hne⟩ := hinside
      exact ih m.size (hsize ▸ (Node.eq_or_size_lt hbelow).resolve_left hne) m hm hmline rfl
    · refine ⟨n, hn, hline, fun m hm hmline hbelow => ?_⟩
      by_contra hne
      exact hinside ⟨m, hm, hmline, hbelow, hne⟩

namespace Localization

open Classical in
/-- The statements that a pass raises are the innermost ones, each at all of its places. -/
theorem statementsOn_eq {α : Type} [Scalar α] {store : Store α} {root declaration : Node}
    (h : store.Forest [root]) (hd : declaration ∈ root.preorder) (line : Nat) :
    statementsOn declaration line =
      declaration.statements.filter fun n => Innermost declaration line n := by
  have hnode {n m : Node} (hn : n ∈ declaration.statements) (hm : m ∈ n.preorder) :
      Store.HasNode [root] m :=
    ⟨root, List.mem_cons_self,
      Node.mem_preorder_trans (Node.mem_preorder_trans hm (List.mem_filter.mp hn).1) hd⟩
  have hself {n : Node} (hn : n ∈ declaration.statements) : Store.HasNode [root] n :=
    hnode hn n.self_mem_preorder
  unfold statementsOn innermost
  rw [List.filter_filter]
  refine List.filter_congr fun n hn => ?_
  rw [Bool.eq_iff_iff, decide_eq_true_iff (p := Innermost declaration line n)]
  simp only [Bool.and_eq_true, Bool.not_eq_true', List.any_eq_false, List.mem_filter,
    decide_eq_true_eq, List.any_eq_true, not_and]
  constructor
  · rintro ⟨hnone, hline⟩
    refine ⟨hn, hline, fun m hm hmline hbelow => ?_⟩
    by_contra hne
    refine hnone m ⟨hm, hmline⟩ (fun hid => hne (h.eq (hself hm) (hself hn) hid.symm)) ?_
    exact ⟨m, hbelow, rfl⟩
  · rintro ⟨-, hline, hall⟩
    refine ⟨fun m ⟨hm, hmline⟩ hne => ?_, hline⟩
    rintro ⟨x, hx, hid⟩
    have hbelow : m ∈ n.preorder := h.eq (hnode hn hx) (hself hm) hid ▸ hx
    exact hne (congrArg Node.id (hall m hm hmline hbelow)).symm

theorem mem_statementsOn {α : Type} [Scalar α] {store : Store α} {root declaration n : Node}
    (h : store.Forest [root]) (hd : declaration ∈ root.preorder) {line : Nat} :
    n ∈ statementsOn declaration line ↔ Innermost declaration line n := by
  rw [statementsOn_eq h hd, List.mem_filter]
  simp only [decide_eq_true_eq]
  exact and_iff_right_of_imp And.left

variable {α : Type} [ExactScalar α] [Root α] {policy : SuspicionPolicy α} {root : Node}
  {store : Store α} {results : List TestResult} {coverage : Coverage}

/-! ## The lines of a report -/

/-- The entries of a pass in the order of the lines, before they are ranked. -/
def entries (root : Node) (store : Store α) (results : List TestResult) (coverage : Coverage) :
    List (LineScore α) :=
  (spectra results coverage).filterMap (entryOf root store)

theorem lines_localize (policy : SuspicionPolicy α) (root : Node) (results : List TestResult)
    (coverage : Coverage) (store : Store α) :
    (localize policy root results coverage store).1.lines =
      ranked LineScore.score (entries root store results coverage) := by
  simp only [localize, scoreLines_eq, entries]

theorem entryOf_eq_some_iff {line : CodeLine × Spectrum} {e : LineScore α} :
    entryOf root store line = some e ↔ 0 < (line.2.ochiai : α) ∧
      ∃ found, store.resolveClass root line.1.className = some found ∧
        e = ⟨line.1, line.2, line.2.ochiai,
          (statementsOn found.declaration line.1.line).length⟩ := by
  unfold entryOf
  split
  · next hle =>
    refine iff_of_false (fun h => ?_) fun h => absurd h.1 (not_lt_of_ge hle)
    cases h
  · next hpos =>
    rw [Option.map_eq_some_iff, and_iff_right (lt_of_not_ge hpos)]
    exact exists_congr fun found => and_congr_right fun _ => eq_comm

theorem ascending_entries : (entries root store results coverage).Pairwise
    fun a b => compare a.location b.location = .lt := by
  refine List.Pairwise.filterMap _ (fun a b hlt x hx y hy => ?_)
    (ascending_spectra results coverage)
  obtain ⟨-, found, -, rfl⟩ := entryOf_eq_some_iff.mp hx
  obtain ⟨-, found', -, rfl⟩ := entryOf_eq_some_iff.mp hy
  exact hlt

/-- A line has a positive score exactly if a failing test executes it. -/
theorem pos_iff_implicated (hroot : ∀ x : α, 0 < x → 0 < Root.sqrt x)
    {line : CodeLine × Spectrum} (h : line ∈ spectra results coverage) :
    (0 : α) < line.2.ochiai ↔ Implicated results coverage line.1 :=
  (counts_of_mem_spectra h).ochiai_pos_iff hroot

theorem mem_spectra_of_implicated {l : CodeLine} (h : Implicated results coverage l) :
    ∃ c, (l, c) ∈ spectra results coverage :=
  mem_keys_spectra.mpr ⟨false, h⟩

theorem mem_unknownClasses {c : String} :
    c ∈ (localize policy root results coverage store).1.unknownClasses ↔
      ∃ line ∈ spectra results coverage, 0 < (line.2.ochiai : α) ∧
        store.resolveClass root line.1.className = none ∧ line.1.className = c := by
  simp only [localize, scoreLines_eq, SortedSet.mem_ofList, List.mem_filterMap]
  refine exists_congr fun line => and_congr_right fun _ => ?_
  unfold undeclaredOf
  split
  · next hle =>
    refine iff_of_false (fun h => ?_) fun h => absurd h.1 (not_lt_of_ge hle)
    cases h
  · next hpos =>
    rw [and_iff_right (lt_of_not_ge hpos)]
    simp only [Option.ite_none_right_eq_some, Option.some.injEq, Option.isNone_iff_eq_none]

open Classical in
/-- The entry of a line agrees with the tests and with the innermost statements on it. -/
structure Rated (results : List TestResult) (coverage : Coverage) (declaration : Node)
    (before : Store α) (e : LineScore α) : Prop where
  counts : e.counts.Counts results coverage e.location
  score_eq : e.score = e.counts.ochiai
  statements_eq : e.statements =
    declaration.statements.countP fun n => Innermost declaration e.location.line n
  score_le : ∀ n, Innermost declaration e.location.line n → e.score ≤ before.suspicion n
  statements_pos : (∃ n ∈ declaration.statements, n.coversLine e.location.line = true) →
    0 < e.statements

/-- A report and the marks before and after the clearing are what tests and program make them. -/
structure Exact (policy : SuspicionPolicy α) (root : Node) (results : List TestResult)
    (coverage : Coverage) (store before after : Store α) (report : SuspicionReport α) : Prop where
  undeclared : ∀ l, Implicated results coverage l →
    store.resolveClass root l.className = none →
      l.className ∈ report.unknownClasses ∧ ∀ e ∈ report.lines, e.location ≠ l
  declared : ∀ l, Implicated results coverage l →
    ∀ found, store.resolveClass root l.className = some found →
      ∃ e ∈ report.lines, e.location = l ∧ Rated results coverage found.declaration before e
  once : (report.lines.map LineScore.location).Nodup
  /-- No other line is scored. -/
  implicated : ∀ e ∈ report.lines, Implicated results coverage e.location
  /-- And no other class is reported. -/
  unknown : ∀ c ∈ report.unknownClasses, store.resolveClass root c = none ∧
    ∃ l, Implicated results coverage l ∧ l.className = c
  /-- Nodes that are innermost on no scored line are not raised. -/
  others : ∀ id, (∀ e ∈ report.lines, ∀ found,
      store.resolveClass root e.location.className = some found →
        ∀ n, Innermost found.declaration e.location.line n → n.id ≠ id) →
    (before.mark id).suspicion = (store.mark id).suspicion ∧
      (after.mark id).suspicion ≤ (store.mark id).suspicion
  bare : report.bareLines.Perm
    ((report.lines.filter (·.statements = 0)).map LineScore.location)
  raised : report.raised = (report.lines.map LineScore.statements).sum
  /-- The highest score comes first, and equal ones stand in the order of the lines. -/
  sorted : report.lines.Pairwise fun a b =>
    b.score < a.score ∨ b.score = a.score ∧ compare a.location b.location = .lt
  cleared : after = (clearLow policy root before).2

/-- The innermost statements on a scored line have at least its score. -/
theorem rated_of_mem_spectra (hforest : store.Forest [root]) {line : CodeLine × Spectrum}
    (hline : line ∈ spectra results coverage) (hpos : 0 < (line.2.ochiai : α))
    {found : ClassMatch} (hfound : store.resolveClass root line.1.className = some found) :
    Rated results coverage found.declaration (annotate root results coverage store)
      ⟨line.1, line.2, line.2.ochiai, (statementsOn found.declaration line.1.line).length⟩ := by
  have hd := Store.declaration_mem_of_resolveClass hfound
  refine ⟨counts_of_mem_spectra hline, rfl, ?_, fun n hn => ?_, fun hany => ?_⟩
  · rw [statementsOn_eq hforest hd, List.countP_eq_length_filter]
  · have hroot := Node.mem_preorder_trans (List.mem_filter.mp hn.1).1 hd
    have hknown := hforest.holds root List.mem_cons_self n hroot
    refine (isGreatest_annotate hknown).2 (.inr ?_)
    exact ⟨line, hline, found, hfound, ⟨n, (mem_statementsOn hforest hd).mpr hn, rfl⟩,
      rfl, hpos⟩
  · obtain ⟨n, hn⟩ := exists_innermost hany
    exact List.length_pos_of_mem ((mem_statementsOn hforest hd).mpr hn)

/-- What a pass reports and writes is exact in every program with nodes known by identity, if roots
of positive numbers are positive. -/
theorem localize_exact (hforest : store.Forest [root])
    (hroot : ∀ x : α, 0 < x → 0 < Root.sqrt x) (policy : SuspicionPolicy α)
    (results : List TestResult) (coverage : Coverage) :
    Exact policy root results coverage store (annotate root results coverage store)
      (localize policy root results coverage store).2
      (localize policy root results coverage store).1 := by
  have hmem {e : LineScore α} : e ∈ (localize policy root results coverage store).1.lines ↔
      ∃ line ∈ spectra results coverage, entryOf root store line = some e := by
    rw [lines_localize, mem_ranked, entries, List.mem_filterMap]
  have hperm := perm_ranked LineScore.score (entries root store results coverage)
  constructor
  case undeclared =>
    intro l hl hnone
    obtain ⟨c, hc⟩ := mem_spectra_of_implicated hl
    refine ⟨mem_unknownClasses.mpr ⟨_, hc, (pos_iff_implicated hroot hc).mpr hl, hnone, rfl⟩, ?_⟩
    rintro e he rfl
    obtain ⟨line, hline, hentry⟩ := hmem.mp he
    obtain ⟨-, found, hfound, rfl⟩ := entryOf_eq_some_iff.mp hentry
    exact Option.some_ne_none found (hfound.symm.trans hnone)
  case declared =>
    intro l hl found hfound
    obtain ⟨c, hc⟩ := mem_spectra_of_implicated hl
    have hpos := (pos_iff_implicated (α := α) hroot hc).mpr hl
    exact ⟨_, hmem.mpr ⟨_, hc, entryOf_eq_some_iff.mpr ⟨hpos, found, hfound, rfl⟩⟩, rfl,
      rated_of_mem_spectra hforest hc hpos hfound⟩
  case once =>
    rw [lines_localize, (hperm.map _).nodup_iff]
    exact List.pairwise_map.mpr (ascending_entries.imp SortedSet.ne_of_compare_lt)
  case implicated =>
    intro e he
    obtain ⟨line, hline, hentry⟩ := hmem.mp he
    obtain ⟨hpos, found, -, rfl⟩ := entryOf_eq_some_iff.mp hentry
    exact (pos_iff_implicated hroot hline).mp hpos
  case unknown =>
    intro c hc
    obtain ⟨line, hline, hpos, hnone, rfl⟩ := mem_unknownClasses.mp hc
    exact ⟨hnone, line.1, (pos_iff_implicated hroot hline).mp hpos, rfl⟩
  case others =>
    intro id hnone
    have hsame : ((annotate root results coverage store).mark id).suspicion =
        (store.mark id).suspicion := by
      refine suspicion_annotate_of_not_awards fun score => ?_
      rintro ⟨line, hline, found, hfound, ⟨n, hn, hid⟩, rfl, hpos⟩
      have hd := Store.declaration_mem_of_resolveClass hfound
      exact hnone _ (hmem.mpr ⟨line, hline, entryOf_eq_some_iff.mpr ⟨hpos, found, hfound, rfl⟩⟩)
        found hfound n ((mem_statementsOn hforest hd).mp hn) hid
    exact ⟨hsame, hsame ▸ suspicion_clearLow_le policy root _ id⟩
  case bare =>
    rw [lines_localize]
    simp only [localize, scoreLines_eq]
    exact ((hperm.filter _).map _).symm
  case raised =>
    rw [lines_localize, (hperm.map LineScore.statements).sum_eq, List.sum_eq_foldl,
      List.foldl_map]
    simp only [localize, scoreLines_eq]
    rfl
  case sorted =>
    rw [lines_localize]
    exact pairwise_ranked ascending_entries
  case cleared => rfl

end Localization

/-! ## A statement inside another one -/

namespace Nesting

def token (id line : Nat) : Node := .leaf id "x" ⟨line, 1⟩

/-- A statement from line one to line three around a statement on line two. -/
def outer : Node :=
  .make 4 .atomicStatement [token 0 1, .make 2 .atomicStatement [token 1 2], token 3 3]

def program : Node := .make 6 .file [.make 5 .typeDeclaration [outer]]

def marks : Store Rat :=
  ⟨#[.fresh [], .fresh [], .fresh [], .fresh [], .fresh [],
    .fresh [(Attributes.className, "A")], .fresh []]⟩

/-- A test that passes first and fails then, and three that pass. -/
def results : List TestResult :=
  [.pass ⟨"Test", "a"⟩, .fail ⟨"Test", "a"⟩ "broken", .pass ⟨"Test", "b"⟩, .pass ⟨"Test", "c"⟩,
    .pass ⟨"Test", "d"⟩]

def coverage : Coverage :=
  [(⟨"Test", "a"⟩, .ofList [⟨"A", 1⟩, ⟨"A", 2⟩, ⟨"A", 9⟩, ⟨"B", 1⟩]),
    (⟨"Test", "b"⟩, .ofList [⟨"A", 2⟩]), (⟨"Test", "c"⟩, .ofList [⟨"A", 2⟩]),
    (⟨"Test", "d"⟩, .ofList [⟨"A", 2⟩])]

end Nesting

open GeneticRepair.Localization Nesting in
/-- The outer statement is innermost on its first line only, line nine has no statement, and the
class `B` is not declared. -/
theorem localize_exact_nesting : ∃ _ : Root Rat, marks.Forest [program] ∧
    (∀ x : Rat, 0 < x → 0 < Root.sqrt x) ∧
    Exact .keepAll program results coverage marks (annotate program results coverage marks)
      (localize .keepAll program results coverage marks).2
      (localize .keepAll program results coverage marks).1 ∧
    (localize .keepAll program results coverage marks).1.lines.map
      (fun e => (e.location, e.score, e.statements)) =
        [(⟨"A", 1⟩, 1, 1), (⟨"A", 9⟩, 1, 0), (⟨"A", 2⟩, 1 / 2, 1)] ∧
    program.statements.map (annotate program results coverage marks).suspicion = [1, 1 / 2] := by
  let _ := quotientRoot
  have hforest : marks.Forest [program] := by
    refine .of_nodup ?_ (by decide +kernel)
    unfold Store.Holds
    decide +kernel
  have hroot : ∀ x : Rat, 0 < x → 0 < Root.sqrt x := fun x hx => sqrt_quotientRoot_pos hx
  exact ⟨quotientRoot, hforest, hroot, localize_exact hforest hroot .keepAll results coverage,
    by decide +kernel, by decide +kernel⟩

end GeneticRepair

import GeneticRepair.Proofs.Suspicion.Annotating
import GeneticRepair.Proofs.Collection.Ranked
import GeneticRepair.Proofs.Syntax.Forest

/-!
# `Proofs/Suspicion/Pruning.lean` — what a pass clears

At its end a pass clears the suspicious statements below the threshold and, of the others, those
that rank beyond the limit. Both are lists of places, while suspicion belongs to nodes: a statement
that stands at two places may be within the limit at one and beyond it at the other (`Split`), and
is then cleared with both counted as if the first were left.

* `localize_kept_iff`: the reported number is right exactly if that does not happen; in any case the
  limit is kept, all that is left reaches the threshold, and nothing above it was cut.
* `not_localize_kept`: a statement at two places and a limit of one.
-/

set_option autoImplicit false

namespace GeneticRepair

/-- The suspicious statements are statements. -/
theorem Store.suspects_eq {α : Type} [Scalar α] (s : Store α) (root : Node) :
    s.suspects root = root.statements.filter fun n => 0 < s.suspicion n := by
  rw [Node.statements, Node.ofKind, List.filter_filter]
  exact List.filter_congr fun n _ => Bool.and_comm _ _

theorem Store.mem_suspects {α : Type} [Scalar α] {s : Store α} {root n : Node} :
    n ∈ s.suspects root ↔ n ∈ root.statements ∧ 0 < s.suspicion n := by
  rw [suspects_eq, List.mem_filter, decide_eq_true_eq]

namespace Localization

variable {α : Type} [OrderedScalar α] {policy : SuspicionPolicy α} {root : Node} {store : Store α}

/-- The places of suspicious statements below the threshold. -/
def low (policy : SuspicionPolicy α) (root : Node) (store : Store α) : List Node :=
  (store.suspects root).filter fun n => store.suspicion n < policy.threshold

/-- The places of the other suspicious statements. -/
def high (policy : SuspicionPolicy α) (root : Node) (store : Store α) : List Node :=
  (store.suspects root).filter fun n => !(store.suspicion n < policy.threshold)

/-- Of these, the ones within the limit. -/
def within (policy : SuspicionPolicy α) (root : Node) (store : Store α) : List Node :=
  match policy.limit with
  | none => high policy root store
  | some limit => (ranked store.suspicion (high policy root store)).take limit

/-- And the ones beyond it. -/
def beyond (policy : SuspicionPolicy α) (root : Node) (store : Store α) : List Node :=
  match policy.limit with
  | none => []
  | some limit => (ranked store.suspicion (high policy root store)).drop limit

/-- A statement stands at one place within the limit and at one beyond it. -/
def Split (policy : SuspicionPolicy α) (root : Node) (store : Store α) : Prop :=
  ∃ n ∈ within policy root store, ∃ m ∈ beyond policy root store, n.id = m.id

theorem perm_within_beyond (policy : SuspicionPolicy α) (root : Node) (store : Store α) :
    (within policy root store ++ beyond policy root store).Perm (high policy root store) := by
  unfold within beyond
  cases policy.limit with
  | none => rw [List.append_nil]
  | some limit =>
    rw [List.take_append_drop]
    exact perm_ranked _ _

theorem mem_low {n : Node} : n ∈ low policy root store ↔
    n ∈ store.suspects root ∧ store.suspicion n < policy.threshold := by
  rw [low, List.mem_filter, decide_eq_true_eq]

theorem mem_high {n : Node} : n ∈ high policy root store ↔
    n ∈ store.suspects root ∧ policy.threshold ≤ store.suspicion n := by
  rw [high, List.mem_filter, Bool.not_eq_true', decide_eq_false_iff_not, not_lt]

theorem mem_high_iff {n : Node} : n ∈ high policy root store ↔
    n ∈ within policy root store ∨ n ∈ beyond policy root store := by
  rw [← (perm_within_beyond policy root store).mem_iff, List.mem_append]

theorem suspicion_le_of_beyond {n m : Node} (hn : n ∈ within policy root store)
    (hm : m ∈ beyond policy root store) : store.suspicion m ≤ store.suspicion n := by
  unfold within at hn
  unfold beyond at hm
  cases hlimit : policy.limit with
  | none =>
    rw [hlimit] at hm
    cases hm
  | some limit =>
    rw [hlimit] at hn hm
    exact score_le_of_cut hn hm

theorem length_within_le {limit : Nat} (h : policy.limit = some limit) :
    (within policy root store).length ≤ limit := by
  rw [within, h]
  exact List.length_take_le _ _

theorem suspicion_eq_of_id {n m : Node} (h : n.id = m.id) :
    store.suspicion n = store.suspicion m := by
  rw [Store.suspicion, h]
  rfl

/-- A node that is low at one place is low. -/
theorem suspicion_lt_of_low {n m : Node} (hm : m ∈ low policy root store) (hid : m.id = n.id) :
    store.suspicion n < policy.threshold := by
  rw [← suspicion_eq_of_id hid]
  exact (mem_low.mp hm).2

/-! ## The marks that are left -/

/-- What is cleared is low or beyond the limit, and the places within it are counted. -/
theorem clearLow_eq (policy : SuspicionPolicy α) (root : Node) (store : Store α) :
    clearLow policy root store = ((within policy root store).length,
      store.clearAll (low policy root store ++ beyond policy root store)) := by
  have hclear (s : Store α) (l m : List Node) :
      m.foldl Store.clear (l.foldl Store.clear s) = s.clearAll (l ++ m) := List.foldl_append.symm
  -- the ranking reads the marks after the low places have been cleared, which is none of its own
  have hranked : ranked ((low policy root store).foldl Store.clear store).suspicion
      (high policy root store) = ranked store.suspicion (high policy root store) := by
    refine ranked_congr fun n hn => ?_
    have hnot : ¬ ∃ m ∈ low policy root store, m.id = n.id := fun ⟨m, hm, hid⟩ =>
      absurd (suspicion_lt_of_low hm hid) (not_lt_of_ge (mem_high.mp hn).2)
    exact (store.suspicion_clearAll _ n.id).trans (if_neg hnot)
  unfold clearLow within beyond
  simp only []
  rw [← low, ← high, hranked]
  cases policy.limit with
  | none =>
    rw [List.append_nil]
    rfl
  | some limit =>
    simp only [List.length_take, length_ranked]
    split
    · next hlt => rw [Nat.min_eq_left (Nat.le_of_lt hlt), hclear]
    · next hnot =>
      have hle := Nat.le_of_not_lt hnot
      rw [Nat.min_eq_right hle, List.drop_of_length_le (by rwa [length_ranked]), List.append_nil]
      rfl

/-- A place of the node is cleared. -/
def Cleared (policy : SuspicionPolicy α) (root : Node) (store : Store α) (id : NodeId) : Prop :=
  ∃ n ∈ low policy root store ++ beyond policy root store, n.id = id

instance (id : NodeId) : Decidable (Cleared policy root store id) :=
  inferInstanceAs (Decidable (∃ n ∈ low policy root store ++ beyond policy root store, n.id = id))

theorem cleared_of_low {n : Node} (hn : n ∈ low policy root store) :
    Cleared policy root store n.id := ⟨n, List.mem_append_left _ hn, rfl⟩

theorem cleared_of_beyond {n : Node} (hn : n ∈ beyond policy root store) :
    Cleared policy root store n.id := ⟨n, List.mem_append_right _ hn, rfl⟩

/-- Only suspicious statements are cleared. -/
theorem Cleared.suspect {id : NodeId} (h : Cleared policy root store id) :
    ∃ n ∈ store.suspects root, n.id = id := by
  obtain ⟨n, hn, rfl⟩ := h
  obtain hn | hn := List.mem_append.mp hn
  · exact ⟨n, (mem_low.mp hn).1, rfl⟩
  · exact ⟨n, (mem_high.mp (mem_high_iff.mpr (.inr hn))).1, rfl⟩

theorem Cleared.statement {id : NodeId} (h : Cleared policy root store id) :
    ∃ n ∈ root.statements, n.id = id :=
  have ⟨n, hn, hid⟩ := h.suspect
  ⟨n, (Store.mem_suspects.mp hn).1, hid⟩

theorem Cleared.pos {id : NodeId} (h : Cleared policy root store id) :
    0 < (store.mark id).suspicion := by
  obtain ⟨n, hn, rfl⟩ := h.suspect
  exact (Store.mem_suspects.mp hn).2

/-- Only places within the limit are not cleared. -/
theorem mem_within_of_not_cleared {n : Node} (hn : n ∈ store.suspects root)
    (hnot : ¬ Cleared policy root store n.id) : n ∈ within policy root store := by
  have hhigh : n ∈ high policy root store :=
    mem_high.mpr ⟨hn, le_of_not_gt fun hlt => hnot (cleared_of_low (mem_low.mpr ⟨hn, hlt⟩))⟩
  exact (mem_high_iff.mp hhigh).resolve_right fun hbeyond => hnot (cleared_of_beyond hbeyond)

/-- A place within the limit is cleared only if its node stands beyond the limit elsewhere. -/
theorem cleared_iff_of_within {n : Node} (hn : n ∈ within policy root store) :
    Cleared policy root store n.id ↔ ∃ m ∈ beyond policy root store, m.id = n.id := by
  refine ⟨fun ⟨m, hm, hid⟩ => ?_, fun ⟨m, hm, hid⟩ => hid ▸ cleared_of_beyond hm⟩
  refine (List.mem_append.mp hm).elim (fun hlow => ?_) fun hbeyond => ⟨m, hbeyond, hid⟩
  have hle := (mem_high.mp (mem_high_iff.mpr (.inl hn))).2
  exact absurd (suspicion_lt_of_low hlow hid) (not_lt_of_ge hle)

/-- A pass leaves a mark at zero if its node is cleared, and as it was otherwise. -/
theorem suspicion_clearLow (policy : SuspicionPolicy α) (root : Node) (store : Store α)
    (id : NodeId) : ((clearLow policy root store).2.mark id).suspicion =
      if Cleared policy root store id then 0 else (store.mark id).suspicion := by
  rw [clearLow_eq]
  exact store.suspicion_clearAll _ id

theorem suspicion_clearLow_le (policy : SuspicionPolicy α) (root : Node) (store : Store α)
    (id : NodeId) :
    ((clearLow policy root store).2.mark id).suspicion ≤ (store.mark id).suspicion := by
  rw [suspicion_clearLow]
  split
  · next hcleared => exact hcleared.pos.le
  · exact le_refl _

/-- The statements that are left. -/
theorem mem_suspects_clearLow {n : Node} : n ∈ (clearLow policy root store).2.suspects root ↔
    n ∈ store.suspects root ∧ ¬ Cleared policy root store n.id := by
  have hsuspicion := suspicion_clearLow policy root store n.id
  rw [Store.mem_suspects, Store.mem_suspects, Store.suspicion, hsuspicion]
  split
  · next hcleared => exact ⟨fun h => absurd h.2 (lt_irrefl _), fun h => absurd hcleared h.2⟩
  · next hleft => exact ⟨fun h => ⟨h, hleft⟩, And.left⟩

theorem suspicion_of_left {n : Node} (hn : n ∈ (clearLow policy root store).2.suspects root) :
    (clearLow policy root store).2.suspicion n = store.suspicion n :=
  (suspicion_clearLow policy root store n.id).trans (if_neg (mem_suspects_clearLow.mp hn).2)

/-- Of the places within the limit, those are left whose statement is not beyond it elsewhere. -/
theorem length_suspects_clearLow (policy : SuspicionPolicy α) (root : Node) (store : Store α) :
    ((clearLow policy root store).2.suspects root).length =
      (within policy root store).countP fun n => ¬ Cleared policy root store n.id := by
  have hleft : (clearLow policy root store).2.suspects root =
      (store.suspects root).filter fun n => ¬ Cleared policy root store n.id := by
    rw [Store.suspects_eq, Store.suspects_eq, List.filter_filter]
    refine List.filter_congr fun n hn => ?_
    have hiff : n ∈ (clearLow policy root store).2.suspects root ↔ _ := mem_suspects_clearLow
    rw [Store.mem_suspects, Store.mem_suspects, and_iff_right hn, and_iff_right hn, and_comm]
      at hiff
    rw [Bool.eq_iff_iff, Bool.and_eq_true, decide_eq_true_eq, decide_eq_true_eq, decide_eq_true_eq,
      hiff]
  have hparts : (within policy root store ++ beyond policy root store ++
      low policy root store).Perm (store.suspects root) :=
    ((perm_within_beyond policy root store).append_right _).trans
      (List.perm_append_comm.trans (List.filter_append_perm _ _))
  have hbeyond : (beyond policy root store).countP
      (fun n => ¬ Cleared policy root store n.id) = 0 :=
    List.countP_eq_zero.mpr fun n hn => by simpa using cleared_of_beyond hn
  have hlow : (low policy root store).countP (fun n => ¬ Cleared policy root store n.id) = 0 :=
    List.countP_eq_zero.mpr fun n hn => by simpa using cleared_of_low hn
  rw [hleft, ← List.countP_eq_length_filter, ← hparts.countP_eq, List.countP_append,
    List.countP_append, hbeyond, hlow]
  rfl

theorem not_split_of_nodup (hn : (root.statements.map Node.id).Nodup) :
    ¬ Split policy root store := by
  rintro ⟨n, hwithin, m, hbeyond, hid⟩
  have hsub : (high policy root store).Sublist root.statements := by
    rw [high, Store.suspects_eq]
    exact List.filter_sublist.trans List.filter_sublist
  have hall : ((within policy root store ++ beyond policy root store).map Node.id).Nodup :=
    ((perm_within_beyond policy root store).map Node.id).nodup_iff.mpr (hn.sublist (hsub.map _))
  rw [List.map_append, List.nodup_append] at hall
  exact hall.2.2 _ (List.mem_map_of_mem hwithin) _ (List.mem_map_of_mem hbeyond) hid

/-! ## The report -/

variable [Root α]

/-- The report on an annotated store differs in the number of statements that are left only. -/
theorem report_of_annotates {store' : Store α} (h : store.Annotates store')
    (policy : SuspicionPolicy α) (root : Node) (results : List TestResult) (coverage : Coverage) :
    (localize policy root results coverage store').1 =
      { (localize policy root results coverage store).1 with
        kept := (localize policy root results coverage store').1.kept } := by
  simp only [localize, scoreLines_eq, entryOf_of_annotates h, undeclaredOf_of_annotates h]

/-- The number that a pass reports is that of the statements left exactly if no statement is within
the limit at one place and beyond it at another. In any case it is not too small and keeps the
limit, what is left reaches the threshold and has its score, and nothing that scored at least the
threshold was cleared in favour of a lower score. -/
theorem localize_kept_iff (policy : SuspicionPolicy α) (root : Node) (results : List TestResult)
    (coverage : Coverage) (store : Store α) :
    let before := annotate root results coverage store
    let report := (localize policy root results coverage store).1
    let after := (localize policy root results coverage store).2
    (report.kept = (after.suspects root).length ↔ ¬ Split policy root before) ∧
      (after.suspects root).length ≤ report.kept ∧
      (∀ limit, policy.limit = some limit → report.kept ≤ limit) ∧
      (∀ n ∈ after.suspects root,
        policy.threshold ≤ after.suspicion n ∧ after.suspicion n = before.suspicion n) ∧
      ∀ n ∈ before.suspects root, policy.threshold ≤ before.suspicion n →
        n ∉ after.suspects root → ∀ m ∈ after.suspects root,
          before.suspicion n ≤ before.suspicion m := by
  intro before report after
  have hkept : report.kept = (within policy root before).length :=
    congrArg Prod.fst (clearLow_eq policy root before)
  have hlength : (after.suspects root).length = _ := length_suspects_clearLow policy root before
  refine ⟨?_, ?_, fun limit hlimit => ?_, fun n hn => ?_, fun n hn hle hgone m hm => ?_⟩
  · rw [hkept, hlength, eq_comm, List.countP_eq_length]
    simp only [decide_eq_true_eq, Split, not_exists, not_and]
    refine forall₂_congr fun n hn => ?_
    rw [cleared_iff_of_within hn]
    simp only [not_exists, not_and, eq_comm]
  · rw [hkept, hlength]
    exact List.countP_le_length
  · rw [hkept]
    exact length_within_le hlimit
  · have hsame : after.suspicion n = before.suspicion n := suspicion_of_left hn
    obtain ⟨hsuspect, hnot⟩ := mem_suspects_clearLow.mp hn
    have hhigh := mem_high_iff.mpr (.inl (mem_within_of_not_cleared hsuspect hnot))
    exact ⟨hsame ▸ (mem_high.mp hhigh).2, hsame⟩
  · have hcleared : Cleared policy root before n.id := by
      by_contra hnot
      exact hgone (mem_suspects_clearLow.mpr ⟨hn, hnot⟩)
    obtain ⟨hsuspect, hnot⟩ := mem_suspects_clearLow.mp hm
    obtain ⟨c, hc, hid⟩ := hcleared
    obtain hc | hc := List.mem_append.mp hc
    · exact absurd (suspicion_lt_of_low hc hid) (not_lt_of_ge hle)
    · rw [← suspicion_eq_of_id hid]
      exact suspicion_le_of_beyond (mem_within_of_not_cleared hsuspect hnot) hc

end Localization

/-! ## A statement at two places -/

namespace Echo

def token : Node := .leaf 0 "x" ⟨1, 1⟩

def statement : Node := .make 1 .atomicStatement [token]

/-- A class that holds one statement twice. -/
def declaration : Node := .make 2 .typeDeclaration [statement, statement]

def program : Node := .make 3 .file [declaration]

def marks : Store Rat :=
  ⟨#[.fresh [], .fresh [], .fresh [(Attributes.className, "A")], .fresh []]⟩

/-- The one test fails, and it executes the line of the statement. -/
def results : List TestResult := [.fail ⟨"Test", "breaks"⟩ "broken"]

def coverage : Coverage := [(⟨"Test", "breaks"⟩, .ofList [⟨"A", 1⟩])]

def onlyOne : SuspicionPolicy Rat := ⟨0, some 1⟩

theorem forest_program : marks.Forest [program] := by
  refine .of_nodes [program, declaration, statement, token] (by decide) (by decide) ?_
  intro t ht
  have hnodes : program.preorder = [program, declaration, statement, token, statement, token] := rfl
  rw [List.mem_singleton.mp ht, hnodes]
  simp

theorem ochiai_one [Root Rat] (h : Root.sqrt (1 : Rat) = 1) :
    (Spectrum.ochiai ⟨1, 0, 0, 0⟩ : Rat) = 1 := by
  simp only [Spectrum.ochiai, Nat.cast_one, Nat.cast_zero, add_zero, mul_one, h, div_one]
  rfl

end Echo

open GeneticRepair.Localization in
/-- With a statement at two places a pass reports one statement when none is left, whatever the
square root does to other numbers than one. -/
theorem not_localize_kept : ¬ ∃ _ : Root Rat, Root.sqrt (1 : Rat) = 1 ∧
    ∀ (policy : SuspicionPolicy Rat) (root : Node) (results : List TestResult)
      (coverage : Coverage) (store : Store Rat), policy.validate = .ok () → store.Forest [root] →
      (localize policy root results coverage store).1.kept =
        ((localize policy root results coverage store).2.suspects root).length := by
  rintro ⟨root, hone, hkept⟩
  have hspectra : spectra Echo.results Echo.coverage = [(⟨"A", 1⟩, ⟨1, 0, 0, 0⟩)] := by
    decide +kernel
  have h := hkept Echo.onlyOne Echo.program Echo.results Echo.coverage Echo.marks
    (by decide +kernel) Echo.forest_program
  unfold localize scoreLines at h
  simp only [hspectra, List.foldl_cons, List.foldl_nil, scoreLine, Echo.ochiai_one hone] at h
  revert h
  decide +kernel

end GeneticRepair

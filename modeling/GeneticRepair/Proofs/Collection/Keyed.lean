import Mathlib.Data.List.Nodup

/-!
# `Proofs/Collection/Keyed.lean` — lists that are read by key

Outcomes by test, units by file name and results by job are kept as lists of pairs and read with
`List.lookup`. As long as no key occurs twice, looking a key up is the same as having the pair, and
it does not matter from which end the list is read.
-/

set_option autoImplicit false

namespace GeneticRepair

variable {κ β : Type} [DecidableEq κ]

theorem mem_of_lookup {l : List (κ × β)} {k : κ} {b : β} (h : l.lookup k = some b) :
    (k, b) ∈ l := by
  obtain ⟨l₁, l₂, rfl, -⟩ := List.lookup_eq_some_iff.mp h
  simp

theorem lookup_eq_some_iff_mem {l : List (κ × β)} (hn : (l.map (·.1)).Nodup) {k : κ} {b : β} :
    l.lookup k = some b ↔ (k, b) ∈ l := by
  refine ⟨mem_of_lookup, fun h => ?_⟩
  induction l with
  | nil => exact absurd h (by simp)
  | cons e l ih =>
    rw [List.map_cons, List.nodup_cons] at hn
    rw [List.lookup_cons]
    rcases List.mem_cons.mp h with rfl | h
    · simp
    · have hne : k ≠ e.1 := fun e' => hn.1 (e' ▸ List.mem_map_of_mem h)
      rw [beq_false_of_ne hne]
      exact ih hn.2 h

theorem lookup_reverse_eq_some_iff_mem {l : List (κ × β)} (hn : (l.map (·.1)).Nodup) {k : κ}
    {b : β} : l.reverse.lookup k = some b ↔ (k, b) ∈ l := by
  have hr : (l.reverse.map (·.1)).Nodup := by
    rw [List.map_reverse]
    exact List.nodup_reverse.mpr hn
  rw [lookup_eq_some_iff_mem hr, List.mem_reverse]

/-- Two entries with one key are one entry. -/
theorem eq_of_mem_of_nodup_keys {l : List (κ × β)} (hn : (l.map (·.1)).Nodup) {k : κ} {b c : β}
    (hb : (k, b) ∈ l) (hc : (k, c) ∈ l) : b = c := by
  have h := (lookup_eq_some_iff_mem hn).mpr hb
  rw [(lookup_eq_some_iff_mem hn).mpr hc] at h
  exact (Option.some.inj h).symm

end GeneticRepair

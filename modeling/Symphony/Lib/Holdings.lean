import Mathlib.Algebra.BigOperators.Group.Finset.Piecewise
import Mathlib.Algebra.Order.BigOperators.Group.Finset

/-! Amounts held at places, within a limit however many places are added up. -/

namespace Symphony.Holdings

variable {Place : Type*}

def Within (held : Place → ℕ) (limit : ℕ) : Prop :=
  ∀ places : Finset Place, ∑ place ∈ places, held place ≤ limit

variable {held after : Place → ℕ} {limit extra : ℕ}

theorem within_zero (empty : ∀ place, held place = 0) : Within held 0 := by
  intro places
  rw [Finset.sum_eq_zero (fun place _ => empty place)]

theorem Within.mono (within : Within held limit) {more : ℕ} (below : limit ≤ more)
    (less : ∀ place, after place ≤ held place) : Within after more := by
  intro places
  calc ∑ place ∈ places, after place
      ≤ ∑ place ∈ places, held place := Finset.sum_le_sum (fun place _ => less place)
    _ ≤ more := (within places).trans below

theorem Within.move [DecidableEq Place] (within : Within held limit) (spent created : Finset Place)
    (kept : ∀ place, place ∉ created → after place ≤ if place ∈ spent then 0 else held place)
    (made : ∑ place ∈ created, after place ≤ ∑ place ∈ spent, held place + extra) :
    Within after (limit + extra) := by
  intro places
  have old : ∑ place ∈ places \ created, after place ≤
      ∑ place ∈ (places \ created) \ spent, held place := by
    calc ∑ place ∈ places \ created, after place
        ≤ ∑ place ∈ places \ created, if place ∈ spent then 0 else held place :=
          Finset.sum_le_sum (fun place member => kept place (Finset.mem_sdiff.mp member).2)
      _ = ∑ place ∈ (places \ created) \ spent, held place := by
          rw [Finset.sum_ite, Finset.sum_const_zero, Nat.zero_add, Finset.sdiff_eq_filter _ spent]
  have whole : ∑ place ∈ spent, held place + ∑ place ∈ (places \ created) \ spent, held place ≤
      limit := by
    rw [← Finset.sum_union Finset.disjoint_sdiff]
    exact within _
  calc ∑ place ∈ places, after place
      ≤ ∑ place ∈ created ∪ places \ created, after place := by
        apply Finset.sum_le_sum_of_subset
        intro place member
        rw [Finset.mem_union, Finset.mem_sdiff]
        by_cases inside : place ∈ created
        · exact Or.inl inside
        · exact Or.inr ⟨member, inside⟩
    _ = ∑ place ∈ created, after place + ∑ place ∈ places \ created, after place :=
        Finset.sum_union Finset.disjoint_sdiff
    _ ≤ limit + extra := by omega

end Symphony.Holdings

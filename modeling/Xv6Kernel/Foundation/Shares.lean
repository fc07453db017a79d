import Mathlib.Algebra.BigOperators.Fin
import Mathlib.Algebra.Order.BigOperators.Group.Finset

/-!
# Shares of a count

A count that is held in shares: every holder of type `ι` has a share, no share is negative, and the
shares add up to the count.
-/

namespace Xv6

open Function

variable {ι : Type} [Fintype ι]

structure Shares (n : ℤ) (c : ι → ℤ) : Prop where
  sum : ∑ q, c q = n
  nonneg : ∀ q, 0 ≤ c q

variable {n n' : ℤ} {c c' : ι → ℤ} {p q : ι}

lemma Shares.le (h : Shares n c) (p : ι) : c p ≤ n := by
  rw [← h.sum]
  exact Finset.single_le_sum (fun q _ => h.nonneg q) (Finset.mem_univ p)

lemma Shares.eq_zero (h : Shares n c) (hc : ∀ q, c q = 0) : n = 0 := by
  rw [← h.sum]
  exact Finset.sum_eq_zero fun q _ => hc q

lemma Shares.exists_pos (h : Shares n c) (hn : 0 < n) : ∃ q, 0 < c q := by
  by_contra hno
  have hzero : n = 0 := h.eq_zero fun q =>
    le_antisymm (not_lt.mp fun hq => hno ⟨q, hq⟩) (h.nonneg q)
  omega

lemma Shares.zero : Shares 0 fun _ : ι => 0 := ⟨by simp, fun _ => le_rfl⟩

variable [DecidableEq ι]

lemma Shares.add_le (h : Shares n c) (hpq : p ≠ q) : c p + c q ≤ n := by
  have hle := Finset.sum_le_sum_of_subset_of_nonneg (Finset.subset_univ {p, q})
    fun r _ _ => h.nonneg r
  rwa [Finset.sum_pair hpq, h.sum] at hle

lemma Shares.change (h : Shares n c) (p : ι) (hne : ∀ q, q ≠ p → c' q = c q)
    (hp : c' p = c p + (n' - n)) (h0 : 0 ≤ c' p) : Shares n' c' := by
  refine ⟨?_, fun q => ?_⟩
  · have hrest : ∑ q ∈ Finset.univ.erase p, c' q = ∑ q ∈ Finset.univ.erase p, c q :=
      Finset.sum_congr rfl fun q hq => hne q (Finset.ne_of_mem_erase hq)
    have hsum := h.sum
    rw [← Finset.add_sum_erase _ _ (Finset.mem_univ p)] at hsum ⊢
    rw [hrest]
    omega
  · by_cases hq : q = p
    · exact hq ▸ h0
    · exact hne q hq ▸ h.nonneg q

lemma Shares.move (h : Shares n c) (hpq : p ≠ q) (hne : ∀ r, r ≠ p → r ≠ q → c' r = c r)
    (hp : c' p = c p - 1) (hq : c' q = c q + 1) (h0 : 0 ≤ c' p) : Shares n c' := by
  have hmid : Shares (n - 1) (update c p (c p - 1)) :=
    h.change p (fun r hr => update_of_ne hr _ _) (by simp; omega)
      (by rw [update_self]; omega)
  have hnon := h.nonneg q
  refine hmid.change q (fun r hr => ?_) ?_ (by omega)
  · by_cases hrp : r = p
    · rw [hrp, hp, update_self]
    · rw [hne r hrp hr, update_of_ne hrp]
  · rw [hq, update_of_ne hpq.symm]
    omega

end Xv6

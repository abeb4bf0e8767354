import ComputeTopology.Backoff
import Mathlib.Algebra.Order.Group.Nat
import Mathlib.Tactic.Common

/-!
# The wait doubles up to its limit

The wait after a failed attempt is the initial one, doubled with every attempt and cut at the limit
(`Backoff.doubled`, `Backoff.doubled_succ`). As numbers of milliseconds are bounded, it is computed
from a product that stops growing with the sixty-fourth attempt and is then already beyond every
limit, with one exception: from a wait of one millisecond the sixty-fourth attempt comes to 2 ^ 63
milliseconds, and a limit above that is never reached (`Backoff.Stalls`).
-/

namespace ComputeTopology.Backoff

variable (b : Backoff) {k k' : UInt32}

/-- The wait after failed attempt number `k`, counted from one, if numbers had no bound. -/
def doubled (k : Nat) : Nat :=
  min (b.initialDelay.toNat * 2 ^ (k - 1)) b.maxDelay.toNat

/-- The wait no longer doubles with attempt number `k`, though the limit allows more. -/
def Stalls (k : Nat) : Prop :=
  b.initialDelay = 1 ∧ 64 < k ∧ 2 ^ 63 < b.maxDelay.toNat

theorem doubled_succ {k : Nat} (hk : 1 ≤ k) :
    b.doubled (k + 1) = min (2 * b.doubled k) b.maxDelay.toNat := by
  have hpow : 2 ^ (k + 1 - 1) = 2 ^ (k - 1) * 2 := by rw [← pow_succ]; congr 1; omega
  unfold doubled
  rw [hpow, ← mul_assoc]
  omega

theorem toNat_min (x y : UInt64) : (min x y).toNat = min x.toNat y.toNat := by
  change (if x ≤ y then x else y).toNat = _
  split_ifs with h <;> rw [UInt64.le_iff_toNat_le] at h <;> omega

/-- The wait as a number: cutting the product at the largest one does nothing that the limit does
not do as well. -/
theorem delay_toNat : (b.delay k).toNat
    = min (b.initialDelay.toNat * 2 ^ min (k.toNat - 1) 63) b.maxDelay.toNat := by
  have hmax := b.maxDelay.toNat_lt_size
  simp only [delay, toNat_min, Nat.shiftLeft_eq]
  split_ifs with h
  · rw [UInt64.toNat_ofNat_of_lt' h]
  · rw [UInt64.toNat_ofNat_of_lt' (by decide)]
    omega

theorem delay_le_maxDelay : b.delay k ≤ b.maxDelay := by
  rw [UInt64.le_iff_toNat_le, delay_toNat]
  exact Nat.min_le_right _ _

theorem delay_mono (h : k ≤ k') : b.delay k ≤ b.delay k' := by
  rw [UInt64.le_iff_toNat_le, delay_toNat, delay_toNat]
  have hshift : min (k.toNat - 1) 63 ≤ min (k'.toNat - 1) 63 := by
    have := UInt32.le_iff_toNat_le.1 h
    omega
  exact min_le_min_right _ (Nat.mul_le_mul_left _ (Nat.pow_le_pow_right (by decide) hshift))

/-- From two milliseconds on, the sixty-fourth attempt is past every limit. -/
theorem delay_of_two_le (h : 2 ≤ b.initialDelay.toNat) : (b.delay k).toNat = b.doubled k.toNat := by
  rw [delay_toNat, doubled]
  by_cases hk : k.toNat - 1 ≤ 63
  · rw [min_eq_left hk]
  · have hmax : b.maxDelay.toNat < 2 ^ 64 := b.maxDelay.toNat_lt_size
    have hbeyond : ∀ n, 63 ≤ n → b.maxDelay.toNat ≤ b.initialDelay.toNat * 2 ^ n := fun n hn => by
      have := Nat.mul_le_mul h (Nat.pow_le_pow_right (n := 2) (by decide) hn)
      omega
    rw [min_eq_right (hbeyond _ (by omega)), min_eq_right (hbeyond _ (by omega))]

theorem delay_of_stalls (h : b.Stalls k.toNat) : (b.delay k).toNat = 2 ^ 63 := by
  obtain ⟨hone, hk, hmax⟩ := h
  have hshift : min (k.toNat - 1) 63 = 63 := by omega
  rw [delay_toNat, hone, hshift]
  exact min_eq_left hmax.le

/-- Where the wait stalls it stays below what doubling would come to. -/
theorem doubled_of_stalls {k : Nat} (h : b.Stalls k) : 2 ^ 63 < b.doubled k := by
  obtain ⟨hone, hk, hmax⟩ := h
  have hpow : 2 ^ 64 ≤ 2 ^ (k - 1) := Nat.pow_le_pow_right (by decide) (by omega)
  rw [doubled, hone]
  refine lt_min ?_ hmax
  change 2 ^ 63 < 1 * 2 ^ (k - 1)
  omega

theorem delay_of_not_stalls (h : ¬ b.Stalls k.toNat) : (b.delay k).toNat = b.doubled k.toNat := by
  by_cases hone : b.initialDelay = 1
  · rw [delay_toNat, doubled, hone]
    by_cases hk : k.toNat - 1 ≤ 63
    · rw [min_eq_left hk]
    · -- past the sixty-fourth attempt the limit is one that 2 ^ 63 already reaches
      have hmax : b.maxDelay.toNat ≤ 2 ^ 63 := by
        by_contra hlt
        exact h ⟨hone, by omega, by omega⟩
      have hpow : 2 ^ 63 ≤ 2 ^ (k.toNat - 1) := Nat.pow_le_pow_right (by decide) (by omega)
      change min (1 * 2 ^ _) _ = min (1 * 2 ^ _) _
      rw [min_eq_right (a := k.toNat - 1) (by omega)]
      omega
  · by_cases hzero : b.initialDelay = 0
    · rw [delay_toNat, doubled, hzero]
      simp
    · refine b.delay_of_two_le ?_
      have h1 : b.initialDelay.toNat ≠ 1 := fun h => hone (UInt64.toNat_inj.1 h)
      have h0 : b.initialDelay.toNat ≠ 0 := fun h => hzero (UInt64.toNat_inj.1 h)
      omega

/-- The wait is the doubled one exactly where it does not stall, and 2 ^ 63 milliseconds where it
does. It never exceeds the limit and never decreases. -/
theorem delay_doubles :
    (∀ k, (b.delay k).toNat = b.doubled k.toNat ↔ ¬ b.Stalls k.toNat)
      ∧ (∀ k, b.Stalls k.toNat → (b.delay k).toNat = 2 ^ 63)
      ∧ (∀ k, b.delay k ≤ b.maxDelay)
      ∧ ∀ k k', k ≤ k' → b.delay k ≤ b.delay k' := by
  refine ⟨fun k => ⟨fun h hstalls => ?_, b.delay_of_not_stalls⟩, fun k => b.delay_of_stalls,
    fun k => b.delay_le_maxDelay, fun k k' => b.delay_mono⟩
  have hlt := b.doubled_of_stalls hstalls
  rw [← h, b.delay_of_stalls hstalls] at hlt
  exact lt_irrefl _ hlt

/-- One millisecond, doubled without a limit of its own. -/
def unlimited : Backoff where
  maxAttempts := 100
  initialDelay := 1
  maxDelay := .ofNat (UInt64.size - 1)

theorem unlimited_not_doubles :
    ¬ ∀ (b : Backoff) (k : UInt32), 1 ≤ k → (b.delay k).toNat = b.doubled k.toNat := fun h =>
  absurd (h unlimited 65 (by decide)) (by decide +kernel)

end ComputeTopology.Backoff

import ComputeTopology.Proofs.Masks
import Mathlib.Data.List.Induction

/-!
# Numerals

A natural number is read from its decimal digits, behind any number of zeros and at most one plus
sign, and from nothing else (`Text.readNat?_eq_some_iff`). The readers of words ask for no more than
that the number fits (`Text.readUInt32?_eq_some_iff`, `Text.readUInt64?_eq_some_iff`).
-/

namespace ComputeTopology.Text

/-- The number in decimal, behind zeros and maybe a plus sign. -/
def Numeral (cs : List Char) (n : Nat) : Prop :=
  ∃ sign zeros, (sign = [] ∨ sign = ['+'])
    ∧ cs = sign ++ (List.replicate zeros '0' ++ (decimal n).toList)

section Digits

variable {c : Char} {cs ds : List Char} {n : Nat}

theorem isDigit_of_digitValue? (h : (digitValue? 10 c).isSome) : c.isDigit = true := by
  rw [digitValue?_eq] at h
  have hc : 48 ≤ c.toNat ∧ c.toNat ≤ 57 := by
    by_contra hc
    simp only [if_neg hc, Option.isSome_ite] at h
    split_ifs at h <;> omega
  simpa [Char.isDigit, UInt32.le_iff_toNat_le] using hc

theorem digitChar_sub_of_isDigit (h : c.isDigit = true) :
    c.toNat - '0'.toNat < 10 ∧ (c.toNat - '0'.toNat).digitChar = c := by
  have hc : 48 ≤ c.toNat ∧ c.toNat ≤ 57 := by
    simpa [Char.isDigit, UInt32.le_iff_toNat_le] using h
  have hzero : '0'.toNat = 48 := rfl
  have hchar : ∀ v < 10, v.digitChar.toNat = 48 + v := by decide
  refine ⟨by omega, Char.toNat_inj.1 ?_⟩
  rw [hchar _ (by omega)]
  omega

/-- Digits are those of their value with zeros in front. -/
theorem exists_zeros : ∀ {ds : List Char}, ds ≠ [] → (∀ c ∈ ds, c.isDigit = true) →
    ∃ zeros, ds = List.replicate zeros '0' ++ Nat.toDigits 10 (Nat.ofDigitChars 10 ds 0) := by
  intro ds
  induction ds using List.reverseRecOn with
  | nil => exact fun hne => absurd rfl hne
  | append_singleton es d ih =>
    intro _ hdigits
    obtain ⟨hlt, hd⟩ := digitChar_sub_of_isDigit (hdigits d (by simp))
    rw [Nat.ofDigitChars_append, Nat.ofDigitChars_cons, Nat.ofDigitChars_nil]
    by_cases hes : es = []
    · refine ⟨0, ?_⟩
      rw [hes, Nat.ofDigitChars_nil, Nat.mul_zero, Nat.zero_add, Nat.toDigits_of_lt_base hlt, hd]
      rfl
    · obtain ⟨zeros, hzeros⟩ := ih hes fun c hc => hdigits c (List.mem_append_left _ hc)
      rcases Nat.eq_zero_or_pos (Nat.ofDigitChars 10 es 0) with hzero | hpos
      · -- the digits so far are zeros themselves
        rw [hzero, Nat.toDigits_zero, ← List.replicate_succ'] at hzeros
        refine ⟨zeros + 1, ?_⟩
        rw [hzero, Nat.mul_zero, Nat.zero_add, Nat.toDigits_of_lt_base hlt, hd, ← hzeros]
      · refine ⟨zeros, ?_⟩
        rw [← Nat.toDigits_append_toDigits (by decide) hpos hlt, Nat.toDigits_of_lt_base hlt, hd,
          ← List.append_assoc, ← hzeros]

theorem isDigit_of_mem_numeral {zeros : Nat}
    (h : c ∈ List.replicate zeros '0' ++ (decimal n).toList) : c.isDigit = true := by
  rcases List.mem_append.1 h with h | h
  · rw [List.eq_of_mem_replicate h]
    rfl
  · exact isDigit_of_mem_decimal h

theorem readNat?_eq_some_iff : readNat? 10 cs = some n ↔ Numeral cs n := by
  rw [readNat?]
  constructor
  · intro h
    split_ifs at h with hne
    have hdigits : ∀ c ∈ dropPlus cs, c.isDigit = true := fun c hc =>
      isDigit_of_digitValue? (digitValue?_of_digitsValue? h c hc)
    obtain ⟨zeros, hzeros⟩ := exists_zeros hne hdigits
    rw [digitsValue?_of_isDigit hdigits, Option.some.injEq] at h
    rw [h, ← String.toList_ofList (l := Nat.toDigits 10 n), ← decimal] at hzeros
    unfold dropPlus at hzeros
    split at hzeros
    · exact ⟨['+'], zeros, .inr rfl, congrArg _ hzeros⟩
    · exact ⟨[], zeros, .inl rfl, hzeros⟩
  · rintro ⟨sign, zeros, hsign, rfl⟩
    have hdigits : ∀ c ∈ List.replicate zeros '0' ++ (decimal n).toList, c.isDigit = true :=
      fun c => isDigit_of_mem_numeral
    have hdrop : dropPlus (sign ++ (List.replicate zeros '0' ++ (decimal n).toList))
        = List.replicate zeros '0' ++ (decimal n).toList := by
      rcases hsign with rfl | rfl
      · exact dropPlus_of_isDigit hdigits
      · rfl
    have hne : List.replicate zeros '0' ++ (decimal n).toList ≠ [] := fun h => by
      have h := (List.append_eq_nil_iff.1 h).2
      rw [decimal, String.toList_ofList] at h
      exact Nat.toDigits_ne_nil h
    rw [hdrop, if_neg hne, digitsValue?_of_isDigit hdigits, Nat.ofDigitChars_append,
      Nat.ofDigitChars_replicate_zero, Nat.mul_zero, decimal, String.toList_ofList,
      Nat.ofDigitChars_ten_toDigits]

theorem readUInt32?_eq_some_iff {w : UInt32} : readUInt32? cs = some w ↔ Numeral cs w.toNat := by
  rw [← readNat?_eq_some_iff, readUInt32?, Option.bind_eq_some_iff]
  constructor
  · rintro ⟨n, hn, h⟩
    split_ifs at h with hlt
    rw [hn, ← Option.some.inj h, UInt32.toNat_ofNat_of_lt' hlt]
  · intro h
    exact ⟨w.toNat, h, by rw [if_pos w.toNat_lt_size, UInt32.ofNat_toNat]⟩

theorem readUInt64?_eq_some_iff {w : UInt64} : readUInt64? cs = some w ↔ Numeral cs w.toNat := by
  rw [← readNat?_eq_some_iff, readUInt64?, Option.bind_eq_some_iff]
  constructor
  · rintro ⟨n, hn, h⟩
    split_ifs at h with hlt
    rw [hn, ← Option.some.inj h, UInt64.toNat_ofNat_of_lt' hlt]
  · intro h
    exact ⟨w.toNat, h, by rw [if_pos w.toNat_lt_size, UInt64.ofNat_toNat]⟩

theorem Numeral.readUInt32? (h : Numeral cs n) (hn : n < UInt32.size) :
    Text.readUInt32? cs = some (.ofNat n) :=
  readUInt32?_eq_some_iff.2 (by rwa [UInt32.toNat_ofNat_of_lt' hn])

/-- A numeral ends in a digit. -/
theorem Numeral.getLast? (h : Numeral cs n) : ∃ c, cs.getLast? = some c ∧ c.isDigit = true := by
  obtain ⟨sign, zeros, -, rfl⟩ := h
  have hne : (decimal n).toList ≠ [] := by
    rw [decimal, String.toList_ofList]
    exact Nat.toDigits_ne_nil
  refine ⟨(decimal n).toList.getLast hne, ?_, isDigit_of_mem_decimal (List.getLast_mem hne)⟩
  rw [List.getLast?_append_of_ne_nil _ (List.append_ne_nil_of_right_ne_nil _ hne),
    List.getLast?_append_of_ne_nil _ hne, List.getLast?_eq_some_getLast hne]

end Digits

end ComputeTopology.Text

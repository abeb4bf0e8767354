import ComputeTopology.Proofs.Cuts
import ComputeTopology.Proofs.Numbered
import ComputeTopology.Toml.Scalar

/-!
# Decimals are integers

Digits alone are no date, no time and no float, so what a word of digits stands for is an integer
if it has no leading zero (`Toml.ofWord?_of_isDigit`, `Toml.integer?_of_isDigit`). A decimal has
none (`Toml.isDecimal_decimal`): it reads as its number if that has 64 bits with a sign
(`Toml.scalar_decimal`).
-/

namespace ComputeTopology.Toml

section Digits

variable {ds : List Char} (hdigits : ∀ c ∈ ds, c.isDigit = true)

include hdigits

theorem not_mem_of_isDigit {c : Char} (hc : c.isDigit = false) : c ∉ ds := fun hmem => by
  rw [hdigits c hmem] at hc
  cases hc

theorem cutSign_of_isDigit : cutSign ds = (false, ds) := by
  have hminus := not_mem_of_isDigit hdigits (c := '-') (by decide)
  have hplus := not_mem_of_isDigit hdigits (c := '+') (by decide)
  unfold cutSign
  split <;> simp_all

theorem date?_of_isDigit : date? ds = none := by
  have hminus := not_mem_of_isDigit hdigits (c := '-') (by decide)
  unfold date?
  split <;> simp_all

theorem time?_of_isDigit : time? ds = none := by
  have hcolon := not_mem_of_isDigit hdigits (c := ':') (by decide)
  unfold time?
  split <;> simp_all

theorem dateTime?_of_isDigit : dateTime? ds = none := by
  rw [dateTime?, date?_of_isDigit hdigits, time?_of_isDigit hdigits]
  rfl

theorem floatParts?_of_isDigit : floatParts? ds = none := by
  have hmark : ∀ c ∈ ds, (! isExponentMark c) = true := fun c hc => by
    have he : c ≠ 'e' := fun h => not_mem_of_isDigit hdigits (c := 'e') (by decide) (h ▸ hc)
    have hE : c ≠ 'E' := fun h => not_mem_of_isDigit hdigits (c := 'E') (by decide) (h ▸ hc)
    simp [isExponentMark, he, hE]
  have hcut : Text.cutAt? '.' ds = none :=
    Text.cutAt?_eq_none_iff.2 (not_mem_of_isDigit hdigits (by decide))
  rw [floatParts?, List.takeWhile_eq_self_iff.2 hmark, List.dropWhile_eq_nil_iff.2 hmark, hcut]
  rfl

theorem float?_of_isDigit : float? ds = none := by
  have hinf : ds ≠ ['i', 'n', 'f'] := fun h =>
    not_mem_of_isDigit hdigits (c := 'i') (by decide) (by simp [h])
  have hnan : ds ≠ ['n', 'a', 'n'] := fun h =>
    not_mem_of_isDigit hdigits (c := 'n') (by decide) (by simp [h])
  simp [float?, cutSign_of_isDigit hdigits, hinf, hnan, floatParts?_of_isDigit hdigits]

theorem isDigitGroups_of_isDigit (hne : ds ≠ []) : isDigitGroups 10 ds = true := by
  have hfields : Text.fields (· = '_') ds = [ds] := by
    rw [Text.fields_eq_splitOnP]
    exact List.splitOnP_eq_singleton fun c hc => decide_eq_false fun h =>
      not_mem_of_isDigit hdigits (c := '_') (by decide) (h ▸ hc)
  rw [isDigitGroups, hfields]
  simp only [List.all_cons, List.all_nil, Bool.and_true, Bool.and_eq_true, decide_eq_true_eq,
    List.all_eq_true]
  exact ⟨hne, fun c hc => by rw [Text.digitValue?_of_isDigit (hdigits c hc)]; rfl⟩

theorem groupsValue_of_isDigit : groupsValue 10 ds = Nat.ofDigitChars 10 ds 0 := by
  have hfilter : ds.filter (· ≠ '_') = ds := List.filter_eq_self.2 fun c hc =>
    decide_eq_true fun h => not_mem_of_isDigit hdigits (c := '_') (by decide) (h ▸ hc)
  rw [groupsValue, hfilter, Text.digitsValue?_of_isDigit hdigits]
  rfl

theorem integer?_of_isDigit (h : isDecimal ds = true) :
    integer? ds = asWord? (Nat.ofDigitChars 10 ds 0) := by
  have hx := not_mem_of_isDigit hdigits (c := 'x') (by decide)
  have ho := not_mem_of_isDigit hdigits (c := 'o') (by decide)
  have hb := not_mem_of_isDigit hdigits (c := 'b') (by decide)
  unfold integer?
  split
  · simp_all
  · simp_all
  · simp_all
  · simp [cutSign_of_isDigit hdigits, h, groupsValue_of_isDigit hdigits]

theorem ofWord?_of_isDigit : ofWord? ds = integer? ds := by
  have htrue : ds ≠ "true".toList := fun h =>
    not_mem_of_isDigit hdigits (c := 't') (by decide) (by simp [h])
  have hfalse : ds ≠ "false".toList := fun h =>
    not_mem_of_isDigit hdigits (c := 'f') (by decide) (by simp [h])
  rw [ofWord?, if_neg htrue, if_neg hfalse, dateTime?_of_isDigit hdigits, float?_of_isDigit hdigits]
  rfl

end Digits

section Decimal

variable {n : Nat}

theorem head?_toDigits (hn : 0 < n) : (Nat.toDigits 10 n).head? ≠ some '0' := by
  induction n using Nat.strong_induction_on with
  | _ n ih =>
    rcases Nat.lt_or_ge n 10 with hlt | hge
    · have hone : ∀ m < 10, 0 < m → [m.digitChar].head? ≠ some '0' := by decide
      rw [Nat.toDigits_of_lt_base hlt]
      exact hone n hlt hn
    · have hpos : 0 < n / 10 := by omega
      have hhigh := Nat.toDigits_append_toDigits (b := 10) (by decide) hpos
        (Nat.mod_lt n (by decide))
      rw [Nat.div_add_mod] at hhigh
      rw [← hhigh, List.head?_append_of_ne_nil _ Nat.toDigits_ne_nil]
      exact ih _ (by omega) hpos

theorem isDecimal_decimal (n : Nat) : isDecimal (Text.decimal n).toList = true := by
  have hgroups : isDigitGroups 10 (Text.decimal n).toList = true :=
    isDigitGroups_of_isDigit (fun _ => Text.isDigit_of_mem_decimal)
      (by rw [Text.decimal, String.toList_ofList]; exact Nat.toDigits_ne_nil)
  rw [isDecimal, hgroups, Text.decimal, String.toList_ofList]
  rcases Nat.eq_zero_or_pos n with rfl | hn
  · rfl
  · simp [head?_toDigits hn]

theorem scalar_decimal (h : (n : Int) ≤ Int64.maxValue.toInt) (rest : List Char) :
    scalar ((Text.decimal n).toList ++ '\n' :: rest) = some (.integer n, '\n' :: rest) := by
  have hdigits : ∀ c ∈ (Text.decimal n).toList, c.isDigit = true := fun _ =>
    Text.isDigit_of_mem_decimal
  have hword : ∀ c ∈ (Text.decimal n).toList, isWordChar c = true := fun c hc => by
    simp [isWordChar, Char.isAlphanum, hdigits c hc]
  have hinteger : integer? (Text.decimal n).toList = some (.integer n) := by
    have hmin : Int64.minValue.toInt ≤ (n : Int) :=
      Int.le_trans (by decide : Int64.minValue.toInt ≤ 0) (Int.natCast_nonneg n)
    rw [integer?_of_isDigit hdigits (isDecimal_decimal n), Text.decimal, String.toList_ofList,
      Nat.ofDigitChars_ten_toDigits, asWord?, if_pos ⟨hmin, h⟩]
  rw [scalar, List.takeWhile_append_of_pos hword, List.dropWhile_append_of_pos hword,
    List.takeWhile_cons_of_neg (by decide), List.dropWhile_cons_of_neg (by decide), List.append_nil,
    date?_of_isDigit hdigits, ofWord?_of_isDigit hdigits, hinteger]
  rfl

end Decimal

end ComputeTopology.Toml

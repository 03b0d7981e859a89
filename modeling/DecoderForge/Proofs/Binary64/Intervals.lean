import DecoderForge.Binary64.Shortest
import Mathlib.Algebra.Order.Field.Power
import Mathlib.Algebra.Order.Field.Rat
import Mathlib.Tactic.Linarith
import Mathlib.Tactic.Positivity
import Mathlib.Tactic.Ring
import Mathlib.Tactic.NormNum
import Mathlib.Tactic.GCongr

/-!
# DecoderForge — decimals that read back to one number only

The reals that round to a number form an interval, and the intervals of two numbers have no point in
common: where they touch, the end belongs to the number with the even mantissa alone.  So the decimal that
`Binary64.shortest` finds identifies its number.

## The architecture

* **`Decimal.value`** — the rational that a decimal stands for.
* **`Binary64.readsBack_iff`** — the interval of a number in rationals.
* **`Binary64.readsBack_unique`** — a decimal reads back to one number only.
* **`Binary64.readsBack_shortest`** — the shortest decimal reads back.
-/

namespace DecoderForge

/-- The rational that a decimal stands for. -/
def Decimal.value (d : Decimal) : ℚ := d.digits * (10 : ℚ) ^ d.exponent

namespace Binary64

/-! ## The canonical form -/

/-- The form that every number has: a full mantissa, or the least exponent. -/
def IsCanonical (x : Binary64) : Prop :=
  (x.exponent = -1074 ∧ x.mantissa < 2 ^ 53)
    ∨ (-1074 < x.exponent ∧ 2 ^ 52 ≤ x.mantissa ∧ x.mantissa < 2 ^ 53)

instance (x : Binary64) : Decidable x.IsCanonical := inferInstanceAs (Decidable (_ ∨ _))

/-! ## Comparison in rationals -/

/-- A power with an integer exponent, by the two natural parts of the exponent. -/
theorem zpow_mul_pow_neg {b : ℚ} (hb : b ≠ 0) (i : ℤ) : b ^ i * b ^ (-i).toNat = b ^ i.toNat := by
  rcases le_total 0 i with h | h
  · have hneg : (-i).toNat = 0 := by omega
    rw [hneg, pow_zero, mul_one]
    conv_lhs => rw [← Int.toNat_of_nonneg h]
    exact zpow_natCast b i.toNat
  · have hpos : i.toNat = 0 := by omega
    rw [hpos, pow_zero, ← zpow_natCast b (-i).toNat, Int.toNat_of_nonneg (by omega), ← zpow_add₀ hb]
    simp

/-- `compareScaled` compares rationals. -/
theorem compareScaled_eq (a : ℕ) (i : ℤ) (n : ℕ) (j : ℤ) :
    compareScaled a i n j = Ord.compare ((a : ℚ) * 10 ^ i) ((n : ℚ) * 2 ^ j) := by
  have hten := zpow_mul_pow_neg (b := 10) (by norm_num) i
  have htwo := zpow_mul_pow_neg (b := 2) (by norm_num) j
  have hscale : (0 : ℚ) < 10 ^ (-i).toNat * 2 ^ (-j).toNat := by positivity
  have hleft : ((a * 10 ^ i.toNat * 2 ^ (-j).toNat : ℕ) : ℚ)
      = (a : ℚ) * 10 ^ i * (10 ^ (-i).toNat * 2 ^ (-j).toNat) := by
    push_cast
    rw [← hten]
    ring
  have hright : ((n * 2 ^ j.toNat * 10 ^ (-i).toNat : ℕ) : ℚ)
      = (n : ℚ) * 2 ^ j * (10 ^ (-i).toNat * 2 ^ (-j).toNat) := by
    push_cast
    rw [← htwo]
    ring
  unfold compareScaled
  rcases lt_trichotomy ((a : ℚ) * 10 ^ i) ((n : ℚ) * 2 ^ j) with h | h | h
  · have hnat : a * 10 ^ i.toNat * 2 ^ (-j).toNat < n * 2 ^ j.toNat * 10 ^ (-i).toNat := by
      rw [← Nat.cast_lt (α := ℚ), hleft, hright]
      exact mul_lt_mul_of_pos_right h hscale
    rw [compare_lt_iff_lt.mpr h, compare_lt_iff_lt.mpr hnat]
  · have hnat : a * 10 ^ i.toNat * 2 ^ (-j).toNat = n * 2 ^ j.toNat * 10 ^ (-i).toNat := by
      rw [← Nat.cast_inj (R := ℚ), hleft, hright, h]
    rw [compare_eq_iff_eq.mpr h, compare_eq_iff_eq.mpr hnat]
  · have hnat : n * 2 ^ j.toNat * 10 ^ (-i).toNat < a * 10 ^ i.toNat * 2 ^ (-j).toNat := by
      rw [← Nat.cast_lt (α := ℚ), hleft, hright]
      exact mul_lt_mul_of_pos_right h hscale
    rw [compare_gt_iff_gt.mpr h, compare_gt_iff_gt.mpr hnat]

/-! ## Intervals -/

/-- The lower end of the interval, in quarters of the last place. -/
def lowQuarters (x : Binary64) : ℕ :=
  if x.mantissa == 2 ^ 52 && x.exponent > -1074 then 4 * x.mantissa - 1 else 4 * x.mantissa - 2

/-- The upper end of the interval, in quarters of the last place. -/
def highQuarters (x : Binary64) : ℕ := 4 * x.mantissa + 2

/-- A quarter of the last place. -/
def quarter (x : Binary64) : ℚ := 2 ^ (x.exponent - 2)

theorem quarter_pos (x : Binary64) : 0 < x.quarter := by
  unfold quarter
  positivity

/-- **The interval of a number**: its ends belong to it when the mantissa is even. -/
theorem readsBack_iff (x : Binary64) (d : Decimal) :
    x.readsBack d = true
      ↔ (x.lowQuarters * x.quarter < d.value ∨ (x.mantissa % 2 = 0 ∧ d.value = x.lowQuarters * x.quarter))
        ∧ (d.value < x.highQuarters * x.quarter
          ∨ (x.mantissa % 2 = 0 ∧ d.value = x.highQuarters * x.quarter)) := by
  have hunfold : x.readsBack d
      = ((compareScaled d.digits d.exponent x.lowQuarters (x.exponent - 2) == .gt
          || (x.mantissa % 2 == 0
            && compareScaled d.digits d.exponent x.lowQuarters (x.exponent - 2) == .eq))
        && (compareScaled d.digits d.exponent x.highQuarters (x.exponent - 2) == .lt
          || (x.mantissa % 2 == 0
            && compareScaled d.digits d.exponent x.highQuarters (x.exponent - 2) == .eq))) := rfl
  rw [hunfold]
  simp only [compareScaled_eq, Bool.and_eq_true, Bool.or_eq_true, beq_iff_eq, compare_gt_iff_gt,
    compare_lt_iff_lt, compare_eq_iff_eq]
  rfl

/-- A decimal of the same value reads back as well. -/
theorem readsBack_of_value_eq {x : Binary64} {d d' : Decimal} (hvalue : d.value = d'.value)
    (h : x.readsBack d = true) : x.readsBack d' = true := by
  rw [readsBack_iff] at h ⊢
  rwa [← hvalue]

/-- Two numbers of the same exponent. -/
theorem high_le_low_of_mantissa_lt {x y : Binary64} (hexp : x.exponent = y.exponent)
    (h : x.mantissa < y.mantissa) :
    x.highQuarters * x.quarter ≤ y.lowQuarters * y.quarter
      ∧ (x.highQuarters * x.quarter = y.lowQuarters * y.quarter →
        ¬ (x.mantissa % 2 = 0 ∧ y.mantissa % 2 = 0)) := by
  have hquarter : x.quarter = y.quarter := by
    unfold quarter
    rw [hexp]
  have hlow : 4 * y.mantissa - 2 ≤ y.lowQuarters := by
    unfold lowQuarters
    split <;> omega
  have hhigh : x.highQuarters ≤ 4 * y.mantissa - 2 := by
    unfold highQuarters
    omega
  have hle : (x.highQuarters : ℚ) ≤ y.lowQuarters := by exact_mod_cast Nat.le_trans hhigh hlow
  rw [hquarter]
  refine ⟨mul_le_mul_of_nonneg_right hle y.quarter_pos.le, fun heq => ?_⟩
  have hends : x.highQuarters = y.lowQuarters := by
    exact_mod_cast mul_right_cancel₀ y.quarter_pos.ne' heq
  unfold highQuarters lowQuarters at hends
  split at hends <;> omega

/-- Two numbers of different exponents. -/
theorem high_le_low_of_exponent_lt {x y : Binary64} (hx : x.IsCanonical) (hy : y.IsCanonical)
    (h : x.exponent < y.exponent) :
    x.highQuarters * x.quarter ≤ y.lowQuarters * y.quarter
      ∧ (x.highQuarters * x.quarter = y.lowQuarters * y.quarter →
        ¬ (x.mantissa % 2 = 0 ∧ y.mantissa % 2 = 0)) := by
  have hxlt : x.mantissa < 2 ^ 53 := by
    rcases hx with hx | hx
    · exact hx.2
    · exact hx.2.2
  have hyfull : -1074 < y.exponent ∧ 2 ^ 52 ≤ y.mantissa := by
    rcases hy with hy | hy
    · rcases hx with hx | hx <;> omega
    · exact ⟨hy.1, hy.2.1⟩
  -- the quarter of the greater number is at least twice the other
  have hquarter : 2 * x.quarter ≤ y.quarter := by
    unfold quarter
    calc (2 : ℚ) * 2 ^ (x.exponent - 2) = 2 ^ (x.exponent - 2 + 1) := by
          rw [zpow_add_one₀ (by norm_num)]
          ring
      _ ≤ 2 ^ (y.exponent - 2) := zpow_le_zpow_right₀ (by norm_num) (by omega)
  have hhigh : x.highQuarters ≤ 2 ^ 55 - 2 := by
    unfold highQuarters
    omega
  have hlow : 2 ^ 54 - 1 ≤ y.lowQuarters := by
    unfold lowQuarters
    split <;> rename_i hnarrow
    · omega
    · have hne : y.mantissa ≠ 2 ^ 52 := by
        rintro heq
        exact hnarrow (by simp [heq, hyfull.1])
      omega
  have hends : (x.highQuarters : ℚ) ≤ 2 * y.lowQuarters := by
    exact_mod_cast (by omega : x.highQuarters ≤ 2 * y.lowQuarters)
  have hlowpos : (0 : ℚ) ≤ y.lowQuarters := Nat.cast_nonneg _
  have hchain : (2 * y.lowQuarters : ℚ) * x.quarter ≤ y.lowQuarters * y.quarter := by
    nlinarith [mul_le_mul_of_nonneg_left hquarter hlowpos]
  have hfirst := mul_le_mul_of_nonneg_right hends x.quarter_pos.le
  refine ⟨hfirst.trans hchain, fun heq => ?_⟩
  have hsame : (x.highQuarters : ℚ) * x.quarter = 2 * y.lowQuarters * x.quarter := by linarith
  have hnat : x.highQuarters = 2 * y.lowQuarters := by
    exact_mod_cast mul_right_cancel₀ x.quarter_pos.ne' hsame
  unfold highQuarters at hnat hhigh
  omega

/-- Intervals in order have no point in common. -/
theorem not_readsBack_of_high_le_low {x y : Binary64} {d : Decimal}
    (h : x.highQuarters * x.quarter ≤ y.lowQuarters * y.quarter
      ∧ (x.highQuarters * x.quarter = y.lowQuarters * y.quarter →
        ¬ (x.mantissa % 2 = 0 ∧ y.mantissa % 2 = 0)))
    (hx : x.readsBack d = true) (hy : y.readsBack d = true) : False := by
  rw [readsBack_iff] at hx hy
  obtain ⟨hle, htouch⟩ := h
  rcases hx.2 with hhigh | ⟨hxeven, hhigh⟩ <;> rcases hy.1 with hlow | ⟨hyeven, hlow⟩
  · linarith
  · linarith
  · linarith
  · exact htouch (by linarith) ⟨hxeven, hyeven⟩

/-- **A decimal reads back to one number only**, up to the sign. -/
theorem readsBack_unique {x y : Binary64} (hx : x.IsCanonical) (hy : y.IsCanonical) {d : Decimal}
    (hxd : x.readsBack d = true) (hyd : y.readsBack d = true) :
    x.mantissa = y.mantissa ∧ x.exponent = y.exponent := by
  rcases lt_trichotomy x.exponent y.exponent with hexp | hexp | hexp
  · exact (not_readsBack_of_high_le_low (high_le_low_of_exponent_lt hx hy hexp) hxd hyd).elim
  · rcases lt_trichotomy x.mantissa y.mantissa with hman | hman | hman
    · exact (not_readsBack_of_high_le_low (high_le_low_of_mantissa_lt hexp hman) hxd hyd).elim
    · exact ⟨hman, hexp⟩
    · exact (not_readsBack_of_high_le_low (high_le_low_of_mantissa_lt hexp.symm hman) hyd hxd).elim
  · exact (not_readsBack_of_high_le_low (high_le_low_of_exponent_lt hy hx hexp) hyd hxd).elim

/-! ## The shortest decimal -/

/-- A candidate of a grid reads back. -/
theorem readsBack_of_onGrid {x : Binary64} {scale : ℤ} {count : ℕ} {d : Decimal}
    (h : x.onGrid scale count = some d) : x.readsBack d = true := by
  unfold onGrid at h
  simp only at h
  split at h
  · rename_i hlower hupper
    split_ifs at h <;> obtain rfl := Option.some.inj h <;> assumption
  · obtain rfl := Option.some.inj h
    assumption
  · obtain rfl := Option.some.inj h
    assumption
  · exact absurd h (by simp)

/-- Zeros moved into the exponent leave the value alone. -/
theorem value_stripZeros : ∀ (fuel : ℕ) (d : Decimal), (stripZeros fuel d).value = d.value
  | 0, _ => rfl
  | fuel + 1, d => by
      unfold stripZeros
      split
      · rename_i h
        rw [value_stripZeros fuel]
        simp only [Bool.and_eq_true, beq_iff_eq] at h
        have hdigits : (d.digits : ℚ) = ((d.digits / 10 : ℕ) : ℚ) * 10 := by
          exact_mod_cast (Nat.div_mul_cancel (Nat.dvd_of_mod_eq_zero h.2)).symm
        unfold Decimal.value
        simp only
        rw [hdigits, zpow_add_one₀ (by norm_num)]
        ring
      · rfl

/-- The decimal of the exact value reads back. -/
theorem readsBack_exact {x : Binary64} (hx : x.mantissa ≠ 0) :
    x.readsBack ⟨x.num * 5 ^ (-x.exponent).toNat, -(-x.exponent).toNat⟩ = true := by
  have hvalue : Decimal.value ⟨x.num * 5 ^ (-x.exponent).toNat, -(-x.exponent).toNat⟩
      = ((4 * x.mantissa : ℕ) : ℚ) * x.quarter := by
    have htwo := zpow_mul_pow_neg (b := 2) (by norm_num) x.exponent
    have hfactor : (10 : ℚ) ^ (-((-x.exponent).toNat : ℤ)) * (5 ^ (-x.exponent).toNat
        * 2 ^ (-x.exponent).toNat) = 1 := by
      rw [← mul_pow, zpow_neg, zpow_natCast]
      norm_num
    have hquarter : x.quarter * 4 = 2 ^ x.exponent := by
      unfold quarter
      rw [zpow_sub₀ (by norm_num)]
      norm_num
    unfold Decimal.value num
    push_cast
    rw [← htwo, ← hquarter]
    calc _ = (x.mantissa : ℚ) * x.quarter * 4 * (10 ^ (-((-x.exponent).toNat : ℤ))
          * (5 ^ (-x.exponent).toNat * 2 ^ (-x.exponent).toNat)) := by ring
      _ = 4 * x.mantissa * x.quarter := by
          rw [hfactor]
          ring
  rw [readsBack_iff, hvalue]
  have hlow : x.lowQuarters < 4 * x.mantissa := by
    unfold lowQuarters
    split <;> omega
  have hhigh : 4 * x.mantissa < x.highQuarters := by
    unfold highQuarters
    omega
  exact ⟨Or.inl (mul_lt_mul_of_pos_right (by exact_mod_cast hlow) x.quarter_pos),
    Or.inl (mul_lt_mul_of_pos_right (by exact_mod_cast hhigh) x.quarter_pos)⟩

/-- **The shortest decimal reads back.** -/
theorem readsBack_shortest {x : Binary64} (hx : x.isZero = false) : x.readsBack x.shortest = true := by
  unfold shortest
  rw [hx]
  simp only [Bool.false_eq_true, if_false]
  split
  · rename_i d hd
    obtain ⟨i, -, hgrid⟩ := List.exists_of_findSome?_eq_some hd
    exact readsBack_of_value_eq (value_stripZeros 20 d).symm (readsBack_of_onGrid hgrid)
  · exact readsBack_exact (by simpa [isZero] using hx)

/-- A decimal that reads back to a number other than zero is not zero. -/
theorem value_pos_of_readsBack {x : Binary64} (hx : x.isZero = false) {d : Decimal}
    (h : x.readsBack d = true) : 0 < d.value := by
  have hmantissa : x.mantissa ≠ 0 := by simpa [isZero] using hx
  have hlow : 0 < x.lowQuarters := by
    unfold lowQuarters
    split <;> omega
  have hpos : (0 : ℚ) < x.lowQuarters * x.quarter :=
    mul_pos (by exact_mod_cast hlow) x.quarter_pos
  rw [readsBack_iff] at h
  rcases h.1 with hlt | ⟨-, heq⟩
  · linarith
  · linarith

end Binary64

end DecoderForge

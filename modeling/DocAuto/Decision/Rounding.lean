import DocAuto.DecisionEngine
import Mathlib.Algebra.Order.Floor.Ring
import Mathlib.Tactic.Linarith
import Mathlib.Tactic.NormNum
import Mathlib.Tactic.Ring

/-! Rounding to the nearest integer and to the nearest hundredth. -/
namespace DocAuto

section Integers
variable {x : ℚ} {n : ℤ}

theorem abs_roundHalfAway_sub_le (x : ℚ) : |(roundHalfAway x : ℚ) - x| ≤ 1 / 2 := by
  have hfloor : ∀ y : ℚ, |(⌊y + 1 / 2⌋ : ℚ) - y| ≤ 1 / 2 := by
    intro y
    have hle := Int.floor_le (y + 1 / 2)
    have hlt := Int.lt_floor_add_one (y + 1 / 2)
    exact abs_le.2 ⟨by linarith, by linarith⟩
  unfold roundHalfAway
  split
  · exact hfloor x
  · have h := hfloor (-x)
    rw [← abs_neg] at h
    rw [Int.cast_neg]
    convert h using 2
    ring

/-- An integer bound of the number bounds the rounded number. -/
theorem le_roundHalfAway (h : (n : ℚ) ≤ x) : n ≤ roundHalfAway x := by
  have hx := abs_le.1 (abs_roundHalfAway_sub_le x)
  have hlt : ((n - 1 : ℤ) : ℚ) < roundHalfAway x := by
    push_cast
    linarith
  exact Int.sub_one_lt_iff.1 (Int.cast_lt.1 hlt)

theorem roundHalfAway_le (h : x ≤ n) : roundHalfAway x ≤ n := by
  have hx := abs_le.1 (abs_roundHalfAway_sub_le x)
  have hlt : (roundHalfAway x : ℚ) < ((n + 1 : ℤ) : ℚ) := by
    push_cast
    linarith
  exact Int.lt_add_one_iff.1 (Int.cast_lt.1 hlt)

@[simp] theorem roundHalfAway_intCast (n : ℤ) : roundHalfAway n = n :=
  le_antisymm (roundHalfAway_le le_rfl) (le_roundHalfAway le_rfl)

theorem natAbs_roundHalfAway (x : ℚ) : (roundHalfAway x).natAbs = ⌊|x| + 1 / 2⌋₊ := by
  have hfloor : ∀ y : ℚ, 0 ≤ y → ⌊y + 1 / 2⌋.natAbs = ⌊y + 1 / 2⌋₊ := by
    intro y hy
    have hnonneg : 0 ≤ ⌊y + 1 / 2⌋ := Int.floor_nonneg.2 (by linarith)
    rw [← Int.floor_toNat]
    omega
  unfold roundHalfAway
  split
  · next h => rw [abs_of_nonneg h, hfloor x h]
  · next h =>
    have hneg : x ≤ 0 := (not_le.1 h).le
    rw [abs_of_nonpos hneg, Int.natAbs_neg, hfloor (-x) (neg_nonneg.2 hneg)]

end Integers

/-- A whole number of hundredths. -/
def IsCents (x : ℚ) : Prop := ∃ n : ℤ, x = n / 100

section Cents
variable {x c : ℚ}

theorem isCents_iff : IsCents x ↔ (x * 100).den = 1 := by
  rw [Rat.den_eq_one_iff]
  constructor
  · rintro ⟨n, rfl⟩
    rw [div_mul_cancel₀ _ (by norm_num), Rat.num_intCast]
  · intro h
    exact ⟨(x * 100).num, by rw [h, mul_div_cancel_right₀ _ (by norm_num)]⟩

instance (x : ℚ) : Decidable (IsCents x) := decidable_of_iff _ isCents_iff.symm

theorem toFixed2_isCents (x : ℚ) : IsCents (toFixed2 x) := ⟨_, rfl⟩

theorem abs_toFixed2_sub_le (x : ℚ) : |toFixed2 x - x| ≤ 1 / 200 := by
  have h := abs_le.1 (abs_roundHalfAway_sub_le (x * 100))
  unfold toFixed2
  exact abs_le.2 ⟨by linarith, by linarith⟩

theorem le_toFixed2 (hc : IsCents c) (h : c ≤ x) : c ≤ toFixed2 x := by
  obtain ⟨n, rfl⟩ := hc
  have hle : (n : ℚ) ≤ x * 100 := by linarith
  exact div_le_div_of_nonneg_right (Int.cast_le.2 (le_roundHalfAway hle)) (by norm_num)

theorem toFixed2_le (hc : IsCents c) (h : x ≤ c) : toFixed2 x ≤ c := by
  obtain ⟨n, rfl⟩ := hc
  have hle : x * 100 ≤ n := by linarith
  exact div_le_div_of_nonneg_right (Int.cast_le.2 (roundHalfAway_le hle)) (by norm_num)

/-- Nothing is lost exactly on whole hundredths. -/
theorem toFixed2_eq_iff : toFixed2 x = x ↔ IsCents x :=
  ⟨fun h => h ▸ toFixed2_isCents x, fun h => le_antisymm (toFixed2_le h le_rfl) (le_toFixed2 h le_rfl)⟩

/-- A whole number of hundredths that is a hundredth away at most stays so. -/
theorem abs_sub_toFixed2_le (hc : IsCents c) (h : |c - x| ≤ 1 / 100) : |c - toFixed2 x| ≤ 1 / 100 := by
  obtain ⟨n, rfl⟩ := hc
  obtain ⟨hlow, hhigh⟩ := abs_le.1 h
  have hup : IsCents ((n : ℚ) / 100 + 1 / 100) := ⟨n + 1, by push_cast; ring⟩
  have hdown : IsCents ((n : ℚ) / 100 - 1 / 100) := ⟨n - 1, by push_cast; ring⟩
  have hle := toFixed2_le (x := x) hup (by linarith)
  have hge := le_toFixed2 (x := x) hdown (by linarith)
  exact abs_le.2 ⟨by linarith, by linarith⟩

end Cents
end DocAuto

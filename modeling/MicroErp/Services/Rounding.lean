import MicroErp.Services.TransactionsService

/-!
# Rounding of amounts

A double is at most one part in `2 ^ 52` above the number it stands for.  That is enough for the
shares of a mixed payment, which stay within the balance that they are taken from.
-/

namespace MicroErp.Services

/-! ## Doubles -/

section Double

variable {q : ℚ}

theorem toDouble_cases (q : ℚ) : toDouble q = ⌊q / 2 ^ (Int.log 2 |q| - 52)⌋ * 2 ^ (Int.log 2 |q| - 52) ∨
    toDouble q = (⌊q / 2 ^ (Int.log 2 |q| - 52)⌋ + 1) * 2 ^ (Int.log 2 |q| - 52) := by
  unfold toDouble
  simp only
  split
  · exact Or.inl rfl
  · exact Or.inr rfl

theorem toDouble_nonneg (hq : 0 ≤ q) : 0 ≤ toDouble q := by
  have hulp : (0 : ℚ) < 2 ^ (Int.log 2 |q| - 52) := by positivity
  have hfloor : (0 : ℚ) ≤ ⌊q / 2 ^ (Int.log 2 |q| - 52)⌋ := by
    exact_mod_cast Int.floor_nonneg.2 (by positivity)
  rcases toDouble_cases q with h | h <;> rw [h] <;> positivity

theorem toDouble_zero : toDouble 0 = 0 := by
  simp [toDouble]

/-- The step between doubles near a number is at most its `2 ^ 52`th part. -/
theorem ulp_le (hq : q ≠ 0) : (2 : ℚ) ^ (Int.log 2 |q| - 52) ≤ |q| * 2 ^ (-52 : ℤ) := by
  have hlog : (2 : ℚ) ^ Int.log 2 |q| ≤ |q| :=
    Int.zpow_log_le_self (by norm_num) (abs_pos.2 hq)
  rw [sub_eq_add_neg, zpow_add₀ two_ne_zero]
  gcongr

/-- The relative error of a double. -/
theorem abs_toDouble_sub_le (q : ℚ) : |toDouble q - q| ≤ |q| * 2 ^ (-52 : ℤ) := by
  rcases eq_or_ne q 0 with rfl | hq
  · simp [toDouble_zero]
  refine le_trans ?_ (ulp_le hq)
  have hulp : (0 : ℚ) < 2 ^ (Int.log 2 |q| - 52) := by positivity
  have hfloor : ⌊q / 2 ^ (Int.log 2 |q| - 52)⌋ * 2 ^ (Int.log 2 |q| - 52) ≤ q :=
    (le_div_iff₀ hulp).1 (Int.floor_le _)
  have hceil : q < (⌊q / 2 ^ (Int.log 2 |q| - 52)⌋ + 1) * 2 ^ (Int.log 2 |q| - 52) :=
    (div_lt_iff₀ hulp).1 (Int.lt_floor_add_one _)
  rw [add_mul, one_mul] at hceil
  rw [abs_le]
  rcases toDouble_cases q with h | h
  · rw [h]
    constructor <;> linarith
  · rw [h, add_mul, one_mul]
    constructor <;> linarith

theorem toDouble_le (hq : 0 ≤ q) : toDouble q ≤ q * (1 + 2 ^ (-52 : ℤ)) := by
  have herror := (abs_le.1 (abs_toDouble_sub_le q)).2
  rw [abs_of_nonneg hq] at herror
  linarith

/-- Integers that are not too large are doubles. -/
theorem toDouble_intCast {n : ℤ} (hn : |n| < 2 ^ 53) : toDouble n = n := by
  rcases eq_or_ne n 0 with rfl | hn₀
  · exact toDouble_zero
  have hpos : (0 : ℚ) < |(n : ℚ)| := abs_pos.2 (by exact_mod_cast hn₀)
  have hlog : Int.log 2 |(n : ℚ)| < 53 := by
    rw [← Int.lt_zpow_iff_log_lt (by norm_num) hpos]
    exact_mod_cast hn
  obtain ⟨k, hk⟩ := Int.eq_ofNat_of_zero_le (show 0 ≤ 52 - Int.log 2 |(n : ℚ)| by omega)
  have hscaled : (n : ℚ) / 2 ^ (Int.log 2 |(n : ℚ)| - 52) = (n * 2 ^ k : ℤ) := by
    rw [show Int.log 2 |(n : ℚ)| - 52 = -(k : ℤ) by omega, zpow_neg, div_inv_eq_mul]
    push_cast
    rfl
  have hulp : (2 : ℚ) ^ (Int.log 2 |(n : ℚ)| - 52) ≠ 0 := by positivity
  unfold toDouble
  simp only [hscaled, Int.floor_intCast, sub_self]
  rw [if_pos (Or.inl (by norm_num)), ← hscaled, div_mul_cancel₀ _ hulp]

end Double

theorem abs_mathRound_sub_le (q : ℚ) : |mathRound q - q| ≤ 1 / 2 := by
  have hle : (mathRound q : ℚ) ≤ q + 1 / 2 := Int.floor_le _
  have hlt : q + 1 / 2 < mathRound q + 1 := Int.lt_floor_add_one _
  rw [abs_le]
  constructor <;> linarith

theorem mathRound_nonneg {q : ℚ} (hq : 0 ≤ q) : 0 ≤ mathRound q :=
  Int.floor_nonneg.2 (by positivity)

theorem mathRound_le {q : ℚ} {n : ℤ} (hq : q < n + 1 / 2) : mathRound q ≤ n := by
  have hlt : q + 1 / 2 < n + 1 := by linarith
  exact Int.lt_add_one_iff.1 (Int.floor_lt.2 (by exact_mod_cast hlt))

/-! ## The shares of a mixed payment -/

/-- The product of a share with the ratio of balance to total hardly exceeds the balance. -/
theorem prorated_lt {cash total balance : ℤ} (hcash : 0 ≤ cash) (hle : cash ≤ total)
    (hbalance : 0 ≤ balance) (hlt : balance < total) (hmax : total ≤ maxAmountCents) :
    toDouble (cash * toDouble (balance / total)) < balance + 1 / 2 := by
  have htotal : (0 : ℚ) < total := by exact_mod_cast hbalance.trans_lt hlt
  have hbalance' : (0 : ℚ) ≤ balance := by exact_mod_cast hbalance
  have hcash' : (0 : ℚ) ≤ cash := by exact_mod_cast hcash
  have hle' : (cash : ℚ) ≤ total := by exact_mod_cast hle
  have hsmall : (balance : ℚ) ≤ 2000000000 := by
    have hmax' : balance ≤ 2000000000 := (hlt.le.trans hmax)
    exact_mod_cast hmax'
  have hratio : toDouble (balance / total) ≤ balance / total * (1 + 2 ^ (-52 : ℤ)) :=
    toDouble_le (by positivity)
  have hprod : cash * toDouble (balance / total) ≤ balance * (1 + 2 ^ (-52 : ℤ)) :=
    calc cash * toDouble (balance / total)
        ≤ total * (balance / total * (1 + 2 ^ (-52 : ℤ))) :=
          mul_le_mul hle' hratio (toDouble_nonneg (by positivity)) htotal.le
      _ = balance * (1 + 2 ^ (-52 : ℤ)) := by field_simp
  calc toDouble (cash * toDouble (balance / total))
      ≤ cash * toDouble (balance / total) * (1 + 2 ^ (-52 : ℤ)) :=
        toDouble_le (mul_nonneg hcash' (toDouble_nonneg (by positivity)))
    _ ≤ balance * (1 + 2 ^ (-52 : ℤ)) * (1 + 2 ^ (-52 : ℤ)) := by gcongr
    _ < balance + 1 / 2 := by
      norm_num
      linarith

/-- Both shares are within the balance, and none is negative. -/
theorem effectiveShares_mem {dto : CreateMixedPaymentDto} {balanceCents : ℤ}
    (htotal : dto.cash_amount_cents + dto.transfer_amount_cents = dto.total_amount_cents)
    (hbalance : 0 ≤ balanceCents) :
    (0 ≤ (effectiveShares dto balanceCents).1 ∧
      (effectiveShares dto balanceCents).1 ≤ balanceCents) ∧
    0 ≤ (effectiveShares dto balanceCents).2 ∧
      (effectiveShares dto balanceCents).2 ≤ balanceCents := by
  have hcash := dto.cash_valid.1
  have htransfer := dto.transfer_valid.1
  unfold effectiveShares
  simp only
  split
  · rename_i hless
    have hmin : min dto.total_amount_cents balanceCents = balanceCents := by omega
    have hlt : balanceCents < dto.total_amount_cents := by omega
    rw [hmin]
    have hratio : (0 : ℚ) ≤ balanceCents / dto.total_amount_cents :=
      div_nonneg (by exact_mod_cast hbalance) (by exact_mod_cast dto.total_valid.1.le)
    have hnonneg := mathRound_nonneg (toDouble_nonneg (mul_nonneg
      (show (0 : ℚ) ≤ dto.cash_amount_cents by exact_mod_cast hcash.le) (toDouble_nonneg hratio)))
    have hle := mathRound_le (prorated_lt hcash.le (by omega) hbalance hlt dto.total_valid.2)
    simp only
    omega
  · simp only
    omega

end MicroErp.Services

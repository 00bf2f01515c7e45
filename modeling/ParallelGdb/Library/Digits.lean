import ParallelGdb.Library.CString
import Mathlib.Tactic.Ring

/-!
# Numbers written in one base and read in another

`atoi` reads a run of digits in base ten, whatever base it was written in. Of the
octal digits of a number it makes a greater number, unless there is only one digit.
-/

namespace Library.CString

/-- The octal digits of a number, read in base ten. -/
def misread (k : Nat) : Nat := digitsValue (digitsIn 8 k)

theorem misread_eq (k : Nat) : misread k = 10 * misread (k / 8) + k % 8 :=
  digitsValue_digitsIn (by decide) (by decide) k

theorem misread_of_lt {k : Nat} (h : k < 8) : misread k = k := by
  have hzero : misread 0 = 0 := by decide
  rw [misread_eq, Nat.div_eq_of_lt h, Nat.mod_eq_of_lt h, hzero, Nat.mul_zero, Nat.zero_add]

/-- The reading of a number is that of its parts. -/
theorem misread_split (j q r : Nat) (hr : r < 8 ^ j) :
    misread (8 ^ j * q + r) = 10 ^ j * misread q + misread r := by
  induction j generalizing r with
  | zero =>
      obtain rfl : r = 0 := by omega
      simp [misread_of_lt]
  | succ j ih =>
      have hshift : 8 ^ (j + 1) * q = 8 * (8 ^ j * q) := by ring
      have hdiv : (8 ^ (j + 1) * q + r) / 8 = 8 ^ j * q + r / 8 := by omega
      have hmod : (8 ^ (j + 1) * q + r) % 8 = r % 8 := by omega
      have hlt : r / 8 < 8 ^ j := by
        rw [pow_succ] at hr
        omega
      rw [misread_eq, hdiv, hmod, ih _ hlt, misread_eq r]
      ring

theorem le_misread (k : Nat) : k ≤ misread k := by
  induction k using Nat.strong_induction_on with
  | _ k ih =>
      rcases Nat.lt_or_ge k 8 with h | h
      · exact (misread_of_lt h).ge
      · have := ih (k / 8) (by omega)
        rw [misread_eq]
        omega

theorem misread_eq_iff (k : Nat) : misread k = k ↔ k < 8 := by
  constructor
  · intro h
    by_contra hk
    have := le_misread (k / 8)
    rw [misread_eq] at h
    omega
  · exact misread_of_lt

/-- How far the reading of `j` digits is off at most. -/
theorem misread_le (j r : Nat) (hr : r < 8 ^ j) :
    9 * misread r + 9 * 8 ^ j ≤ 9 * r + 7 * 10 ^ j + 2 := by
  induction j generalizing r with
  | zero =>
      obtain rfl : r = 0 := by omega
      decide
  | succ j ih =>
      have hlt : r / 8 < 8 ^ j := by
        rw [pow_succ] at hr
        omega
      have := ih (r / 8) hlt
      rw [misread_eq, pow_succ, pow_succ]
      omega

/-- A reading of more than eight digits is off by no multiple of `2 ^ 32`, whatever
the lower eight digits are. -/
theorem misread_high : ∀ q < 128, 0 < q →
    0 < (10 ^ 8 * misread q - 8 ^ 8 * q) % 2 ^ 32 ∧
      (10 ^ 8 * misread q - 8 ^ 8 * q) % 2 ^ 32 + 61000562 < 2 ^ 32 := by
  decide +kernel

/-- As an `int`, the reading of a nonnegative `int` is right for one digit only. -/
theorem toInt32_misread_iff {k : Nat} (hk : k < 2 ^ 31) :
    toInt32 (misread k) = k ↔ k < 8 := by
  have hsplit := misread_split 8 (k / 8 ^ 8) (k % 8 ^ 8) (Nat.mod_lt _ (by decide))
  rw [Nat.div_add_mod] at hsplit
  have hlow := misread_le 8 (k % 8 ^ 8) (Nat.mod_lt _ (by decide))
  have hlow' := le_misread (k % 8 ^ 8)
  rcases Nat.eq_zero_or_pos (k / 8 ^ 8) with hq | hq
  · have hsmall : k < 8 ^ 8 := (Nat.div_eq_zero_iff_lt (by decide)).mp hq
    rw [Nat.mod_eq_of_lt hsmall] at hlow
    rw [toInt32_of_bounds (by omega) (by omega), Nat.cast_inj, misread_eq_iff]
  · have hhigh := misread_high (k / 8 ^ 8) (by omega) hq
    have hhigh' := le_misread (k / 8 ^ 8)
    refine iff_of_false ?_ (by omega)
    intro h
    have hmod : (toInt32 (misread k)) % (2 ^ 32 : Nat) = (misread k : Int) % (2 ^ 32 : Nat) :=
      Int.bmod_emod
    rw [h] at hmod
    obtain ⟨turns, hturns⟩ : ∃ turns, misread k = k + 2 ^ 32 * turns :=
      ⟨misread k / 2 ^ 32 - k / 2 ^ 32, by have := le_misread k; omega⟩
    rcases Nat.lt_or_ge
      ((10 ^ 8 * misread (k / 8 ^ 8) - 8 ^ 8 * (k / 8 ^ 8)) / 2 ^ 32) turns with hlt | hge
    · omega
    · omega

end Library.CString

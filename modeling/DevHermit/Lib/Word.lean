import Mathlib

namespace DevHermit.Lib.Word

def mask (n : Nat) : UInt64 := (1 <<< UInt64.ofNat n) - 1

variable {n : Nat}

theorem toNat_ofNat_shift (h : n < 64) : (UInt64.ofNat n).toNat % 64 = n := by
  rw [UInt64.toNat_ofNat', Nat.mod_eq_of_lt (a := n) (by omega), Nat.mod_eq_of_lt h]

variable {w : UInt64}

theorem toNat_shiftLeft (h : n < 64) (hw : w.toNat * 2 ^ n < 2 ^ 64) :
    (w <<< UInt64.ofNat n).toNat = w.toNat * 2 ^ n := by
  rw [UInt64.toNat_shiftLeft, toNat_ofNat_shift h, Nat.shiftLeft_eq, Nat.mod_eq_of_lt hw]

theorem toNat_shiftRight (w : UInt64) (h : n < 64) :
    (w >>> UInt64.ofNat n).toNat = w.toNat / 2 ^ n := by
  rw [UInt64.toNat_shiftRight, toNat_ofNat_shift h, Nat.shiftRight_eq_div_pow]

theorem toNat_mask (h : n < 64) : (mask n).toNat = 2 ^ n - 1 := by
  have hp : 2 ^ n < 2 ^ 64 := Nat.pow_lt_pow_right (by decide) h
  have hs : (1 <<< UInt64.ofNat n : UInt64).toNat = 2 ^ n := by
    rw [toNat_shiftLeft h (by simpa using hp)]
    simp
  rw [mask, UInt64.toNat_sub_of_le]
  · rw [hs]
    rfl
  · rw [UInt64.le_iff_toNat_le, hs]
    exact Nat.one_le_two_pow

theorem toNat_succ (h : n < 64) (hw : w.toNat < 2 ^ n) (hm : w ≠ mask n) :
    (w + 1).toNat = w.toNat + 1 ∧ w.toNat + 1 < 2 ^ n := by
  have hne : w.toNat ≠ 2 ^ n - 1 := by
    rw [← toNat_mask h]
    exact fun he => hm (UInt64.toNat_inj.mp he)
  have hp : 2 ^ n < 2 ^ 64 := Nat.pow_lt_pow_right (by decide) h
  rw [UInt64.toNat_add, UInt64.toNat_one, Nat.mod_eq_of_lt (by omega)]
  exact ⟨rfl, by omega⟩

theorem toNat_pred (hw : w ≠ 0) : (w - 1).toNat + 1 = w.toNat := by
  have hpos : w.toNat ≠ 0 := fun he => hw (UInt64.toNat_inj.mp he)
  rw [UInt64.toNat_sub_of_le, UInt64.toNat_one]
  · omega
  · rw [UInt64.le_iff_toNat_le, UInt64.toNat_one]
    omega

theorem toNat_and_mask (w : UInt64) (h : n < 64) : (w &&& mask n).toNat = w.toNat % 2 ^ n := by
  rw [UInt64.toNat_and, toNat_mask h, Nat.and_two_pow_sub_one_eq_mod]

theorem toNat_shiftLeft_or {a b : UInt64} (h : n < 64) (ha : a.toNat * 2 ^ n < 2 ^ 64)
    (hb : b.toNat < 2 ^ n) : (a <<< UInt64.ofNat n ||| b).toNat = a.toNat * 2 ^ n + b.toNat := by
  rw [UInt64.toNat_or, toNat_shiftLeft h ha, ← Nat.shiftLeft_eq, ← Nat.shiftLeft_add_eq_or_of_lt hb]

theorem and_mask_of_lt (h : n < 64) (hw : w.toNat < 2 ^ n) : w &&& mask n = w := by
  apply UInt64.toNat_inj.mp
  rw [toNat_and_mask w h, Nat.mod_eq_of_lt hw]

theorem and_not_mask_of_lt (h : n < 64) (hw : w.toNat < 2 ^ n) : w &&& ~~~ mask n = 0 := by
  rw [← and_mask_of_lt h hw, UInt64.and_assoc, UInt64.and_not_self, UInt64.and_zero]

theorem toNat_bit (h : n < 64) : (1 <<< UInt64.ofNat n : UInt64).toNat = 2 ^ n := by
  rw [toNat_shiftLeft h (by simpa using Nat.pow_lt_pow_right (by decide) h)]
  simp

theorem and_bit_of_lt (h : n < 64) (hw : w.toNat < 2 ^ n) : w &&& (1 <<< UInt64.ofNat n) = 0 := by
  apply UInt64.toNat_inj.mp
  rw [UInt64.toNat_and, toNat_bit h, Nat.and_two_pow, Nat.testBit_lt_two_pow hw]
  simp

theorem and_bit_bne (w : UInt64) (h : n < 64) :
    (w &&& (1 <<< UInt64.ofNat n) != 0) = w.toNat.testBit n := by
  have hz : w &&& (1 <<< UInt64.ofNat n) = 0 ↔ (w &&& (1 <<< UInt64.ofNat n)).toNat = 0 :=
    UInt64.toNat_inj.symm
  rw [Bool.eq_iff_iff, bne_iff_ne, ne_eq, hz, UInt64.toNat_and, toNat_bit h, Nat.and_two_pow]
  cases w.toNat.testBit n <;> simp

theorem or_and_distrib (a b m : UInt64) : (a ||| b) &&& m = a &&& m ||| b &&& m := by
  apply UInt64.toNat_inj.mp
  simp only [UInt64.toNat_and, UInt64.toNat_or, Nat.and_or_distrib_right]

theorem split_mask (w m : UInt64) : w &&& ~~~ m ||| w &&& m = w := by
  have h := or_and_distrib (~~~ m) m w
  rw [UInt64.not_or_self, UInt64.neg_one_and] at h
  rw [UInt64.and_comm w, UInt64.and_comm w]
  exact h.symm

end DevHermit.Lib.Word

import Mathlib
import TensorConcat.Number.Word

/-!
# Words that do not overflow

A checked operation on words succeeds when the exact result is a word, and is that
result.
-/

namespace TensorConcat

namespace Number

theorem toNat_ofNat_of_lt {n : Nat} (h : n < 2 ^ 32) : (UInt32.ofNat n).toNat = n := by
  rw [UInt32.toNat_ofNat', Nat.mod_eq_of_lt h]

theorem word_eq {n : Nat} (h : n < 2 ^ 32) : word n = .ok (UInt32.ofNat n) := if_pos h

theorem addWord_eq {a b : UInt32} (h : a.toNat + b.toNat < 2 ^ 32) :
    ∃ w, addWord a b = .ok w ∧ w.toNat = a.toNat + b.toNat :=
  ⟨_, word_eq h, toNat_ofNat_of_lt h⟩

theorem mulWord_eq {a b : UInt32} (h : a.toNat * b.toNat < 2 ^ 32) :
    ∃ w, mulWord a b = .ok w ∧ w.toNat = a.toNat * b.toNat :=
  ⟨_, word_eq h, toNat_ofNat_of_lt h⟩

theorem divWord_eq {a b : UInt32} (h : 0 < b.toNat) :
    ∃ w, divWord a b = .ok w ∧ w.toNat = a.toNat / b.toNat := by
  refine ⟨a / b, if_neg ?_, UInt32.toNat_div ..⟩
  intro hcase
  rcases hcase with rfl
  simp at h

/-- What a division leaves: the subtraction does not wrap. -/
theorem toNat_sub_mul_div {a b q : UInt32} (hq : q.toNat = a.toNat / b.toNat) :
    (a - b * q).toNat = a.toNat % b.toNat := by
  have hle : b.toNat * q.toNat ≤ a.toNat := hq ▸ Nat.mul_div_le ..
  have hmul : (b * q).toNat = b.toNat * q.toNat := by
    rw [UInt32.toNat_mul, Nat.mod_eq_of_lt (hle.trans_lt a.toNat_lt)]
  rw [UInt32.toNat_sub_of_le _ _ (by rwa [UInt32.le_iff_toNat_le, hmul]), hmul, hq,
    Nat.mod_eq_sub_mul_div]

end Number

end TensorConcat

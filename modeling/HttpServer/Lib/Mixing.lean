import Mathlib.Data.BitVec
import Mathlib.Data.Nat.ModEq
import Mathlib.Data.Nat.Prime.Basic

/-!
# Steps that mix the bits of a word

Hash functions are put together from a few steps on words: a constant is added, a word is added to
itself or combined with itself after a shift.  None of them loses anything, so words that differ
before such a step differ after it.
-/

namespace HttpServer.Lib

section Mixing

variable {w : ℕ}

theorem eq_zero_of_ushiftRight {x : BitVec w} {k : ℕ} (hk : 0 < k) (h : x >>> k = x) : x = 0#w := by
  have hnat : x.toNat / 2 ^ k = x.toNat := by
    rw [← Nat.shiftRight_eq_div_pow, ← BitVec.toNat_ushiftRight, h]
  apply BitVec.eq_of_toNat_eq
  by_contra hne
  have hpos : 0 < x.toNat := Nat.pos_of_ne_zero (by simpa using hne)
  have hlt := Nat.div_lt_self hpos (Nat.one_lt_two_pow hk.ne')
  omega

/-- **A word combined with its shift to the right** is the word of no other one. -/
theorem xorShift_injective {k : ℕ} (hk : 0 < k) :
    Function.Injective fun x : BitVec w => x ^^^ (x >>> k) := by
  intro x y h
  simp only at h
  have hdiff : (x ^^^ y) >>> k = x ^^^ y := by
    rw [BitVec.ushiftRight_xor_distrib]
    calc x >>> k ^^^ y >>> k = x ^^^ (x ^^^ x >>> k) ^^^ y >>> k := by
          rw [← BitVec.xor_assoc, BitVec.xor_self, BitVec.zero_xor]
      _ = x ^^^ (y ^^^ y >>> k) ^^^ y >>> k := by rw [h]
      _ = x ^^^ y := by
          rw [BitVec.xor_assoc, BitVec.xor_assoc, BitVec.xor_self, BitVec.xor_zero]
  exact BitVec.xor_eq_zero_iff.1 (eq_zero_of_ushiftRight hk hdiff)

/-- **A word added to its shift to the left** is the sum of no other one: it is multiplied by an odd
number. -/
theorem addShift_injective {k : ℕ} (hk : 0 < k) :
    Function.Injective fun x : BitVec w => x + x <<< k := by
  have hmul : ∀ x : BitVec w, (x + x <<< k).toNat = x.toNat * (1 + 2 ^ k) % 2 ^ w := by
    intro x
    rw [BitVec.toNat_add, BitVec.toNat_shiftLeft, Nat.shiftLeft_eq, Nat.add_mod_mod, mul_add, mul_one]
  have hcoprime : (2 ^ w).gcd (1 + 2 ^ k) = 1 := by
    have heven : Even (2 ^ k) := even_two.pow_of_ne_zero hk.ne'
    exact (Nat.coprime_two_left.2 heven.one_add).pow_left w
  intro x y h
  simp only at h
  have hmod : x.toNat * (1 + 2 ^ k) ≡ y.toNat * (1 + 2 ^ k) [MOD 2 ^ w] := by
    rw [Nat.ModEq, ← hmul, ← hmul, h]
  have heq := Nat.ModEq.cancel_right_of_coprime hcoprime hmod
  rw [Nat.ModEq, Nat.mod_eq_of_lt x.isLt, Nat.mod_eq_of_lt y.isLt] at heq
  exact BitVec.eq_of_toNat_eq heq

end Mixing

end HttpServer.Lib

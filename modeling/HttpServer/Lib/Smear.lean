import Mathlib.Data.Nat.Bitwise
import Mathlib.Data.Nat.Log

/-!
# Spreading the bits of a number downwards

A number that is combined with itself shifted by 1, 2, 4, .. places has every bit set from its highest
one on: one more makes the least power of two above it.
-/

namespace HttpServer.Lib

variable {n m x : ℕ}

/-- A bit of `x` is set when one of the `m` bits of `n` from it on is. -/
def Covers (n m x : ℕ) : Prop :=
  ∀ p, x.testBit p = true ↔ ∃ q, p ≤ q ∧ q < p + m ∧ n.testBit q = true

theorem covers_self (n : ℕ) : Covers n 1 n := by
  intro p
  constructor
  · intro h
    exact ⟨p, le_rfl, Nat.lt_succ_self p, h⟩
  · rintro ⟨q, hle, hlt, hq⟩
    obtain rfl : q = p := by omega
    exact hq

/-- One round doubles the reach of a bit. -/
theorem Covers.spread (h : Covers n m x) : Covers n (m + m) (x ||| (x >>> m)) := by
  intro p
  rw [Nat.testBit_or, Bool.or_eq_true, Nat.testBit_shiftRight, h p, h (m + p)]
  constructor
  · rintro (⟨q, hle, hlt, hq⟩ | ⟨q, hle, hlt, hq⟩)
    · exact ⟨q, hle, by omega, hq⟩
    · exact ⟨q, by omega, by omega, hq⟩
  · rintro ⟨q, hle, hlt, hq⟩
    by_cases hnear : q < p + m
    · exact Or.inl ⟨q, hle, hnear, hq⟩
    · exact Or.inr ⟨q, by omega, by omega, hq⟩

/-- When every bit reaches down to the lowest place, all bits from the highest one on are set. -/
theorem Covers.eq (h : Covers n m x) (hn : n ≠ 0) (hlt : n < 2 ^ m) :
    x = 2 ^ (Nat.log2 n + 1) - 1 := by
  have hhigh : n.testBit (Nat.log2 n) = true := Nat.testBit_log2 hn
  have hsmall : Nat.log2 n < m := (Nat.log2_lt hn).2 hlt
  apply Nat.eq_of_testBit_eq
  intro p
  rw [Nat.testBit_two_pow_sub_one, Bool.eq_iff_iff, h p, decide_eq_true_iff]
  constructor
  · rintro ⟨q, hle, -, hq⟩
    have hq' : 2 ^ q ≤ n := Nat.ge_two_pow_of_testBit hq
    have := (Nat.le_log2 hn).2 hq'
    omega
  · intro hp
    exact ⟨Nat.log2 n, by omega, by omega, hhigh⟩

end HttpServer.Lib

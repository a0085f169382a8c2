import HttpServer.Lib.IntConstant
import HttpServer.Request

/-!
# What `parse_long` accepts

`parse_long` hands its text to `strtol` with base 0, so a length may be written as any integer
constant: after white space, with a sign, octal when it starts with a zero, hexadecimal or binary.
-/

namespace HttpServer

open Lib

/-- `parse_long`: what it returns, and `*out` after it. -/
def parseLongInto (str : Bytes) (out : ℤ) : ℤ × ℤ :=
  if str = [] then (-1, out)
  else
    let (value, rest, erange) := strtol0 str
    if rest ≠ [] then (-1, out)
    else if erange then (-1, out)
    else (0, value)

theorem parseLongInto_eq (str : Bytes) (out : ℤ) :
    parseLongInto str out = match parseLong str with
      | some v => (0, v)
      | none => (-1, out) := by
  unfold parseLongInto parseLong
  split
  · rfl
  · simp only
    split
    · rfl
    · split <;> rfl

theorem parseLong_eq_some {str : Bytes} {v : ℤ} :
    parseLong str = some v ↔ str ≠ [] ∧ strtol0 str = (v, [], false) := by
  unfold parseLong
  obtain ⟨value, rest, erange⟩ := strtol0 str
  by_cases hs : str = [] <;> by_cases hr : rest = [] <;> cases erange <;> simp [hs, hr]

theorem parseLong_accepts {str : Bytes} {v : ℤ} :
    parseLong str = some v ↔ IntConstant str v ∧ LONG_MIN ≤ v ∧ v ≤ LONG_MAX := by
  rw [parseLong_eq_some]
  constructor
  · rintro ⟨hs, hread⟩
    exact (strtol0_accepts hs).1 hread
  · intro h
    have hs : str ≠ [] := h.1.ne_nil
    exact ⟨hs, (strtol0_accepts hs).2 h⟩

/-- `parse_long` returns 0 exactly when its text is an integer constant with a value in the range of
`long`, and stores this value; otherwise it returns -1 and stores nothing.  A text of decimal digits
without a leading zero has its decimal value. -/
theorem parseLongInto_accepts (str : Bytes) (out : ℤ) :
    (∀ v, parseLongInto str out = (0, v) ↔ IntConstant str v ∧ LONG_MIN ≤ v ∧ v ≤ LONG_MAX) ∧
    ((∀ v, IntConstant str v → ¬ (LONG_MIN ≤ v ∧ v ≤ LONG_MAX)) →
      parseLongInto str out = (-1, out)) ∧
    (∀ c ds, str = c :: ds → (c ≠ 48 ∨ ds = []) → (∀ x ∈ str, 48 ≤ x ∧ x ≤ 57) →
      parseLongInto str out =
        if (ofDigits 10 str : ℤ) ≤ LONG_MAX then (0, (ofDigits 10 str : ℤ)) else (-1, out)) := by
  have haccepts : ∀ v, parseLongInto str out = (0, v) ↔
      IntConstant str v ∧ LONG_MIN ≤ v ∧ v ≤ LONG_MAX := by
    intro v
    rw [← parseLong_accepts, parseLongInto_eq]
    cases parseLong str <;> simp
  have hrejects : (∀ v, IntConstant str v → ¬ (LONG_MIN ≤ v ∧ v ≤ LONG_MAX)) →
      parseLongInto str out = (-1, out) := by
    intro h
    rw [parseLongInto_eq]
    cases hp : parseLong str with
    | none => rfl
    | some v =>
      obtain ⟨hv, hrange⟩ := parseLong_accepts.1 hp
      exact absurd hrange (h v hv)
  refine ⟨haccepts, hrejects, ?_⟩
  intro c ds hstr hc hdigits
  have hconst : IntConstant str (ofDigits 10 str) := intConstant_decimal hstr hc hdigits
  split
  · rename_i hmax
    exact (haccepts _).2 ⟨hconst, by simp only [LONG_MIN]; omega, hmax⟩
  · rename_i hmax
    apply hrejects
    intro v hv hrange
    rw [hv.unique hconst] at hrange
    exact hmax hrange.2

/-- Texts that are no strings of decimal digits are accepted, and digits after a zero are octal. -/
theorem parseLongInto_not_decimal :
    parseLongInto (lit "-3") 7 = (0, -3) ∧ parseLongInto (lit " 12") 7 = (0, 12) ∧
      parseLongInto (lit "0x10") 7 = (0, 16) ∧ parseLongInto (lit "010") 7 = (0, 8) ∧
      ofDigits 10 (lit "010") = 10 ∧ parseLongInto (lit "08") 7 = (-1, 7) := by
  decide

end HttpServer

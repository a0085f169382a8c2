import HttpServer.Lib.Bytes

/-!
# Printing and reading numbers

`decimal` is what `printf` writes for `%lu`; `strtol0` is `strtol` with base 0, which reads the
integer constants of C: white space, a sign, a prefix that fixes the base, digits, with the value
clamped to the range of `long`.  What is printed is read back: `strtol0_decimal`.
-/

namespace HttpServer.Lib

def decimal (n : ℕ) : Bytes := (Nat.toDigits 10 n).map fun c => c.toNat.toUInt8

def digit (d : ℕ) : UInt8 := (48 + d).toUInt8

theorem toUInt8_digitChar {d : ℕ} (h : d < 10) : d.digitChar.toNat.toUInt8 = digit d := by
  interval_cases d <;> rfl

theorem decimal_of_lt {n : ℕ} (h : n < 10) : decimal n = [digit n] := by
  simp [decimal, Nat.toDigits_of_lt_base h, toUInt8_digitChar h]

/-- The last digit comes off the end. -/
theorem decimal_of_le {n : ℕ} (h : 10 ≤ n) : decimal n = decimal (n / 10) ++ [digit (n % 10)] := by
  simp [decimal, Nat.toDigits_of_base_le (b := 10) (by omega) h,
    toUInt8_digitChar (Nat.mod_lt n (by omega : 0 < 10))]

theorem decimal_induction {P : ℕ → Prop} (small : ∀ n < 10, P n)
    (step : ∀ n, 10 ≤ n → P (n / 10) → P n) (n : ℕ) : P n := by
  induction n using Nat.strong_induction_on with
  | _ n ih =>
    by_cases h : n < 10
    · exact small n h
    · exact step n (by omega) (ih _ (by omega))

theorem mem_decimal {n : ℕ} {c : UInt8} (h : c ∈ decimal n) : ∃ d < 10, c = digit d := by
  induction n using decimal_induction with
  | small n hn =>
    rw [decimal_of_lt hn, List.mem_singleton] at h
    exact ⟨n, hn, h⟩
  | step n hn ih =>
    rw [decimal_of_le hn, List.mem_append, List.mem_singleton] at h
    rcases h with h | h
    · exact ih h
    · exact ⟨n % 10, Nat.mod_lt n (by omega), h⟩

theorem decimal_ne_nil (n : ℕ) : decimal n ≠ [] := by
  simp [decimal]

theorem digit_range {d : ℕ} (h : d < 10) : 48 ≤ digit d ∧ digit d ≤ 57 := by
  interval_cases d <;> decide

theorem decimal_range {n : ℕ} {c : UInt8} (h : c ∈ decimal n) : 48 ≤ c ∧ c ≤ 57 := by
  obtain ⟨d, hd, rfl⟩ := mem_decimal h
  exact digit_range hd

theorem nulFree_decimal (n : ℕ) : NulFree (decimal n) := by
  intro h
  have := (decimal_range h).1
  revert this
  decide

theorem head_decimal {n : ℕ} (h : 0 < n) : ∃ d < 10, 0 < d ∧ ∃ r, decimal n = digit d :: r := by
  induction n using decimal_induction with
  | small n hn => exact ⟨n, hn, h, [], decimal_of_lt hn⟩
  | step n hn ih =>
    obtain ⟨d, hd, hpos, r, hr⟩ := ih (by omega)
    exact ⟨d, hd, hpos, r ++ [digit (n % 10)], by rw [decimal_of_le hn, hr]; rfl⟩

theorem length_decimal_le (n : ℕ) : (decimal n).length ≤ n + 1 := by
  induction n using decimal_induction with
  | small n hn => simp [decimal_of_lt hn]
  | step n hn ih =>
    rw [decimal_of_le hn, List.length_append, List.length_singleton]
    omega

theorem length_decimal_of_lt {n k : ℕ} (hk : 0 < k) (h : n < 10 ^ k) : (decimal n).length ≤ k := by
  induction n using decimal_induction generalizing k with
  | small n hn =>
    rw [decimal_of_lt hn]
    exact hk
  | step n hn ih =>
    obtain ⟨k, rfl⟩ := Nat.exists_eq_succ_of_ne_zero hk.ne'
    have hdiv : n / 10 < 10 ^ k := by
      rw [pow_succ] at h
      omega
    have hpos : 0 < k := by
      rcases Nat.eq_zero_or_pos k with rfl | hpos
      · rw [pow_zero] at hdiv
        omega
      · exact hpos
    have := ih hpos hdiv
    rw [decimal_of_le hn, List.length_append, List.length_singleton]
    omega

/-! ### `strtol` -/

/-- `isspace` in the C locale. -/
def isSpace (c : UInt8) : Bool := c = 32 || (9 ≤ c && c ≤ 13)

/-- The value of `c` as a digit of a base up to 36; a byte that is no digit has a value above. -/
def digitVal (c : UInt8) : ℕ :=
  if 48 ≤ c ∧ c ≤ 57 then c.toNat - 48
  else if 97 ≤ c ∧ c ≤ 122 then c.toNat - 87
  else if 65 ≤ c ∧ c ≤ 90 then c.toNat - 55
  else 36

def ofDigits (base : ℕ) (ds : Bytes) : ℕ := ds.foldl (fun n c => n * base + digitVal c) 0

/-- The base of an integer constant and its text from the first digit on: `0x` and `0b` count as
prefixes only when a digit of that base follows. -/
def intPrefix : Bytes → ℕ × Bytes
  | c :: x :: d :: s =>
    if c = 48 ∧ (x = 120 ∨ x = 88) ∧ digitVal d < 16 then (16, d :: s)
    else if c = 48 ∧ (x = 98 ∨ x = 66) ∧ digitVal d < 2 then (2, d :: s)
    else if c = 48 then (8, c :: x :: d :: s)
    else (10, c :: x :: d :: s)
  | c :: s => if c = 48 then (8, c :: s) else (10, c :: s)
  | [] => (10, [])

def signPrefix : Bytes → Bool × Bytes
  | c :: s => if c = 45 then (true, s) else if c = 43 then (false, s) else (false, c :: s)
  | [] => (false, [])

abbrev LONG_MAX : ℤ := 2 ^ 63 - 1
abbrev LONG_MIN : ℤ := -2 ^ 63

/-- `strtol(s, &end, 0)`: the value, the text at `end`, and whether `errno` is `ERANGE`. -/
def strtol0 (s : Bytes) : ℤ × Bytes × Bool :=
  let (neg, t) := signPrefix (s.dropWhile isSpace)
  let (base, u) := intPrefix t
  let ds := u.takeWhile fun c => digitVal c < base
  let v : ℤ := if neg then -(ofDigits base ds : ℤ) else ofDigits base ds
  if ds = [] then (0, s, false)
  else if v > LONG_MAX then (LONG_MAX, u.drop ds.length, true)
  else if v < LONG_MIN then (LONG_MIN, u.drop ds.length, true)
  else (v, u.drop ds.length, false)

theorem digitVal_digit {d : ℕ} (h : d < 10) : digitVal (digit d) = d := by
  interval_cases d <;> decide

theorem digitVal_of_mem_decimal {n : ℕ} {c : UInt8} (h : c ∈ decimal n) : digitVal c < 10 := by
  obtain ⟨d, hd, rfl⟩ := mem_decimal h
  rwa [digitVal_digit hd]

theorem ofDigits_decimal (n : ℕ) : ofDigits 10 (decimal n) = n := by
  induction n using decimal_induction with
  | small n hn => simp [decimal_of_lt hn, ofDigits, digitVal_digit hn]
  | step n hn ih =>
    have hd : n % 10 < 10 := Nat.mod_lt n (by omega)
    unfold ofDigits at ih ⊢
    rw [decimal_of_le hn, List.foldl_append, ih]
    simp only [List.foldl_cons, List.foldl_nil, digitVal_digit hd]
    omega

theorem intPrefix_of_ne {c : UInt8} {s : Bytes} (h : c ≠ 48) : intPrefix (c :: s) = (10, c :: s) := by
  rcases s with _ | ⟨x, _ | ⟨d, s⟩⟩ <;> simp [intPrefix, h]

/-- **What is printed is read back**, as far as it fits a `long`. -/
theorem strtol0_decimal_eq (n : ℕ) : strtol0 (decimal n) =
    if (n : ℤ) > LONG_MAX then (LONG_MAX, [], true) else ((n : ℤ), [], false) := by
  rcases Nat.eq_zero_or_pos n with rfl | hpos
  · decide
  obtain ⟨d, hd, hd0, r, hr⟩ := head_decimal hpos
  have hspace : isSpace (digit d) = false := by interval_cases d <;> decide
  have hne : digit d ≠ 45 ∧ digit d ≠ 43 ∧ digit d ≠ 48 := by interval_cases d <;> decide
  have hdrop : (decimal n).dropWhile isSpace = decimal n := by rw [hr]; simp [hspace]
  have hsign : signPrefix (decimal n) = (false, decimal n) := by
    rw [hr]
    simp [signPrefix, hne.1, hne.2.1]
  have hbase : intPrefix (decimal n) = (10, decimal n) := by
    rw [hr]
    exact intPrefix_of_ne hne.2.2
  have htake : (decimal n).takeWhile (fun c => digitVal c < 10) = decimal n :=
    List.takeWhile_eq_self_iff.2 fun c hc => by simpa using digitVal_of_mem_decimal hc
  have hmin : ¬ ((n : ℤ) < LONG_MIN) := by simp only [LONG_MIN]; omega
  simp only [strtol0, hdrop, hsign, hbase, htake, decimal_ne_nil, ofDigits_decimal, if_false,
    Bool.false_eq_true, hmin, List.drop_length]

theorem strtol0_decimal {n : ℕ} (h : n < 2 ^ 63) : strtol0 (decimal n) = ((n : ℤ), [], false) := by
  have hmax : ¬ ((n : ℤ) > LONG_MAX) := by
    simp only [LONG_MAX]
    omega
  rw [strtol0_decimal_eq, if_neg hmax]

end HttpServer.Lib

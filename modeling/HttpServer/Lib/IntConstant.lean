import HttpServer.Lib.Decimal

/-!
# The language of `strtol` with base 0

`IntDigits` and `IntConstant` say what an integer constant is and what its value is, without
reference to how it is read; `strtol0` reads a whole text as a number in range exactly when it is a
constant of that value in range (`strtol0_accepts`).
-/

namespace HttpServer.Lib

/-- An unsigned integer constant and its value: decimal, octal, hexadecimal or binary. -/
inductive IntDigits : Bytes → ℕ → Prop
  | dec {c : UInt8} {s : Bytes} (hc : c ≠ 48) (hs : ∀ x ∈ c :: s, digitVal x < 10) :
      IntDigits (c :: s) (ofDigits 10 (c :: s))
  | oct {s : Bytes} (hs : ∀ x ∈ s, digitVal x < 8) : IntDigits (48 :: s) (ofDigits 8 (48 :: s))
  | hex {x d : UInt8} {s : Bytes} (hx : x = 120 ∨ x = 88) (hs : ∀ x ∈ d :: s, digitVal x < 16) :
      IntDigits (48 :: x :: d :: s) (ofDigits 16 (d :: s))
  | bin {x d : UInt8} {s : Bytes} (hx : x = 98 ∨ x = 66) (hs : ∀ x ∈ d :: s, digitVal x < 2) :
      IntDigits (48 :: x :: d :: s) (ofDigits 2 (d :: s))

/-- An integer constant with its sign, after white space, and its value. -/
inductive IntConstant : Bytes → ℤ → Prop
  | unsigned {ws s : Bytes} {n : ℕ} (hws : ∀ c ∈ ws, isSpace c = true) (h : IntDigits s n) :
      IntConstant (ws ++ s) n
  | plus {ws s : Bytes} {n : ℕ} (hws : ∀ c ∈ ws, isSpace c = true) (h : IntDigits s n) :
      IntConstant (ws ++ 43 :: s) n
  | minus {ws s : Bytes} {n : ℕ} (hws : ∀ c ∈ ws, isSpace c = true) (h : IntDigits s n) :
      IntConstant (ws ++ 45 :: s) (-n)

section Digits

variable {s t ws : Bytes} {n : ℕ}

theorem digitVal_lt_ten {c : UInt8} (h : digitVal c < 10) : 48 ≤ c.toNat ∧ c.toNat ≤ 57 := by
  simp only [digitVal, UInt8.le_iff_toNat_le, UInt8.reduceToNat] at h
  split at h
  · assumption
  · split at h
    · omega
    · split at h <;> omega

theorem of_digitVal {c : UInt8} (h : digitVal c < 10) : isSpace c = false ∧ c ≠ 43 ∧ c ≠ 45 := by
  obtain ⟨hlo, hhi⟩ := digitVal_lt_ten h
  obtain ⟨n, hn, rfl⟩ : ∃ n, n = c.toNat ∧ c = n.toUInt8 := ⟨_, rfl, (UInt8.ofNat_toNat).symm⟩
  rw [← hn] at hlo hhi
  interval_cases n <;> decide

theorem IntDigits.head (h : IntDigits s n) : ∃ c r, s = c :: r ∧ digitVal c < 10 := by
  cases h with
  | dec hc hs => exact ⟨_, _, rfl, hs _ (by simp)⟩
  | oct hs => exact ⟨_, _, rfl, by decide⟩
  | hex hx hs => exact ⟨_, _, rfl, by decide⟩
  | bin hx hs => exact ⟨_, _, rfl, by decide⟩

/-- The prefix fixes the base, and the digits of a constant are what follows it. -/
theorem IntDigits.intPrefix (h : IntDigits s n) : (intPrefix s).2 ≠ [] ∧
    (∀ c ∈ (intPrefix s).2, digitVal c < (intPrefix s).1) ∧
    n = ofDigits (intPrefix s).1 (intPrefix s).2 := by
  cases h with
  | dec hc hs =>
    rw [intPrefix_of_ne hc]
    exact ⟨by simp, hs, rfl⟩
  | @oct s hs =>
    have hbase : Lib.intPrefix (48 :: s) = (8, 48 :: s) := by
      rcases s with _ | ⟨x, _ | ⟨d, s⟩⟩
      · rfl
      · rfl
      · have hx : digitVal x < 8 := hs x (by simp)
        have hx' : ¬ (x = 120 ∨ x = 88) ∧ ¬ (x = 98 ∨ x = 66) := by
          constructor <;> rintro (rfl | rfl) <;> revert hx <;> decide
        simp [Lib.intPrefix, hx'.1, hx'.2]
    rw [hbase]
    refine ⟨by simp, ?_, rfl⟩
    intro c hc
    rcases List.mem_cons.1 hc with rfl | hc
    · show digitVal 48 < 8
      decide
    · exact hs c hc
  | @hex x d s hx hs =>
    have hbase : Lib.intPrefix (48 :: x :: d :: s) = (16, d :: s) := by
      simp [Lib.intPrefix, hx, hs d (by simp)]
    rw [hbase]
    exact ⟨by simp, hs, rfl⟩
  | @bin x d s hx hs =>
    have hx' : ¬ (x = 120 ∨ x = 88) := by rcases hx with rfl | rfl <;> decide
    have hbase : Lib.intPrefix (48 :: x :: d :: s) = (2, d :: s) := by
      simp [Lib.intPrefix, hx, hx', hs d (by simp)]
    rw [hbase]
    exact ⟨by simp, hs, rfl⟩

theorem intDigits_of_intPrefix (hne : (intPrefix s).2 ≠ [])
    (hs : ∀ c ∈ (intPrefix s).2, digitVal c < (intPrefix s).1) :
    IntDigits s (ofDigits (intPrefix s).1 (intPrefix s).2) := by
  revert hne hs
  fun_cases intPrefix s with
  | case1 c x d s h =>
    intro _ hs
    obtain ⟨rfl, hx, -⟩ := h
    exact .hex hx hs
  | case2 c x d s _ h =>
    intro _ hs
    obtain ⟨rfl, hx, -⟩ := h
    exact .bin hx hs
  | case3 x d s =>
    intro _ hs
    exact .oct fun c hc => hs c (List.mem_cons_of_mem _ hc)
  | case4 c x d s _ _ hc =>
    intro _ hs
    exact .dec hc hs
  | case5 s =>
    intro _ hs
    exact .oct fun c hc => hs c (List.mem_cons_of_mem _ hc)
  | case6 c s _ hc =>
    intro _ hs
    exact .dec hc hs
  | case7 =>
    intro hne
    exact absurd rfl hne

end Digits

section Constant

variable {s ws : Bytes} {v : ℤ} {n : ℕ}

theorem dropWhile_spaces {c : UInt8} {r : Bytes} (hws : ∀ c ∈ ws, isSpace c = true)
    (hc : isSpace c = false) : (ws ++ c :: r).dropWhile isSpace = c :: r := by
  rw [List.dropWhile_append_of_pos hws, List.dropWhile_cons_of_neg (by simp [hc])]

theorem intConstant_iff : IntConstant s v ↔ ∃ n,
    IntDigits (signPrefix (s.dropWhile isSpace)).2 n ∧
      v = if (signPrefix (s.dropWhile isSpace)).1 then -(n : ℤ) else n := by
  constructor
  · intro h
    cases h with
    | @unsigned ws s n hws h =>
      obtain ⟨c, r, rfl, hc⟩ := h.head
      obtain ⟨hspace, hplus, hminus⟩ := of_digitVal hc
      rw [dropWhile_spaces hws hspace]
      simp only [signPrefix, hminus, hplus, if_false]
      exact ⟨n, h, by simp⟩
    | @plus ws s n hws h =>
      rw [dropWhile_spaces hws (by decide)]
      exact ⟨n, h, rfl⟩
    | @minus ws s n hws h =>
      rw [dropWhile_spaces hws (by decide)]
      exact ⟨n, h, rfl⟩
  · rintro ⟨n, h, rfl⟩
    have hws : ∀ c ∈ s.takeWhile isSpace, isSpace c = true := fun c => List.mem_takeWhile_imp
    have hs := (List.takeWhile_append_dropWhile (p := isSpace) (l := s)).symm
    revert h hs
    generalize s.takeWhile isSpace = ws at hws
    generalize s.dropWhile isSpace = t
    rcases t with _ | ⟨c, t⟩
    · intro h
      cases h
    · intro h hs
      by_cases hminus : c = 45
      · simp only [signPrefix, hminus, if_true] at h hs ⊢
        rw [hs]
        exact .minus hws h
      · by_cases hplus : c = 43
        · simp only [signPrefix, hplus, show ¬ (43 : UInt8) = 45 by decide, if_true, if_false]
            at h hs ⊢
          rw [hs]
          exact .plus hws h
        · simp only [signPrefix, hminus, hplus, if_false] at h ⊢
          rw [hs]
          exact .unsigned hws h

theorem IntDigits.unique {m : ℕ} (h : IntDigits s n) (h' : IntDigits s m) : n = m :=
  h.intPrefix.2.2.trans h'.intPrefix.2.2.symm

theorem IntConstant.unique {w : ℤ} (h : IntConstant s v) (h' : IntConstant s w) : v = w := by
  obtain ⟨n, hn, rfl⟩ := intConstant_iff.1 h
  obtain ⟨m, hm, rfl⟩ := intConstant_iff.1 h'
  rw [hn.unique hm]

theorem IntConstant.ne_nil (h : IntConstant s v) : s ≠ [] := by
  obtain ⟨n, hn, -⟩ := intConstant_iff.1 h
  rintro rfl
  cases hn

/-- Decimal digits are a constant with their decimal value, unless a leading zero makes it octal. -/
theorem intConstant_decimal {c : UInt8} {ds : Bytes} (hs : s = c :: ds) (hc : c ≠ 48 ∨ ds = [])
    (hdigits : ∀ x ∈ s, 48 ≤ x ∧ x ≤ 57) : IntConstant s (ofDigits 10 s) := by
  have hval : ∀ x ∈ s, digitVal x < 10 := by
    intro x hx
    obtain ⟨hlo, hhi⟩ := hdigits x hx
    unfold digitVal
    rw [if_pos ⟨hlo, hhi⟩]
    simp only [UInt8.le_iff_toNat_le, UInt8.reduceToNat] at hlo hhi
    omega
  subst hs
  have hws : ∀ c ∈ ([] : Bytes), isSpace c = true := by simp
  by_cases h48 : c = 48
  · obtain rfl : ds = [] := hc.resolve_left (not_not.2 h48)
    subst h48
    exact .unsigned hws (.oct (s := []) (by simp))
  · exact .unsigned hws (.dec h48 hval)

/-- The clamping of `strtol`: a value is returned without an error when it is in range. -/
theorem clamp_iff {ds rest : Bytes} {w : ℤ} (hs : s ≠ []) :
    (if ds = [] then ((0 : ℤ), s, false)
      else if w > LONG_MAX then (LONG_MAX, rest, true)
      else if w < LONG_MIN then (LONG_MIN, rest, true)
      else (w, rest, false)) = (v, [], false) ↔
    ds ≠ [] ∧ rest = [] ∧ v = w ∧ LONG_MIN ≤ v ∧ v ≤ LONG_MAX := by
  constructor
  · intro h
    split_ifs at h with hds hmax hmin
    · exact absurd (congrArg (·.2.1) h) hs
    · exact absurd (congrArg (·.2.2) h) (by simp)
    · exact absurd (congrArg (·.2.2) h) (by simp)
    · obtain ⟨hw, hrest⟩ := Prod.mk.inj h
      exact ⟨hds, (Prod.mk.inj hrest).1, hw.symm, by omega, by omega⟩
  · rintro ⟨hds, hrest, hw, hmin, hmax⟩
    rw [if_neg hds, if_neg (by omega), if_neg (by omega), hw, hrest]

theorem drop_takeWhile_eq_nil {p : UInt8 → Bool} {u : Bytes} :
    u.drop (u.takeWhile p).length = [] ↔ ∀ c ∈ u, p c = true := by
  have hdrop : u.drop (u.takeWhile p).length = u.dropWhile p := by
    calc u.drop (u.takeWhile p).length
        = (u.takeWhile p ++ u.dropWhile p).drop (u.takeWhile p).length := by
          rw [List.takeWhile_append_dropWhile]
      _ = u.dropWhile p := List.drop_left
  rw [hdrop, List.dropWhile_eq_nil_iff]

/-- `strtol` with base 0 reads the whole of a non-empty text as a number in range exactly when the
text is an integer constant with this value. -/
theorem strtol0_accepts (hs : s ≠ []) :
    strtol0 s = (v, [], false) ↔ IntConstant s v ∧ LONG_MIN ≤ v ∧ v ≤ LONG_MAX := by
  rw [intConstant_iff]
  unfold strtol0
  simp only
  generalize signPrefix (s.dropWhile isSpace) = sign
  rw [clamp_iff hs, drop_takeWhile_eq_nil]
  constructor
  · rintro ⟨hds, hall, hv, hrange⟩
    rw [List.takeWhile_eq_self_iff.2 hall] at hds hv
    exact ⟨⟨_, intDigits_of_intPrefix hds (by simpa using hall), hv⟩, hrange⟩
  · rintro ⟨⟨n, hn, hv⟩, hrange⟩
    obtain ⟨hne, hall, rfl⟩ := hn.intPrefix
    have hall' : ∀ c ∈ (intPrefix sign.2).2,
        (fun c => decide (digitVal c < (intPrefix sign.2).1)) c = true := by simpa using hall
    rw [List.takeWhile_eq_self_iff.2 hall']
    exact ⟨hne, hall', hv, hrange⟩

end Constant

end HttpServer.Lib

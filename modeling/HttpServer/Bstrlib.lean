import HttpServer.Lib.CInt
import HttpServer.Lib.CMemory
import HttpServer.Lib.Smear

/-!
# The strings of `bstrlib.c`

The functions of the string library that the server calls, with their `int` counters, the sizes that
they allocate and the answers of `malloc` and `realloc`, any of which may be NULL.

`Holds b s` says that the header `b` and its block are in order and hold the bytes `s`.  Whatever the
allocator answers, every function keeps its strings in order, and one that fails leaves them as they
are (`callAll_texts`).  The two places where an `int` overflows unnoticed are exact conditions:
a text of 2 GiB or more (`bfromcstr_safe_iff`), and a concatenation whose length is just `INT_MAX`
(`bconcat_safe_iff`).
-/

namespace HttpServer

open Lib

/-! ### The allocator -/

/-- What the calls of `malloc` and `realloc` are going to answer: NULL, or memory with the contents
given. -/
abbrev Answers : Type := ℕ → Option (ℕ → UInt8)

/-- A computation that allocates, and that ends at an access outside a block. -/
abbrev BstrM (α : Type) : Type := StateT Answers (Except Fault) α

def answered : BstrM (Option (ℕ → UInt8)) := fun answers => .ok (answers 0, fun k => answers (k + 1))

def bstrAlloc (size : ℤ) : BstrM (Option Bytes) := do
  let answer ← answered
  pure (answer.map fun junk => (List.range (toSize size)).map junk)

def bstrRealloc (block : Bytes) (size : ℤ) : BstrM (Option Bytes) := do
  let answer ← answered
  pure (answer.map fun junk => reallocBytes junk block (toSize size))

def storeBytes (block : Bytes) (p : ℕ) (bs : Bytes) : BstrM Bytes := fun answers =>
  if p + bs.length ≤ block.length then .ok (storeAt block p bs, answers) else .error .outOfBounds

def loadBytes (block : Bytes) (n : ℕ) : BstrM Bytes := fun answers =>
  (readBytes n block).map fun bs => (bs, answers)

/-! ### The functions -/

abbrev BSTR_ERR : ℤ := -1

abbrev BSTR_OK : ℤ := 0

/-- `struct tagbstring`; `data` is NULL or the bytes of its allocation. -/
structure Tagbstring where
  mlen : ℤ
  slen : ℤ
  data : Option Bytes

/-- `snapUpSize`: the shifts are those of a 32 bit `unsigned int`. -/
def snapUpSize (i : ℤ) : ℤ :=
  if i < 8 then 8
  else
    let j := i.toNat
    let j := j ||| (j >>> 1)
    let j := j ||| (j >>> 2)
    let j := j ||| (j >>> 4)
    let j := j ||| (j >>> 8)
    let j := j ||| (j >>> 16)
    -- Least power of two greater than i
    let j := j + 1
    if toInt j ≥ i then toInt j else i

/-- The label `reallocStrategy` of `balloc`: the block and the size that it has. -/
def reallocStrategy (data : Bytes) (len olen : ℤ) : BstrM (Option (Bytes × ℤ)) := do
  match ← bstrRealloc data len with
  | some x => pure (some (x, len))
  | none =>
    match ← bstrRealloc data olen with
    | some x => pure (some (x, olen))
    | none => pure none

/-- The larger block of `balloc`: moved by `realloc` when the text nearly fills the old one, and else
copied. -/
def ballocBlock (b : Tagbstring) (data : Bytes) (len olen : ℤ) : BstrM (Option (Bytes × ℤ)) :=
  if toInt (7 * b.mlen) < toInt (8 * b.slen) then reallocStrategy data len olen
  else do
    match ← bstrAlloc len with
    | none => reallocStrategy data len olen
    | some x =>
      let x ← storeBytes x 0 (← loadBytes data (toSize b.slen))
      pure (some (x, len))

def balloc (b : Tagbstring) (olen : ℤ) : BstrM (ℤ × Tagbstring) :=
  match b.data with
  | none => pure (BSTR_ERR, b)
  | some data =>
    if b.slen < 0 ∨ b.mlen ≤ 0 ∨ b.mlen < b.slen ∨ olen ≤ 0 then pure (BSTR_ERR, b)
    else if olen ≥ b.mlen then
      let len := snapUpSize olen
      if len ≤ b.mlen then pure (BSTR_OK, b)
      else do
        match ← ballocBlock b data len olen with
        | none => pure (BSTR_ERR, b)
        | some (x, len) =>
          let x ← storeBytes x (toSize b.slen) [0]
          pure (BSTR_OK, { b with data := some x, mlen := len })
    else pure (BSTR_OK, b)

def bfromcstr (str : Option Bytes) : BstrM (Option Tagbstring) :=
  match str with
  | none => pure none
  | some str =>
    let j := str.length
    let i := snapUpSize (toInt (j + (2 - if j ≠ 0 then 1 else 0)))
    if i ≤ toInt j then pure none
    else do
      -- the header, which is given back when there is no memory for the data
      match ← answered with
      | none => pure none
      | some _ =>
        match ← bstrAlloc i with
        | none => pure none
        | some data =>
          let data ← storeBytes data 0 (str ++ [0])
          pure (some { mlen := i, slen := toInt j, data := some data })

/-- The block of `bstrcpy`: a tight one when there is no larger one. -/
def bstrcpyBlock (i j : ℤ) : BstrM (Option (Bytes × ℤ)) := do
  match ← bstrAlloc j with
  | some x => pure (some (x, j))
  | none =>
    match ← bstrAlloc (toInt (i + 1)) with
    | some x => pure (some (x, toInt (i + 1)))
    | none => pure none

def bstrcpy (b : Tagbstring) : BstrM (Option Tagbstring) :=
  match b.data with
  | none => pure none
  | some data =>
    if b.slen < 0 then pure none
    else do
      match ← answered with
      | none => pure none
      | some _ =>
        let i := b.slen
        match ← bstrcpyBlock i (snapUpSize (toInt (i + 1))) with
        | none => pure none
        | some (x, j) =>
          let x ← storeBytes x 0 (← loadBytes data (toSize i))
          let x ← storeBytes x (toSize i) [0]
          pure (some { mlen := j, slen := i, data := some x })

/-- The second argument of `bconcat`: another string, or the first one itself. -/
inductive Operand where
  | other (b : Tagbstring)
  | itself

def Operand.header (b0 : Tagbstring) : Operand → Tagbstring
  | .other b => b
  | .itself => b0

/-- The bytes that `bconcat` appends: those of the string itself are copied before its block moves. -/
def bconcatAux (b0 : Tagbstring) (data1 : Bytes) : Operand → BstrM (Option Bytes)
  | .itself => do pure ((← bstrcpy b0).bind (·.data))
  | .other _ => pure (some data1)

/-- `bconcat` where there is too little room: the string with more room, its block and the bytes to
append. -/
def bconcatRoom (b0 : Tagbstring) (data1 : Bytes) (operand : Operand) (olen : ℤ) :
    BstrM (Option (Tagbstring × Bytes × Bytes)) := do
  match ← bconcatAux b0 data1 operand with
  | none => pure none
  | some aux =>
    let (rc, b0) ← balloc b0 olen
    pure (if rc ≠ BSTR_OK then none else b0.data.map fun data0 => (b0, data0, aux))

def bconcatCopy (b0 : Tagbstring) (data0 aux : Bytes) (d len sum : ℤ) : BstrM (ℤ × Tagbstring) := do
  let data ← storeBytes data0 (toSize d) (← loadBytes aux (toSize len))
  let data ← storeBytes data (toSize sum) [0]
  pure (BSTR_OK, { b0 with data := some data, slen := sum })

/-- `bconcat`: the signs of the four counters are tested in one `|`. -/
def bconcat (b0 : Tagbstring) (operand : Operand) : BstrM (ℤ × Tagbstring) :=
  let b1 := operand.header b0
  match b0.data, b1.data with
  | some data0, some data1 =>
    let d := b0.slen
    let len := b1.slen
    let sum := toInt (d + len)
    if d < 0 ∨ toInt (b0.mlen - d) < 0 ∨ len < 0 ∨ sum < 0 then pure (BSTR_ERR, b0)
    else if b0.mlen ≤ toInt (sum + 1) then do
      match ← bconcatRoom b0 data1 operand (toInt (sum + 1)) with
      | none => pure (BSTR_ERR, b0)
      | some (b0, data0, aux) => bconcatCopy b0 data0 aux d len sum
    else bconcatCopy b0 data0 data1 d len sum
  | _, _ => pure (BSTR_ERR, b0)

/-! ### Sizes -/

theorem snapUpSize_small {i : ℤ} (h : i < 8) : snapUpSize i = 8 := if_pos h

/-- The least power of two above `i`, or `i` itself when that is no `int`. -/
theorem snapUpSize_eq {i : ℤ} (h8 : 8 ≤ i) (hi : i < 2 ^ 31) :
    snapUpSize i = if i < 2 ^ 30 then 2 ^ (Nat.log2 i.toNat + 1) else i := by
  obtain ⟨n, rfl⟩ := Int.eq_ofNat_of_zero_le (show 0 ≤ i by omega)
  have hn : n ≠ 0 := by omega
  have hlt : n < 2 ^ 31 := by omega
  have hspread := ((((covers_self n).spread.spread).spread).spread).spread.eq hn (by omega)
  have hpos : 0 < 2 ^ (Nat.log2 n + 1) := Nat.two_pow_pos _
  unfold snapUpSize
  rw [if_neg (by omega)]
  simp only [Int.toNat_natCast]
  rw [hspread, Nat.sub_add_cancel hpos]
  by_cases hhalf : n < 2 ^ 30
  · have hlog : Nat.log2 n < 30 := (Nat.log2_lt hn).2 hhalf
    have hle : 2 ^ (Nat.log2 n + 1) ≤ 2 ^ 30 := Nat.pow_le_pow_right (by decide) hlog
    have hself : n < 2 ^ (Nat.log2 n + 1) := Nat.lt_log2_self
    rw [toInt_of_fits (by omega), if_pos (by omega), if_pos (by omega)]
    push_cast
    rfl
  · have hlog : Nat.log2 n = 30 := by
      have hge : 30 ≤ Nat.log2 n := (Nat.le_log2 hn).2 (by omega)
      have hlt : Nat.log2 n < 31 := (Nat.log2_lt hn).2 hlt
      omega
    rw [hlog, if_neg, if_neg (by omega)]
    have hwrap : toInt ((2 ^ (30 + 1) : ℕ) : ℤ) = -2 ^ 31 := by decide
    rw [hwrap]
    omega

theorem snapUpSize_bounds {i : ℤ} (hi : i < 2 ^ 31) :
    i ≤ snapUpSize i ∧ 8 ≤ snapUpSize i ∧ snapUpSize i < 2 ^ 31 := by
  by_cases h8 : i < 8
  · rw [snapUpSize_small h8]
    omega
  rw [snapUpSize_eq (by omega) hi]
  by_cases hhalf : i < 2 ^ 30
  · rw [if_pos hhalf]
    obtain ⟨n, rfl⟩ := Int.eq_ofNat_of_zero_le (show 0 ≤ i by omega)
    rw [Int.toNat_natCast]
    have hlog : Nat.log2 n < 30 := (Nat.log2_lt (by omega)).2 (by omega)
    have hle : 2 ^ (Nat.log2 n + 1) ≤ 2 ^ 30 := Nat.pow_le_pow_right (by decide) hlog
    have hself : n < 2 ^ (Nat.log2 n + 1) := Nat.lt_log2_self
    have hcast : ((2 : ℤ) ^ (Nat.log2 n + 1)) = ((2 ^ (Nat.log2 n + 1) : ℕ) : ℤ) := by push_cast; rfl
    rw [hcast]
    omega
  · rw [if_neg hhalf]
    omega

theorem toSize_of_int {z : ℤ} (h0 : 0 ≤ z) (h : z < 2 ^ 31) : (toSize z : ℤ) = z := by
  unfold toSize
  omega

theorem toInt_of_int {z : ℤ} (h0 : 0 ≤ z) (h : z < 2 ^ 31) : toInt z = z := by
  obtain ⟨n, rfl⟩ := Int.eq_ofNat_of_zero_le h0
  exact toInt_of_fits (by omega)

/-! ### Whatever the allocator answers -/

section Yields

variable {α β : Type} {grants : Prop} {prog : BstrM α} {f : α → BstrM β} {P P' : α → Prop}
  {R : β → Prop} {a : α} {block bs : Bytes} {p n : ℕ}

/-- Every call is granted, when `grants` holds. -/
def Grants (grants : Prop) (answers : Answers) : Prop := grants → ∀ k, (answers k).isSome = true

/-- Whatever the allocator answers, the computation stays in its blocks and its result is as in `P`;
what it answers is not NULL when `grants` holds. -/
def Yields (grants : Prop) (prog : BstrM α) (P : α → Prop) : Prop :=
  ∀ answers, Grants grants answers → ∃ a rest, prog answers = .ok (a, rest) ∧ Grants grants rest ∧ P a

theorem Yields.ret (h : P a) : Yields grants (pure a : BstrM α) P :=
  fun answers hg => ⟨a, answers, rfl, hg, h⟩

theorem Yields.bind (h : Yields grants prog P) (hf : ∀ a, P a → Yields grants (f a) R) :
    Yields grants (prog >>= f) R := by
  intro answers hg
  obtain ⟨a, rest, hrun, hrest, ha⟩ := h answers hg
  obtain ⟨b, rest', hrun', hrest', hb⟩ := hf a ha rest hrest
  refine ⟨b, rest', ?_, hrest', hb⟩
  show (prog answers >>= fun q => f q.1 q.2) = _
  rw [hrun]
  exact hrun'

theorem Yields.imp (h : Yields grants prog P) (hP : ∀ a, P a → P' a) : Yields grants prog P' := by
  intro answers hg
  obtain ⟨a, rest, hrun, hrest, ha⟩ := h answers hg
  exact ⟨a, rest, hrun, hrest, hP a ha⟩

theorem yields_answered : Yields grants answered fun r => grants → r.isSome = true :=
  fun answers hg => ⟨answers 0, _, rfl, fun h k => hg h (k + 1), fun h => hg h 0⟩

theorem yields_alloc (size : ℤ) : Yields grants (bstrAlloc size) fun r =>
    (grants → r.isSome = true) ∧ ∀ x, r = some x → x.length = toSize size := by
  refine yields_answered.bind fun answer hanswer => .ret ⟨fun h => ?_, ?_⟩
  · rw [Option.isSome_map]
    exact hanswer h
  · cases answer with
    | none => exact nofun
    | some junk =>
      rintro x ⟨⟩
      rw [List.length_map, List.length_range]

theorem yields_realloc (block : Bytes) (size : ℤ) : Yields grants (bstrRealloc block size) fun r =>
    (grants → r.isSome = true) ∧ ∀ x, r = some x → x.length = toSize size ∧
      ∀ k ≤ block.length, k ≤ toSize size → x.take k = block.take k := by
  refine yields_answered.bind fun answer hanswer => .ret ⟨fun h => ?_, ?_⟩
  · rw [Option.isSome_map]
    exact hanswer h
  · cases answer with
    | none => exact nofun
    | some junk =>
      rintro x ⟨⟩
      exact ⟨reallocBytes_length, fun k hk hsize => reallocBytes_take hk hsize⟩

theorem yields_store (h : p + bs.length ≤ block.length) :
    Yields grants (storeBytes block p bs) fun x => x = storeAt block p bs :=
  fun answers hg => ⟨_, answers, if_pos h, hg, rfl⟩

theorem yields_load (h : n ≤ block.length) :
    Yields grants (loadBytes block n) fun bs => bs = block.take n :=
  fun answers hg => ⟨block.take n, answers, by simp [loadBytes, readBytes, h, Except.map], hg, rfl⟩

end Yields

/-! ### Strings in order -/

/-- The header is in order, and its block holds the bytes `s`, a NUL and room. -/
structure Tagbstring.Holds (b : Tagbstring) (s : Bytes) : Prop where
  block : ∃ rest, b.data = some (s ++ 0 :: rest) ∧ b.mlen = (s ++ 0 :: rest).length
  slen : b.slen = s.length
  fits : b.mlen < 2 ^ 31

section Specs

variable {grants : Prop} {b b0 : Tagbstring} {s t x : Bytes} {olen : ℤ} {operand : Operand}

theorem Tagbstring.Holds.lt (h : b.Holds s) : (s.length : ℤ) < b.mlen := by
  obtain ⟨rest, -, hmlen⟩ := h.block
  rw [hmlen, List.length_append, List.length_cons]
  omega

theorem holds_terminated (htake : x.take s.length = s) (hlt : s.length < x.length)
    (hfits : x.length < 2 ^ 31) :
    Tagbstring.Holds ⟨x.length, s.length, some (storeAt x s.length [0])⟩ s := by
  have hroom : s.length + [(0 : UInt8)].length ≤ x.length := hlt
  have hfront : (storeAt x s.length [0]).take (s.length + 1) = s ++ [0] := by
    rw [show s.length + 1 = s.length + [(0 : UInt8)].length from rfl, storeAt_take hroom, htake]
  have hblock : storeAt x s.length [0] = s ++ 0 :: (storeAt x s.length [0]).drop (s.length + 1) := by
    have h := List.take_append_drop (s.length + 1) (storeAt x s.length [0])
    rw [hfront, List.append_assoc] at h
    exact h.symm
  refine ⟨⟨(storeAt x s.length [0]).drop (s.length + 1), congrArg some hblock, ?_⟩, rfl, ?_⟩
  · rw [← hblock, storeAt_length hroom]
  · show (x.length : ℤ) < 2 ^ 31
    omega

/-- A larger block with the text in front, or NULL where that can be. -/
def Larger (grants : Prop) (s : Bytes) (olen : ℤ) (r : Option (Bytes × ℤ)) : Prop :=
  (grants → r.isSome = true) ∧ ∀ x n, r = some (x, n) →
    (x.length : ℤ) = n ∧ olen ≤ n ∧ n < 2 ^ 31 ∧ x.take s.length = s

theorem yields_reallocStrategy {data : Bytes} {len : ℤ} (hlen : olen ≤ len) (hfits : len < 2 ^ 31)
    (hs : (s.length : ℤ) < olen) (hdata : ∃ rest, data = s ++ rest) :
    Yields grants (reallocStrategy data len olen) (Larger grants s olen) := by
  obtain ⟨rest, rfl⟩ := hdata
  -- a block that `realloc` gives
  have hgiven : ∀ (x : Bytes) (n : ℤ), olen ≤ n → n < 2 ^ 31 → x.length = toSize n →
      (∀ k ≤ (s ++ rest).length, k ≤ toSize n → x.take k = (s ++ rest).take k) →
      Larger grants s olen (some (x, n)) := by
    intro x n hle hn hx hkeep
    have hsize := toSize_of_int (by omega) hn
    refine ⟨fun _ => rfl, ?_⟩
    rintro x' n' ⟨⟩
    refine ⟨by rw [hx, hsize], hle, hn, ?_⟩
    rw [hkeep s.length (by simp) (by omega), List.take_left]
  refine (yields_realloc _ len).bind fun r hr => ?_
  cases r with
  | some x =>
    obtain ⟨hx, hkeep⟩ := hr.2 x rfl
    exact .ret (hgiven _ _ hlen hfits hx hkeep)
  | none =>
    refine (yields_realloc _ olen).bind fun r hr => ?_
    cases r with
    | some x =>
      obtain ⟨hx, hkeep⟩ := hr.2 x rfl
      exact .ret (hgiven _ _ le_rfl (by omega) hx hkeep)
    | none => exact .ret ⟨hr.1, nofun⟩

theorem yields_ballocBlock {data : Bytes} {len : ℤ} (hlen : olen ≤ len) (hfits : len < 2 ^ 31)
    (hs : (s.length : ℤ) < olen) (hslen : b.slen = s.length) (hdata : ∃ rest, data = s ++ rest) :
    Yields grants (ballocBlock b data len olen) (Larger grants s olen) := by
  have hstrategy : Yields grants (reallocStrategy data len olen) (Larger grants s olen) :=
    yields_reallocStrategy hlen hfits hs hdata
  obtain ⟨rest, rfl⟩ := hdata
  unfold ballocBlock
  by_cases hclose : toInt (7 * b.mlen) < toInt (8 * b.slen)
  · rw [if_pos hclose]
    exact hstrategy
  rw [if_neg hclose]
  refine (yields_alloc len).bind fun answer hx => ?_
  cases answer with
  | none => exact hstrategy
  | some x =>
    have hx := hx.2 x rfl
    have hsize := toSize_of_int (by omega) hfits
    rw [hslen, toSize_of_fits (by omega)]
    refine (yields_load (by simp)).bind fun bs hbs => ?_
    rw [List.take_left] at hbs
    subst hbs
    refine (yields_store (by omega)).bind fun y hy => .ret ⟨fun _ => rfl, ?_⟩
    rintro y' n ⟨⟩
    subst hy
    have htake := storeAt_take (show 0 + bs.length ≤ x.length by omega)
    rw [Nat.zero_add, List.take_zero, List.nil_append] at htake
    rw [storeAt_length (by omega)]
    exact ⟨by omega, hlen, hfits, htake⟩

/-- `balloc` makes room and keeps the text, or fails and leaves the string as it is. -/
theorem yields_balloc (h : b.Holds s) (hpos : 0 < olen) (hfits : olen < 2 ^ 31) :
    Yields grants (balloc b olen) fun r => (r.1 = BSTR_OK ∧ r.2.Holds s ∧ olen ≤ r.2.mlen) ∨
      (r.1 = BSTR_ERR ∧ r.2 = b ∧ ¬ grants) := by
  obtain ⟨rest, hdata, hmlen⟩ := h.block
  have hslen := h.slen
  have hlt := h.lt
  have hb := h.fits
  unfold balloc
  simp only [hdata]
  rw [if_neg (by omega)]
  by_cases hgrow : olen ≥ b.mlen
  · rw [if_pos hgrow]
    obtain ⟨hsnap, -, hsnapFits⟩ := snapUpSize_bounds hfits
    by_cases hroom : snapUpSize olen ≤ b.mlen
    · rw [if_pos hroom]
      exact .ret (Or.inl ⟨rfl, h, hsnap.trans hroom⟩)
    rw [if_neg hroom]
    refine (yields_ballocBlock hsnap hsnapFits (by omega) hslen ⟨0 :: rest, rfl⟩).bind fun r hr => ?_
    cases r with
    | none => exact .ret (Or.inr ⟨rfl, rfl, fun hg => nomatch hr.1 hg⟩)
    | some r =>
      obtain ⟨x, n⟩ := r
      obtain ⟨hx, hle, hn, htake⟩ := hr.2 x n rfl
      have hsize : toSize b.slen = s.length := by
        rw [hslen]
        exact toSize_of_fits (by omega)
      simp only [hsize]
      refine (yields_store (show s.length + 1 ≤ x.length by omega)).bind fun y hy => .ret ?_
      subst hy
      have hholds := holds_terminated htake (by omega) (by omega)
      rw [hx, ← hslen] at hholds
      exact Or.inl ⟨rfl, hholds, hle⟩
  · rw [if_neg hgrow]
    exact .ret (Or.inl ⟨rfl, h, (not_le.1 hgrow).le⟩)

theorem toInt_bounds (z : ℤ) : -2 ^ 31 ≤ toInt z ∧ toInt z < 2 ^ 31 := by
  unfold toInt
  rw [Int.bmod_def]
  omega

theorem bfromcstr_size (hs : s.length + 1 < 2 ^ 31) :
    let i := snapUpSize (toInt (s.length + (2 - if s.length ≠ 0 then 1 else 0)))
    (s.length : ℤ) < i ∧ i < 2 ^ 31 := by
  by_cases hzero : s.length = 0
  · rw [hzero]
    decide
  · have hone : toInt (s.length + (2 - if s.length ≠ 0 then 1 else 0)) = s.length + 1 := by
      rw [if_pos hzero]
      exact toInt_of_int (by omega) (by omega)
    rw [hone]
    obtain ⟨hle, -, hlt⟩ := snapUpSize_bounds (i := (s.length : ℤ) + 1) (by omega)
    exact ⟨by omega, hlt⟩

theorem yields_bfromcstr (hs : s.length < 2 ^ 31) : Yields grants (bfromcstr (some s)) fun r =>
    (grants → s.length + 1 < 2 ^ 31 → r.isSome = true) ∧ ∀ b, r = some b → b.Holds s := by
  unfold bfromcstr
  simp only
  by_cases hlast : s.length + 1 = 2 ^ 31
  · -- the size overflows, and nothing is allocated
    have hlen : s.length = 2 ^ 31 - 1 := by omega
    rw [hlen]
    exact .ret ⟨fun _ hlt => by omega, nofun⟩
  obtain ⟨hlt, hfits⟩ := bfromcstr_size (s := s) (by omega)
  have hlen : toInt s.length = s.length := toInt_of_fits hs
  rw [hlen, if_neg (by omega)]
  refine yields_answered.bind fun answer hanswer => ?_
  cases answer with
  | none => exact .ret ⟨fun hg _ => hanswer hg, nofun⟩
  | some _ =>
    refine (yields_alloc _).bind fun answer hx => ?_
    cases answer with
    | none => exact .ret ⟨fun hg _ => hx.1 hg, nofun⟩
    | some x =>
      have hx := hx.2 x rfl
      have hsize := toSize_of_int (by omega) hfits
      have hroom : 0 + (s ++ [0]).length ≤ x.length := by
        rw [List.length_append, List.length_singleton]
        omega
      refine (yields_store hroom).bind fun y hy => .ret ⟨fun _ _ => rfl, ?_⟩
      rintro b ⟨⟩
      subst hy
      have hfront := storeAt_take hroom
      rw [Nat.zero_add, List.take_zero, List.nil_append] at hfront
      have hblock := List.take_append_drop (s ++ [0]).length (storeAt x 0 (s ++ [0]))
      rw [hfront, List.append_assoc] at hblock
      refine ⟨⟨_, congrArg some hblock.symm, ?_⟩, rfl, hfits⟩
      have hlength := storeAt_length hroom
      rw [← hblock] at hlength
      show _ = (((s ++ ([0] ++ _)).length : ℕ) : ℤ)
      rw [hlength, hx, hsize]

/-- **A C string of 2 GiB or more overruns the block made for it**, but for the lengths that are
`INT_MAX` as an `int`. -/
theorem bfromcstr_safe_iff (s : Bytes) :
    (∀ answers, ∃ r, bfromcstr (some s) answers = .ok r) ↔
      s.length < 2 ^ 31 ∨ toInt s.length = 2 ^ 31 - 1 := by
  constructor
  · intro h
    by_contra hnot
    rw [not_or] at hnot
    obtain ⟨hlong, hmax⟩ := hnot
    obtain ⟨r, hr⟩ := h fun _ => some fun _ => 0
    have hne : s.length ≠ 0 := by omega
    have hbounds := toInt_bounds s.length
    have hnext : toInt (s.length + (2 - if s.length ≠ 0 then 1 else 0)) = toInt s.length + 1 := by
      rw [if_pos hne]
      unfold toInt at hmax hbounds ⊢
      rw [Int.bmod_def] at hmax hbounds ⊢
      rw [Int.bmod_def]
      omega
    obtain ⟨hle, h8, hfits⟩ := snapUpSize_bounds (i := toInt s.length + 1) (by omega)
    have hsize := toSize_of_int (by omega) hfits
    have hover : ¬ 0 + (s ++ [0]).length ≤ ((List.range (toSize (snapUpSize (toInt s.length + 1)))).map
        fun _ => (0 : UInt8)).length := by
      rw [List.length_append, List.length_singleton, List.length_map, List.length_range]
      omega
    simp only [bfromcstr] at hr
    rw [hnext, if_neg (by omega)] at hr
    simp only [answered, bstrAlloc, storeBytes, bind, StateT.bind, Except.bind, pure, StateT.pure,
      Except.pure, Option.map_some, if_neg hover] at hr
    cases hr
  · rintro (hs | hmax) answers
    · obtain ⟨r, rest, hrun, -⟩ := yields_bfromcstr hs answers fun h : False => h.elim
      exact ⟨_, hrun⟩
    · obtain ⟨-, -, hfits⟩ := snapUpSize_bounds (i := toInt (s.length +
        (2 - if s.length ≠ 0 then 1 else 0))) (toInt_bounds _).2
      refine ⟨(none, answers), ?_⟩
      simp only [bfromcstr]
      rw [hmax, if_pos (by omega)]
      rfl

theorem yields_bstrcpyBlock {i j : ℤ} (hi : 0 ≤ i) (hij : i < j) (hj : j < 2 ^ 31) :
    Yields grants (bstrcpyBlock i j) fun r => (grants → r.isSome = true) ∧
      ∀ x n, r = some (x, n) → (x.length : ℤ) = n ∧ i < n ∧ n < 2 ^ 31 := by
  refine (yields_alloc j).bind fun r hr => ?_
  cases r with
  | some x =>
    refine .ret ⟨fun _ => rfl, ?_⟩
    rintro x' n ⟨⟩
    rw [hr.2 x rfl, toSize_of_int (by omega) hj]
    exact ⟨rfl, hij, hj⟩
  | none =>
    have htight : toInt (i + 1) = i + 1 := toInt_of_int (by omega) (by omega)
    refine (yields_alloc _).bind fun r hr => ?_
    cases r with
    | some x =>
      refine .ret ⟨fun _ => rfl, ?_⟩
      rintro x' n ⟨⟩
      rw [hr.2 x rfl, htight, toSize_of_int (by omega) (by omega)]
      exact ⟨rfl, by omega, by omega⟩
    | none => exact .ret ⟨hr.1, nofun⟩

theorem yields_bstrcpy (h : b.Holds s) : Yields grants (bstrcpy b) fun r =>
    (grants → r.isSome = true) ∧ ∀ b', r = some b' → b'.Holds s := by
  obtain ⟨rest, hdata, hmlen⟩ := h.block
  have hslen := h.slen
  have hlt := h.lt
  have hfits := h.fits
  have hone : toInt (b.slen + 1) = b.slen + 1 := toInt_of_int (by omega) (by omega)
  obtain ⟨hsnap, -, hsnapFits⟩ := snapUpSize_bounds (i := b.slen + 1) (by omega)
  unfold bstrcpy
  simp only [hdata]
  rw [if_neg (by omega), hone]
  refine yields_answered.bind fun answer hanswer => ?_
  cases answer with
  | none => exact .ret ⟨hanswer, nofun⟩
  | some _ =>
    refine (yields_bstrcpyBlock (by omega) (by omega) hsnapFits).bind fun r hr => ?_
    cases r with
    | none => exact .ret ⟨hr.1, nofun⟩
    | some r =>
      obtain ⟨x, n⟩ := r
      obtain ⟨hx, hroom, hn⟩ := hr.2 x n rfl
      have hsize : toSize b.slen = s.length := by
        rw [hslen]
        exact toSize_of_fits (by omega)
      simp only [hsize]
      refine (yields_load (by simp)).bind fun bs hbs => ?_
      rw [List.take_left] at hbs
      subst hbs
      refine (yields_store (by omega)).bind fun y hy => ?_
      have hstored := storeAt_take (show 0 + bs.length ≤ x.length by omega)
      have hlength := storeAt_length (show 0 + bs.length ≤ x.length by omega)
      rw [Nat.zero_add, List.take_zero, List.nil_append, ← hy] at hstored
      rw [← hy] at hlength
      refine (yields_store (show bs.length + 1 ≤ y.length by omega)).bind fun z hz =>
        .ret ⟨fun _ => rfl, ?_⟩
      rintro b' ⟨⟩
      subst hz
      have hholds := holds_terminated hstored (by omega) (by omega)
      rw [hlength, hx, ← hslen] at hholds
      exact hholds

theorem yields_bconcatAux (h1 : (operand.header b0).Holds t) {data1 : Bytes}
    (hdata1 : (operand.header b0).data = some data1) :
    Yields grants (bconcatAux b0 data1 operand) fun r => (grants → r.isSome = true) ∧
      ∀ aux, r = some aux → ∃ rest, aux = t ++ rest := by
  cases operand with
  | other b1 =>
    obtain ⟨rest, hdata, -⟩ := h1.block
    refine .ret ⟨fun _ => rfl, ?_⟩
    rintro aux ⟨⟩
    exact ⟨0 :: rest, Option.some.inj (hdata1.symm.trans hdata)⟩
  | itself =>
    refine (yields_bstrcpy h1).bind fun r hr => .ret ?_
    cases r with
    | none => exact ⟨hr.1, nofun⟩
    | some copy =>
      obtain ⟨rest, hdata, -⟩ := (hr.2 copy rfl).block
      rw [Option.bind_some, hdata]
      refine ⟨fun _ => rfl, ?_⟩
      rintro aux ⟨⟩
      exact ⟨0 :: rest, rfl⟩

theorem yields_bconcatRoom (h : b0.Holds s) (h1 : (operand.header b0).Holds t) {data1 : Bytes}
    (hdata1 : (operand.header b0).data = some data1) (hpos : 0 < olen) (hfits : olen < 2 ^ 31) :
    Yields grants (bconcatRoom b0 data1 operand olen) fun r => (grants → r.isSome = true) ∧
      ∀ b data0 aux, r = some (b, data0, aux) →
        b.Holds s ∧ olen ≤ b.mlen ∧ b.data = some data0 ∧ ∃ rest, aux = t ++ rest := by
  refine (yields_bconcatAux h1 hdata1).bind fun r hr => ?_
  cases r with
  | none => exact .ret ⟨hr.1, nofun⟩
  | some aux =>
    refine (yields_balloc h hpos hfits).bind fun q hq => .ret ?_
    obtain ⟨rc, b⟩ := q
    rcases hq with ⟨rfl, hb, hroom⟩ | ⟨rfl, -, hdenied⟩
    · obtain ⟨rest, hdata, -⟩ := hb.block
      simp only [ne_eq, not_true_eq_false, if_false]
      rw [hdata, Option.map_some]
      refine ⟨fun _ => rfl, ?_⟩
      rintro b' data0 aux' ⟨⟩
      exact ⟨hb, hroom, hdata, hr.2 aux rfl⟩
    · exact ⟨fun hg => absurd hg hdenied, nofun⟩

theorem yields_bconcatCopy {data0 aux : Bytes} (h : b.Holds s) (hdata0 : b.data = some data0)
    (haux : ∃ rest, aux = t ++ rest) (hroom : (s.length + t.length : ℤ) < b.mlen) :
    Yields grants (bconcatCopy b data0 aux s.length t.length (s.length + t.length)) fun r =>
      r.1 = BSTR_OK ∧ r.2.Holds (s ++ t) := by
  obtain ⟨rest, hdata, hmlen⟩ := h.block
  obtain ⟨rest', rfl⟩ := haux
  have hfits := h.fits
  have hblock : data0 = s ++ 0 :: rest := Option.some.inj (hdata0.symm.trans hdata)
  rw [← hblock] at hmlen
  have hs : toSize (s.length : ℤ) = s.length := toSize_of_fits (by omega)
  have ht : toSize (t.length : ℤ) = t.length := toSize_of_fits (by omega)
  have hsum : toSize (s.length + t.length : ℤ) = s.length + t.length := by
    have h := toSize_of_fits (n := s.length + t.length) (by omega)
    rwa [Nat.cast_add] at h
  unfold bconcatCopy
  rw [hs, ht, hsum]
  refine (yields_load (by simp)).bind fun bs hbs => ?_
  rw [List.take_left] at hbs
  subst hbs
  have hfit : s.length + bs.length ≤ data0.length := by omega
  refine (yields_store hfit).bind fun y hy => ?_
  have hstored := storeAt_take hfit
  have hlength := storeAt_length hfit
  rw [← hy, hblock, List.take_left, ← List.length_append] at hstored
  rw [← hy] at hlength
  refine (yields_store (by rw [List.length_singleton]; omega)).bind fun z hz => .ret ⟨rfl, ?_⟩
  subst hz
  have hholds := holds_terminated hstored (by rw [List.length_append]; omega) (by omega)
  rw [hlength, ← hmlen, List.length_append, Nat.cast_add] at hholds
  exact hholds

theorem bconcat_eq (h : b0.Holds s) (h1 : (operand.header b0).Holds t) :
    ∃ data0 data1, b0.data = some data0 ∧ (operand.header b0).data = some data1 ∧
      bconcat b0 operand =
        if toInt (s.length + t.length) < 0 then pure (BSTR_ERR, b0)
        else if b0.mlen ≤ toInt (toInt (s.length + t.length) + 1) then do
          match ← bconcatRoom b0 data1 operand (toInt (toInt (s.length + t.length) + 1)) with
          | none => pure (BSTR_ERR, b0)
          | some (b0, data0, aux) =>
            bconcatCopy b0 data0 aux s.length t.length (toInt (s.length + t.length))
        else bconcatCopy b0 data0 data1 s.length t.length (toInt (s.length + t.length)) := by
  obtain ⟨rest, hdata, -⟩ := h.block
  obtain ⟨rest1, hdata1, -⟩ := h1.block
  have hlt := h.lt
  have hfits := h.fits
  refine ⟨_, _, hdata, hdata1, ?_⟩
  unfold bconcat
  simp only [hdata, hdata1, h.slen, h1.slen]
  have hroom : toInt (b0.mlen - s.length) = b0.mlen - s.length := toInt_of_int (by omega) (by omega)
  have htest : ((s.length : ℤ) < 0 ∨ toInt (b0.mlen - s.length) < 0 ∨ (t.length : ℤ) < 0 ∨
      toInt (s.length + t.length) < 0) ↔ toInt (s.length + t.length) < 0 := by
    rw [hroom]
    omega
  by_cases hneg : toInt (s.length + t.length) < 0
  · rw [if_pos (htest.2 hneg), if_pos hneg]
  · rw [if_neg fun hc => hneg (htest.1 hc), if_neg hneg]

/-- `bconcat` appends, or fails and leaves the string as it is; it fails when the sum of the lengths
is no `int`. -/
theorem yields_bconcat (h : b0.Holds s) (h1 : (operand.header b0).Holds t)
    (hne : s.length + t.length + 1 ≠ 2 ^ 31) : Yields grants (bconcat b0 operand) fun r =>
      (r.1 = BSTR_OK ∧ r.2.Holds (s ++ t)) ∨
        (r.1 = BSTR_ERR ∧ r.2 = b0 ∧ (grants → 2 ^ 31 ≤ s.length + t.length)) := by
  obtain ⟨data0, data1, hdata0, hdata1, heq⟩ := bconcat_eq h h1
  rw [heq]
  have hlt := h.lt
  have hlt1 := h1.lt
  have hfits := h.fits
  have hfits1 := h1.fits
  by_cases hbig : 2 ^ 31 ≤ s.length + t.length
  · have hneg : toInt (s.length + t.length) < 0 := by
      unfold toInt
      rw [Int.bmod_def]
      omega
    rw [if_pos hneg]
    exact .ret (Or.inr ⟨rfl, rfl, fun _ => hbig⟩)
  have hsum : toInt (s.length + t.length) = s.length + t.length := toInt_of_int (by omega) (by omega)
  have hnext : toInt (s.length + t.length + 1) = s.length + t.length + 1 :=
    toInt_of_int (by omega) (by omega)
  rw [hsum, hnext, if_neg (by omega)]
  by_cases hgrow : b0.mlen ≤ s.length + t.length + 1
  · rw [if_pos hgrow]
    refine (yields_bconcatRoom h h1 hdata1 (by omega) (by omega)).bind fun r hr => ?_
    cases r with
    | none => exact .ret (Or.inr ⟨rfl, rfl, fun hg => nomatch hr.1 hg⟩)
    | some r =>
      obtain ⟨b, block, aux⟩ := r
      obtain ⟨hb, hroom, hblock, haux⟩ := hr.2 b block aux rfl
      exact (yields_bconcatCopy hb hblock haux (by omega)).imp fun r hr => Or.inl hr
  · rw [if_neg hgrow]
    have haux : ∃ rest, data1 = t ++ rest := by
      obtain ⟨rest, hdata, -⟩ := h1.block
      exact ⟨0 :: rest, Option.some.inj (hdata1.symm.trans hdata)⟩
    exact (yields_bconcatCopy h hdata0 haux (by omega)).imp fun r hr => Or.inl hr

/-- When the lengths add up to `INT_MAX`, the test for room overflows, and the NUL behind the text is
stored outside the block. -/
theorem bconcat_overrun (h : b0.Holds s) (h1 : (operand.header b0).Holds t)
    (hmax : s.length + t.length + 1 = 2 ^ 31) (answers : Answers) :
    bconcat b0 operand answers = .error .outOfBounds := by
  obtain ⟨data0, data1, hdata0, hdata1, heq⟩ := bconcat_eq h h1
  obtain ⟨rest, hblock, hmlen⟩ := h.block
  obtain ⟨rest1, hblock1, -⟩ := h1.block
  cases hblock.symm.trans hdata0
  cases hblock1.symm.trans hdata1
  have hfits := h.fits
  have hlt := h.lt
  have hcast : ((s.length : ℤ) + t.length) = 2 ^ 31 - 1 := by omega
  have hsum : toInt (2 ^ 31 - 1) = 2 ^ 31 - 1 := by decide
  have hnext : toInt (2 ^ 31 - 1 + 1) = -2 ^ 31 := by decide
  rw [heq, hcast, hsum, hnext, if_neg (by decide), if_neg (by omega)]
  have hs : toSize (s.length : ℤ) = s.length := toSize_of_fits (by omega)
  have ht : toSize (t.length : ℤ) = t.length := toSize_of_fits (by omega)
  have hover : ¬ toSize (2 ^ 31 - 1) + [(0 : UInt8)].length ≤ (s ++ 0 :: rest).length := by
    rw [show toSize (2 ^ 31 - 1) = 2 ^ 31 - 1 by decide, List.length_singleton]
    omega
  have hload : loadBytes (t ++ 0 :: rest1) t.length answers = .ok (t, answers) := by
    simp [loadBytes, readBytes, Except.map]
  unfold bconcatCopy
  rw [hs, ht]
  show (loadBytes (t ++ 0 :: rest1) t.length answers >>= fun p => _) = _
  rw [hload]
  by_cases hroom : s.length + t.length ≤ (s ++ 0 :: rest).length
  · have hcopy : storeBytes (s ++ 0 :: rest) s.length t answers =
        .ok (storeAt (s ++ 0 :: rest) s.length t, answers) := if_pos hroom
    have hstop : storeBytes (storeAt (s ++ 0 :: rest) s.length t) (toSize (2 ^ 31 - 1)) [0] answers =
        .error .outOfBounds := if_neg (by rwa [storeAt_length hroom])
    show (storeBytes (s ++ 0 :: rest) s.length t answers >>= fun p => _) = _
    rw [hcopy]
    show (storeBytes (storeAt (s ++ 0 :: rest) s.length t) (toSize (2 ^ 31 - 1)) [0] answers >>=
      fun p => _) = _
    rw [hstop]
    rfl
  · have hcopy : storeBytes (s ++ 0 :: rest) s.length t answers = .error .outOfBounds := if_neg hroom
    show (storeBytes (s ++ 0 :: rest) s.length t answers >>= fun p => _) = _
    rw [hcopy]
    rfl

/-- **A concatenation stays in its blocks, whatever the allocator answers, unless its length is just
`INT_MAX`.** -/
theorem bconcat_safe_iff (h : b0.Holds s) (h1 : (operand.header b0).Holds t) :
    (∀ answers, ∃ r, bconcat b0 operand answers = .ok r) ↔ s.length + t.length + 1 ≠ 2 ^ 31 := by
  constructor
  · intro hok hmax
    obtain ⟨r, hr⟩ := hok fun _ => none
    rw [bconcat_overrun h h1 hmax] at hr
    cases hr
  · intro hne answers
    obtain ⟨r, rest, hrun, -⟩ := yields_bconcat h h1 hne answers fun hf : False => hf.elim
    exact ⟨_, hrun⟩

/-- The directory `/srv/` and the name `note`, in blocks of eight bytes. -/
theorem bconcat_safe_iff_srv : (∀ answers, ∃ r,
    bconcat ⟨8, 5, some (lit "/srv/" ++ [0, 0, 0])⟩ (.other ⟨8, 4, some (lit "note" ++ [0, 0, 0, 0])⟩)
      answers = .ok r) ↔ (lit "/srv/").length + (lit "note").length + 1 ≠ 2 ^ 31 :=
  bconcat_safe_iff ⟨⟨[0, 0], rfl, by decide⟩, by decide, by decide⟩
    ⟨⟨[0, 0, 0], rfl, by decide⟩, by decide, by decide⟩

end Specs

end HttpServer

import HttpServer.Bstrlib
import HttpServer.HashmapSem
import HttpServer.Lib.Runs

/-!
# Runs of calls of the string library

A program holds pointers to strings, each from `bfromcstr` or `bstrcpy`, and makes calls on them in any
order.  `Texts` is what the strings are for: a list of texts, on which a call may find no memory.  Every
run does on the strings what it does on the texts (`callAll_texts`), until a call with an overflow that
`bstrlib.c` does not see, or with a string that was destroyed; and `bstrcmp` and `biseqcstr` are the
comparisons of the rest of the program.
-/

namespace HttpServer

open Lib

/-! ### The functions that only read -/

abbrev SHRT_MIN : ℤ := -32768

/-- The loop of `bstrcmp` from the index `i` on, with the turns that are left. -/
def bstrcmpLoop (data0 data1 : Bytes) : ℕ → ℕ → Except Fault (Option ℤ)
  | 0, _ => .ok none
  | left + 1, i => do
    let a ← deref data0 i
    let b ← deref data1 i
    let v := a.toInt8.toInt - b.toInt8.toInt
    if v ≠ 0 then .ok (some v)
    else if a = 0 then .ok (some BSTR_OK)
    else bstrcmpLoop data0 data1 left (i + 1)

/-- `bstrcmp`; `same` says that both headers have the same block. -/
def Tagbstring.bstrcmp (same : Bool) (b0 b1 : Tagbstring) : Except Fault ℤ :=
  match b0.data, b1.data with
  | some data0, some data1 =>
    if b0.slen < 0 ∨ b1.slen < 0 then .ok SHRT_MIN
    else
      let n := if b0.slen > b1.slen then b1.slen else b0.slen
      if b0.slen = b1.slen ∧ (same = true ∨ b0.slen = 0) then .ok BSTR_OK
      else do
        match ← bstrcmpLoop data0 data1 n.toNat 0 with
        | some v => .ok v
        | none => .ok (if b0.slen > n then 1 else if b1.slen > n then -1 else BSTR_OK)
  | _, _ => .ok SHRT_MIN

def biseqcstrLoop (data s : Bytes) : ℕ → ℕ → Except Fault ℤ
  | 0, i => do
    let c ← deref s i
    .ok (if c = 0 then 1 else 0)
  | left + 1, i => do
    let c ← deref s i
    if c = 0 then .ok BSTR_OK
    else
      let a ← deref data i
      if a ≠ c then .ok BSTR_OK else biseqcstrLoop data s left (i + 1)

def Tagbstring.biseqcstr (b : Tagbstring) (s : Bytes) : Except Fault ℤ :=
  match b.data with
  | none => .ok BSTR_ERR
  | some data =>
    if b.slen < 0 then .ok BSTR_ERR else biseqcstrLoop data (s ++ [0]) b.slen.toNat 0

/-- `bstr2cstr`: the block that it makes. -/
def bstr2cstr (b : Tagbstring) (z : UInt8) : BstrM (Option Bytes) :=
  match b.data with
  | none => pure none
  | some data =>
    if b.slen < 0 then pure none
    else do
      let l := b.slen
      match ← bstrAlloc (toInt (l + 1)) with
      | none => pure none
      | some r =>
        let bs ← loadBytes data (toSize l)
        let r ← storeBytes r 0 (bs.map fun c => if c = 0 then z else c)
        let r ← storeBytes r (toSize l) [0]
        pure (some r)

/-- `bdestroy`: what it returns. -/
def Tagbstring.bdestroy (b : Tagbstring) : ℤ :=
  if b.slen < 0 ∨ b.mlen ≤ 0 ∨ b.mlen < b.slen ∨ b.data = none then BSTR_ERR else BSTR_OK

section Readers

variable {s t x y data0 data1 : Bytes} {b b0 b1 : Tagbstring} {i : ℕ} {grants : Prop}

theorem deref_of_drop {data : Bytes} {a : UInt8} (h : data.drop i = a :: x) :
    deref data i = .ok a ∧ data.drop (i + 1) = x := by
  have hget : data[i]? = some a := by
    have := congrArg (fun l => l[0]?) h
    simpa [List.getElem?_drop] using this
  refine ⟨by rw [deref, hget], ?_⟩
  rw [← List.drop_drop, h]
  rfl

/-- The loop finds what the comparison of the texts does, or that one is the start of the other. -/
theorem bstrcmpLoop_eq (h0 : data0.drop i = s ++ x) (h1 : data1.drop i = t ++ y) :
    bstrcmpLoop data0 data1 (min s.length t.length) i = .ok (some (HttpServer.bstrcmp s t)) ∨
      bstrcmpLoop data0 data1 (min s.length t.length) i = .ok none ∧
        HttpServer.bstrcmp s t =
          if s.length > t.length then 1 else if t.length > s.length then -1 else 0 := by
  induction s generalizing t i with
  | nil =>
    right
    cases t with
    | nil => exact ⟨rfl, rfl⟩
    | cons b t => exact ⟨by rw [List.length_nil, Nat.zero_min, bstrcmpLoop], by simp [bstrcmp]⟩
  | cons a s ih =>
    cases t with
    | nil =>
      right
      exact ⟨by rw [List.length_nil, Nat.min_zero, bstrcmpLoop], by simp [bstrcmp]⟩
    | cons b t =>
      obtain ⟨ha, h0⟩ := deref_of_drop h0
      obtain ⟨hb, h1⟩ := deref_of_drop h1
      have hmin : min (a :: s).length (b :: t).length = min s.length t.length + 1 := by
        rw [List.length_cons, List.length_cons, Nat.succ_min_succ]
      have hstep : bstrcmpLoop data0 data1 (min s.length t.length + 1) i =
          if a.toInt8.toInt - b.toInt8.toInt ≠ 0 then .ok (some (a.toInt8.toInt - b.toInt8.toInt))
          else if a = 0 then .ok (some BSTR_OK)
          else bstrcmpLoop data0 data1 (min s.length t.length) (i + 1) := by
        rw [bstrcmpLoop, ha, hb]
        rfl
      rw [hmin, hstep, HttpServer.bstrcmp]
      by_cases hv : a.toInt8.toInt - b.toInt8.toInt ≠ 0
      · left
        rw [if_pos hv, if_pos hv]
      rw [if_neg hv, if_neg hv]
      by_cases hzero : a = 0
      · left
        rw [if_pos hzero, if_pos hzero]
      rw [if_neg hzero, if_neg hzero, List.length_cons, List.length_cons]
      simp only [gt_iff_lt, Nat.add_lt_add_iff_right]
      exact ih h0 h1

theorem bstrcmp_self (s : Bstring) : HttpServer.bstrcmp s s = 0 := by
  induction s with
  | nil => rfl
  | cons a s ih =>
    rw [HttpServer.bstrcmp, if_neg (by simp), ih]
    exact ite_self 0

theorem bstrcmp_eq {same : Bool} (h0 : b0.Holds s) (h1 : b1.Holds t) (hsame : same = true → s = t) :
    b0.bstrcmp same b1 = .ok (HttpServer.bstrcmp s t) := by
  obtain ⟨rest0, hdata0, -⟩ := h0.block
  obtain ⟨rest1, hdata1, -⟩ := h1.block
  unfold Tagbstring.bstrcmp
  simp only [hdata0, hdata1, h0.slen, h1.slen]
  rw [if_neg (by omega)]
  by_cases hquick : (s.length : ℤ) = t.length ∧ (same = true ∨ (s.length : ℤ) = 0)
  · obtain ⟨hlen, hor⟩ := hquick
    have hst : s = t := by
      rcases hor with hs | hzero
      · exact hsame hs
      · have hs : s = [] := List.eq_nil_of_length_eq_zero (by omega)
        have ht : t = [] := List.eq_nil_of_length_eq_zero (by omega)
        rw [hs, ht]
    rw [if_pos ⟨hlen, hor⟩, hst, bstrcmp_self]
  rw [if_neg hquick]
  have hn : (if (s.length : ℤ) > t.length then (t.length : ℤ) else s.length) =
      ((min s.length t.length : ℕ) : ℤ) := by
    split <;> omega
  rw [hn, Int.toNat_natCast]
  rcases bstrcmpLoop_eq (i := 0) (s := s) (t := t) (x := 0 :: rest0) (y := 0 :: rest1) rfl rfl with
    hloop | ⟨hloop, hcmp⟩
  · rw [hloop]
    rfl
  · rw [hloop, hcmp]
    refine congrArg Except.ok ?_
    have h0 : ((s.length : ℤ) > ((min s.length t.length : ℕ) : ℤ)) ↔ s.length > t.length := by omega
    have h1 : ((t.length : ℤ) > ((min s.length t.length : ℕ) : ℤ)) ↔ t.length > s.length := by omega
    simp only [h0, h1]

theorem biseqcstrLoop_eq {data c cstr : Bytes} (hc : NulFree c) (h0 : data.drop i = s ++ x)
    (h1 : cstr.drop i = c ++ [0]) :
    biseqcstrLoop data cstr s.length i = .ok (if s = c then 1 else 0) := by
  induction s generalizing c i with
  | nil =>
    cases c with
    | nil =>
      obtain ⟨hd, -⟩ := deref_of_drop h1
      rw [List.length_nil, biseqcstrLoop, hd]
      rfl
    | cons d c =>
      obtain ⟨hd, -⟩ := deref_of_drop h1
      have hne : d ≠ 0 := fun h => hc (h ▸ List.mem_cons_self)
      rw [List.length_nil, biseqcstrLoop, hd]
      simp [bind, Except.bind, hne]
  | cons a s ih =>
    obtain ⟨ha, h0⟩ := deref_of_drop h0
    cases c with
    | nil =>
      obtain ⟨hd, -⟩ := deref_of_drop h1
      rw [List.length_cons, biseqcstrLoop, hd]
      rfl
    | cons d c =>
      obtain ⟨hd, h1⟩ := deref_of_drop h1
      have hne : d ≠ 0 := fun h => hc (h ▸ List.mem_cons_self)
      have htail : NulFree c := fun h => hc (List.mem_cons_of_mem _ h)
      rw [List.length_cons, biseqcstrLoop, hd]
      show (if d = 0 then _ else _) = _
      rw [if_neg hne, ha]
      show (if a ≠ d then _ else _) = _
      by_cases had : a = d
      · rw [if_neg (not_not.2 had), ih htail h0 h1, had]
        simp
      · rw [if_pos had, if_neg fun h => had (List.cons.inj h).1]

theorem biseqcstr_eq {c : Bytes} (h : b.Holds s) (hc : NulFree c) :
    b.biseqcstr c = .ok (if s = c then 1 else 0) := by
  obtain ⟨rest, hdata, -⟩ := h.block
  unfold Tagbstring.biseqcstr
  simp only [hdata, h.slen]
  rw [if_neg (by omega), Int.toNat_natCast]
  exact biseqcstrLoop_eq (x := 0 :: rest) hc rfl rfl

theorem yields_bstr2cstr (h : b.Holds s) (z : UInt8) : Yields grants (bstr2cstr b z) fun r =>
    (grants → r.isSome = true) ∧
      ∀ block, r = some block → block = (s.map fun c => if c = 0 then z else c) ++ [0] := by
  obtain ⟨rest, hdata, hmlen⟩ := h.block
  have hslen := h.slen
  have hlt := h.lt
  have hfits := h.fits
  have hone : toInt (b.slen + 1) = b.slen + 1 := toInt_of_int (by omega) (by omega)
  have hsize : toSize b.slen = s.length := by
    rw [hslen]
    exact toSize_of_fits (by omega)
  unfold bstr2cstr
  simp only [hdata]
  rw [if_neg (by omega), hone, hsize]
  refine (yields_alloc _).bind fun answer hx => ?_
  cases answer with
  | none => exact .ret ⟨hx.1, nofun⟩
  | some r =>
    have hr := hx.2 r rfl
    have hlen := toSize_of_int (z := b.slen + 1) (by omega) (by omega)
    refine (yields_load (by simp)).bind fun bs hbs => ?_
    rw [List.take_left] at hbs
    subst hbs
    set text := bs.map fun c => if c = 0 then z else c with htext
    have htl : text.length = bs.length := List.length_map ..
    refine (yields_store (by omega)).bind fun r' hr' => ?_
    have hfront := storeAt_take (show 0 + text.length ≤ r.length by omega)
    have hlength := storeAt_length (show 0 + text.length ≤ r.length by omega)
    rw [Nat.zero_add, List.take_zero, List.nil_append, ← hr'] at hfront
    rw [← hr'] at hlength
    refine (yields_store (show bs.length + 1 ≤ r'.length by omega)).bind fun r'' hr'' =>
      .ret ⟨fun _ => rfl, ?_⟩
    rintro block ⟨⟩
    have hroom : text.length + [(0 : UInt8)].length ≤ r'.length := by
      rw [List.length_singleton]
      omega
    have hall := storeAt_take hroom
    have hend : (storeAt r' text.length [0]).length ≤ text.length + [(0 : UInt8)].length := by
      rw [storeAt_length hroom, List.length_singleton]
      omega
    rw [hfront, List.take_of_length_le hend, htl] at hall
    rw [hr'', hall]

theorem bdestroy_eq (h : b.Holds s) : b.bdestroy = BSTR_OK := by
  obtain ⟨rest, hdata, -⟩ := h.block
  have hlt := h.lt
  have hslen := h.slen
  exact if_neg fun hc => by
    rcases hc with hc | hc | hc | hc
    · omega
    · omega
    · omega
    · rw [hdata] at hc
      cases hc

end Readers

/-! ### Programs on strings -/

/-- A call, on the strings that a program holds, by their numbers. -/
inductive BstrCall where
  | fromcstr (str : Bytes)
  | copy (i : ℕ)
  | concat (i j : ℕ)
  | compare (i j : ℕ)
  | iseqcstr (i : ℕ) (s : Bytes)
  | tocstr (i : ℕ) (z : UInt8)
  | destroy (i : ℕ)

/-- What a call returns: an `int`, where a new string has `BSTR_ERR` for NULL, or a C string. -/
inductive BstrResult where
  | int (n : ℤ)
  | cstr (block : Option Bytes)
  deriving DecidableEq

/-- A pointer to a string: NULL, or to a header that is there, or to one that was destroyed. -/
inductive StrPtr (α : Type) where
  | null
  | live (a : α)
  | dangling

namespace StrPtr

variable {α β : Type}

/-- What `bfromcstr` and `bstrcpy` return. -/
def ofOption : Option α → StrPtr α
  | some a => live a
  | none => null

/-- The string with the number `i`, if it is there. -/
def liveAt (ps : List (StrPtr α)) (i : ℕ) : Option α :=
  match ps[i]? with
  | some (live a) => some a
  | _ => none

def DanglesAt (ps : List (StrPtr α)) (i : ℕ) : Prop := ps[i]? = some dangling

inductive Rel (R : α → β → Prop) : StrPtr α → StrPtr β → Prop where
  | null : Rel R null null
  | live {a : α} {b : β} (h : R a b) : Rel R (live a) (live b)
  | dangling : Rel R dangling dangling

end StrPtr

/-- What the strings are for: texts by their numbers. -/
abbrev Texts : Type := List (StrPtr Bytes)

/-- A call on the texts, which finds memory when `granted`. -/
def Texts.call (texts : Texts) : BstrCall × Bool → BstrResult × Texts
  | (.fromcstr str, granted) =>
    if granted = true ∧ str.length + 1 < 2 ^ 31 then (.int BSTR_OK, texts ++ [.live str])
    else (.int BSTR_ERR, texts ++ [.null])
  | (.copy i, granted) =>
    match StrPtr.liveAt texts i with
    | some s =>
      if granted = true then (.int BSTR_OK, texts ++ [.live s]) else (.int BSTR_ERR, texts ++ [.null])
    | none => (.int BSTR_ERR, texts ++ [.null])
  | (.concat i j, granted) =>
    match StrPtr.liveAt texts i, StrPtr.liveAt texts j with
    | some s, some t =>
      if granted = true ∧ s.length + t.length + 1 < 2 ^ 31 then
        (.int BSTR_OK, texts.set i (.live (s ++ t)))
      else (.int BSTR_ERR, texts)
    | _, _ => (.int BSTR_ERR, texts)
  | (.compare i j, _) =>
    match StrPtr.liveAt texts i, StrPtr.liveAt texts j with
    | some s, some t => (.int (bstrcmp s t), texts)
    | _, _ => (.int SHRT_MIN, texts)
  | (.iseqcstr i c, _) =>
    match StrPtr.liveAt texts i with
    | some s => (.int (if s = c then 1 else 0), texts)
    | none => (.int BSTR_ERR, texts)
  | (.tocstr i z, granted) =>
    match StrPtr.liveAt texts i with
    | some s =>
      (.cstr (if granted = true then some ((s.map fun c => if c = 0 then z else c) ++ [0]) else none),
        texts)
    | none => (.cstr none, texts)
  | (.destroy i, _) =>
    match StrPtr.liveAt texts i with
    | some _ => (.int BSTR_OK, texts.set i .dangling)
    | none => (.int BSTR_ERR, texts)

/-- The strings that a call is given. -/
def BstrCall.operands : BstrCall → List ℕ
  | .fromcstr _ => []
  | .copy i | .iseqcstr i _ | .tocstr i _ | .destroy i => [i]
  | .concat i j | .compare i j => [i, j]

/-- The calls on strings that were not destroyed, whose counters do not overflow unnoticed; a C string
has no NUL. -/
structure Texts.Allows (texts : Texts) (c : BstrCall) : Prop where
  undestroyed : ∀ i ∈ c.operands, ¬ StrPtr.DanglesAt texts i
  noticed : match c with
    | .fromcstr str => str.length < 2 ^ 31
    | .concat i j => ∀ s t, StrPtr.liveAt texts i = some s → StrPtr.liveAt texts j = some t →
        s.length + t.length + 1 ≠ 2 ^ 31
    | .iseqcstr _ c => NulFree c
    | _ => True

abbrev Pool : Type := List (StrPtr Tagbstring)

def newResult (b : Option Tagbstring) : BstrResult := .int (if b.isSome then BSTR_OK else BSTR_ERR)

def reads {α : Type} (r : Except Fault α) : BstrM α := fun answers => r.map fun a => (a, answers)

/-- The string that a call is given: `bdestroy` frees the header and leaves the pointer, so behind a
pointer to a destroyed string there is no allocation. -/
def Pool.use (pool : Pool) (i : ℕ) : BstrM (Option Tagbstring) :=
  match pool[i]? with
  | some .dangling => reads (.error .outOfBounds)
  | some (.live b) => pure (some b)
  | _ => pure none

/-- A call on the strings. -/
def Pool.call (pool : Pool) : BstrCall → BstrM (BstrResult × Pool)
  | .fromcstr str => do
    let b ← bfromcstr (some str)
    pure (newResult b, pool ++ [.ofOption b])
  | .copy i => do
    match ← pool.use i with
    | some b =>
      let b' ← bstrcpy b
      pure (newResult b', pool ++ [.ofOption b'])
    | none => pure (newResult none, pool ++ [.null])
  | .concat i j => do
    match ← pool.use i, ← pool.use j with
    | some b0, some b1 =>
      let (rc, b0) ← bconcat b0 (if i = j then .itself else .other b1)
      pure (.int rc, pool.set i (.live b0))
    | _, _ => pure (.int BSTR_ERR, pool)
  | .compare i j => do
    match ← pool.use i, ← pool.use j with
    | some b0, some b1 =>
      let v ← reads (b0.bstrcmp (decide (i = j)) b1)
      pure (.int v, pool)
    | _, _ => pure (.int SHRT_MIN, pool)
  | .iseqcstr i c => do
    match ← pool.use i with
    | some b =>
      let v ← reads (b.biseqcstr c)
      pure (.int v, pool)
    | none => pure (.int BSTR_ERR, pool)
  | .tocstr i z => do
    match ← pool.use i with
    | some b =>
      let block ← bstr2cstr b z
      pure (.cstr block, pool)
    | none => pure (.cstr none, pool)
  | .destroy i => do
    match ← pool.use i with
    | some b => pure (.int b.bdestroy, pool.set i .dangling)
    | none => pure (.int BSTR_ERR, pool)

def Pool.callAll (pool : Pool) : List BstrCall → BstrM (List BstrResult × Pool)
  | [] => pure ([], pool)
  | c :: calls => do
    let (result, pool) ← pool.call c
    let (results, pool) ← pool.callAll calls
    pure (result :: results, pool)

/-- The strings are in order and hold the texts. -/
def Pool.Holds (pool : Pool) (texts : Texts) : Prop :=
  List.Forall₂ (StrPtr.Rel Tagbstring.Holds) pool texts

section Programs

variable {pool : Pool} {texts : Texts} {c : BstrCall} {i : ℕ} {grants : Prop} {answers : Answers}

/-- A string that was not destroyed is NULL, or holds its text. -/
theorem Pool.Holds.use (h : pool.Holds texts) (hd : ¬ StrPtr.DanglesAt texts i) :
    (pool.use i = pure none ∧ StrPtr.liveAt texts i = none) ∨
      ∃ b s, pool.use i = pure (some b) ∧ pool[i]? = some (.live b) ∧
        StrPtr.liveAt texts i = some s ∧ b.Holds s := by
  unfold Pool.use StrPtr.liveAt
  unfold StrPtr.DanglesAt at hd
  induction h generalizing i with
  | nil => exact Or.inl ⟨rfl, rfl⟩
  | cons hb _ ih =>
    cases i with
    | succ i =>
      simp only [List.getElem?_cons_succ] at hd ⊢
      exact ih hd
    | zero =>
      cases hb with
      | null => exact Or.inl ⟨rfl, rfl⟩
      | live hb => exact Or.inr ⟨_, _, rfl, rfl, rfl, hb⟩
      | dangling => exact absurd rfl hd

theorem Pool.Holds.set (h : pool.Holds texts) {p : StrPtr Tagbstring} {t : StrPtr Bytes}
    (hp : StrPtr.Rel Tagbstring.Holds p t) (i : ℕ) : Pool.Holds (pool.set i p) (texts.set i t) := by
  induction h generalizing i with
  | nil => exact .nil
  | cons hb hrest ih =>
    cases i with
    | zero => exact .cons hp hrest
    | succ i => exact .cons hb (ih i)

theorem Pool.Holds.concat (h : pool.Holds texts) {p : StrPtr Tagbstring} {t : StrPtr Bytes}
    (hp : StrPtr.Rel Tagbstring.Holds p t) : Pool.Holds (pool ++ [p]) (texts ++ [t]) :=
  List.rel_append h (.cons hp .nil)

/-- A call does on the strings what it does on the texts, when it finds memory or when it does not. -/
theorem yields_call (h : pool.Holds texts) (hc : texts.Allows c) :
    Yields grants (pool.call c) fun r => ∃ granted, (grants → granted = true) ∧
      r.1 = (texts.call (c, granted)).1 ∧ r.2.Holds (texts.call (c, granted)).2 := by
  cases c with
  | fromcstr str =>
    refine (yields_bfromcstr hc.noticed).bind fun r hr => .ret ?_
    cases r with
    | none =>
      by_cases hlong : str.length + 1 < 2 ^ 31
      · refine ⟨false, fun hg => (nomatch hr.1 hg hlong), ?_, ?_⟩
        · rfl
        · exact h.concat .null
      · refine ⟨true, fun _ => rfl, ?_, ?_⟩
        · simp only [Texts.call, hlong, and_false, if_false]
          rfl
        · simp only [Texts.call, hlong, and_false, if_false]
          exact h.concat .null
    | some b =>
      have hb := hr.2 b rfl
      have hlong : str.length + 1 < 2 ^ 31 := by
        have := hb.lt
        have := hb.fits
        omega
      refine ⟨true, fun _ => rfl, ?_, ?_⟩
      · simp only [Texts.call, hlong, and_self, if_true]
        rfl
      · simp only [Texts.call, hlong, and_self, if_true]
        exact h.concat (.live hb)
  | copy i =>
    rcases h.use (hc.undestroyed i (by simp [BstrCall.operands])) with
        ⟨hb, hs⟩ | ⟨b, s, hb, -, hs, hbs⟩
    · simp only [Pool.call, pure_bind, hb, Texts.call, hs]
      exact .ret ⟨true, fun _ => rfl, rfl, h.concat .null⟩
    · simp only [Pool.call, pure_bind, hb, Texts.call, hs]
      refine (yields_bstrcpy hbs).bind fun r hr => .ret ?_
      cases r with
      | none => exact ⟨false, fun hg => (nomatch hr.1 hg), rfl, h.concat .null⟩
      | some b' => exact ⟨true, fun _ => rfl, rfl, h.concat (.live (hr.2 b' rfl))⟩
  | concat i j =>
    have hj := h.use (hc.undestroyed j (by simp [BstrCall.operands]))
    rcases h.use (hc.undestroyed i (by simp [BstrCall.operands])) with
        ⟨hb, hs⟩ | ⟨b, s, hb, hi, hs, hbs⟩
    · rcases hj with ⟨hb1, ht⟩ | ⟨b1, t, hb1, -, ht, hbt⟩
      all_goals
        simp only [Pool.call, pure_bind, hb, hb1, Texts.call, hs]
        exact .ret ⟨true, fun _ => rfl, rfl, h⟩
    rcases hj with ⟨hb1, ht⟩ | ⟨b1, t, hb1, -, ht, hbt⟩
    · simp only [Pool.call, pure_bind, hb, hb1, Texts.call, hs, ht]
      exact .ret ⟨true, fun _ => rfl, rfl, h⟩
    simp only [Pool.call, pure_bind, hb, hb1, Texts.call, hs, ht]
    have hoperand : ((if i = j then Operand.itself else .other b1).header b).Holds t := by
      by_cases hij : i = j
      · subst hij
        rw [if_pos rfl]
        cases hs.symm.trans ht
        exact hbs
      · rw [if_neg hij]
        exact hbt
    refine (yields_bconcat hbs hoperand (hc.noticed s t hs ht)).bind fun r hr => .ret ?_
    obtain ⟨rc, b'⟩ := r
    rcases hr with ⟨rfl, hb'⟩ | ⟨rfl, rfl, hbig⟩
    · have hlt := hb'.lt
      have hfits := hb'.fits
      rw [List.length_append] at hlt
      have hsmall : s.length + t.length + 1 < 2 ^ 31 := by omega
      refine ⟨true, fun _ => rfl, ?_, ?_⟩
      · simp only [hsmall, and_self, if_true]
      · simp only [hsmall, and_self, if_true]
        exact h.set (.live hb') i
    · -- the string is as it was
      have hsame : Pool.Holds (pool.set i (.live b')) texts := by
        obtain ⟨hlt, hget⟩ := List.getElem?_eq_some_iff.1 hi
        rwa [← hget, List.set_getElem_self]
      by_cases hg : grants
      · have hlarge := hbig hg
        have hno : ¬ s.length + t.length + 1 < 2 ^ 31 := by omega
        refine ⟨true, fun _ => rfl, ?_, ?_⟩
        · simp only [hno, and_false, if_false]
        · simpa only [hno, and_false, if_false] using hsame
      · exact ⟨false, fun h => absurd h hg, rfl, hsame⟩
  | compare i j =>
    have hj := h.use (hc.undestroyed j (by simp [BstrCall.operands]))
    rcases h.use (hc.undestroyed i (by simp [BstrCall.operands])) with
        ⟨hb, hs⟩ | ⟨b, s, hb, -, hs, hbs⟩
    · rcases hj with ⟨hb1, ht⟩ | ⟨b1, t, hb1, -, ht, hbt⟩
      all_goals
        simp only [Pool.call, pure_bind, hb, hb1, Texts.call, hs]
        exact .ret ⟨true, fun _ => rfl, rfl, h⟩
    rcases hj with ⟨hb1, ht⟩ | ⟨b1, t, hb1, -, ht, hbt⟩
    · simp only [Pool.call, pure_bind, hb, hb1, Texts.call, hs, ht]
      exact .ret ⟨true, fun _ => rfl, rfl, h⟩
    have hsame : decide (i = j) = true → s = t := by
      intro hij
      cases of_decide_eq_true hij
      exact Option.some.inj (hs.symm.trans ht)
    simp only [Pool.call, pure_bind, hb, hb1, Texts.call, hs, ht, bstrcmp_eq hbs hbt hsame]
    exact .ret ⟨true, fun _ => rfl, rfl, h⟩
  | iseqcstr i str =>
    rcases h.use (hc.undestroyed i (by simp [BstrCall.operands])) with
        ⟨hb, hs⟩ | ⟨b, s, hb, -, hs, hbs⟩
    · simp only [Pool.call, pure_bind, hb, Texts.call, hs]
      exact .ret ⟨true, fun _ => rfl, rfl, h⟩
    · simp only [Pool.call, pure_bind, hb, Texts.call, hs, biseqcstr_eq hbs hc.noticed]
      exact .ret ⟨true, fun _ => rfl, rfl, h⟩
  | tocstr i z =>
    rcases h.use (hc.undestroyed i (by simp [BstrCall.operands])) with
        ⟨hb, hs⟩ | ⟨b, s, hb, -, hs, hbs⟩
    · simp only [Pool.call, pure_bind, hb, Texts.call, hs]
      exact .ret ⟨true, fun _ => rfl, rfl, h⟩
    · simp only [Pool.call, pure_bind, hb, Texts.call, hs]
      refine (yields_bstr2cstr hbs z).bind fun r hr => .ret ?_
      cases r with
      | none => exact ⟨false, fun hg => (nomatch hr.1 hg), rfl, h⟩
      | some block =>
        rw [hr.2 block rfl]
        exact ⟨true, fun _ => rfl, rfl, h⟩
  | destroy i =>
    rcases h.use (hc.undestroyed i (by simp [BstrCall.operands])) with
        ⟨hb, hs⟩ | ⟨b, s, hb, -, hs, hbs⟩
    · simp only [Pool.call, pure_bind, hb, Texts.call, hs]
      exact .ret ⟨true, fun _ => rfl, rfl, h⟩
    · simp only [Pool.call, pure_bind, hb, Texts.call, hs, bdestroy_eq hbs]
      exact .ret ⟨true, fun _ => rfl, rfl, h.set .dangling i⟩

/-- Calls from strings that hold `texts` on: those of `before` do on the strings what they do on the
texts, and what stops them is a call that the texts do not allow. -/
theorem callAll_from (h : pool.Holds texts) (hg : Grants grants answers) (calls : List BstrCall) :
    ∃ before after flags results pool' rest, calls = before ++ after ∧
      flags.length = before.length ∧ (grants → ∀ f ∈ flags, f = true) ∧
      pool.callAll before answers = .ok ((results, pool'), rest) ∧
      results = (runAll Texts.call texts (before.zip flags)).1 ∧
      pool'.Holds (runAll Texts.call texts (before.zip flags)).2 ∧
      (after = [] ∨ ∃ c after', after = c :: after' ∧
        ¬ (runAll Texts.call texts (before.zip flags)).2.Allows c) := by
  induction calls generalizing pool texts answers with
  | nil => exact ⟨[], [], [], [], pool, answers, rfl, rfl, by simp, rfl, rfl, h, Or.inl rfl⟩
  | cons c calls ih =>
    by_cases hc : texts.Allows c
    · obtain ⟨⟨result, pool₁⟩, rest₁, hrun₁, hg₁, granted, hgranted, hresult, hpool₁⟩ :=
        yields_call h hc answers hg
      obtain ⟨before, after, flags, results, pool', rest, hcalls, hlen, hflags, hrun, hresults, hpool',
        hstop⟩ := ih hpool₁ hg₁
      refine ⟨c :: before, after, granted :: flags, result :: results, pool', rest, ?_, ?_, ?_, ?_, ?_,
        hpool', hstop⟩
      · rw [hcalls, List.cons_append]
      · rw [List.length_cons, List.length_cons, hlen]
      · intro hall f hf
        rcases List.mem_cons.1 hf with rfl | hf
        · exact hgranted hall
        · exact hflags hall f hf
      · show (pool.call c answers >>= fun p => _) = _
        rw [hrun₁]
        show (pool₁.callAll before rest₁ >>= fun p => _) = _
        rw [hrun]
        rfl
      · exact congrArg₂ List.cons hresult hresults
    · exact ⟨[], c :: calls, [], [], pool, answers, rfl, rfl, by simp, rfl, rfl, h,
        Or.inr ⟨c, calls, rfl, hc⟩⟩

/-- **The string library is sound for texts.**  Whatever calls a program makes and whatever the
allocator answers, the calls return what they return on the texts, where a call may find no memory
(and finds it, when every request is granted); only a call with a counter that overflows unnoticed, or
with a string that was destroyed, ends this. -/
theorem callAll_texts (calls : List BstrCall) (answers : Answers) :
    ∃ before after flags results pool rest, calls = before ++ after ∧
      flags.length = before.length ∧
      ((∀ k, (answers k).isSome = true) → ∀ f ∈ flags, f = true) ∧
      Pool.callAll [] before answers = .ok ((results, pool), rest) ∧
      results = (runAll Texts.call [] (before.zip flags)).1 ∧
      pool.Holds (runAll Texts.call [] (before.zip flags)).2 ∧
      (after = [] ∨ ∃ c after', after = c :: after' ∧
        ¬ (runAll Texts.call [] (before.zip flags)).2.Allows c) :=
  callAll_from .nil id calls

/-! ### The path of a file -/

/-- How `get_files` and `post_files` come to the path that they open, from the two strings that `main`
made: what `bconcat` returns is not looked at. -/
def filePath (directory filename : Bytes) : BstrM (Option Bytes) := do
  match ← bfromcstr (some directory), ← bfromcstr (some filename) with
  | some directory, some filename =>
    let (_, directory) ← bconcat directory (.other filename)
    bstr2cstr directory 0
  | _, _ => pure none

theorem map_nul (s : Bytes) : (s.map fun c => if c = 0 then 0 else c) = s := by
  refine (List.map_congr_left fun c _ => ?_).trans (List.map_id s)
  by_cases hc : c = 0
  · rw [if_pos hc, hc]
    rfl
  · rw [if_neg hc]
    rfl

/-- The path is the directory with the name behind it, as the handlers have it; when there is no
memory for that, it is the directory itself or NULL. -/
theorem yields_filePath {directory filename : Bytes}
    (hlen : directory.length + filename.length + 1 < 2 ^ 31) :
    Yields grants (filePath directory filename) fun r =>
      (grants → r = some (directory ++ filename ++ [0])) ∧
        ∀ path, r = some path → path = directory ++ filename ++ [0] ∨ path = directory ++ [0] := by
  refine (yields_bfromcstr (by omega)).bind fun b0 h0 => ?_
  refine (yields_bfromcstr (by omega)).bind fun b1 h1 => ?_
  cases b0 with
  | none => exact .ret ⟨fun hg => (nomatch h0.1 hg (by omega)), nofun⟩
  | some b0 =>
  cases b1 with
  | none => exact .ret ⟨fun hg => (nomatch h1.1 hg (by omega)), nofun⟩
  | some b1 =>
  have hb1 : ((Operand.other b1).header b0).Holds filename := h1.2 b1 rfl
  refine (yields_bconcat (h0.2 b0 rfl) hb1 (by omega)).bind fun r hr => ?_
  obtain ⟨rc, b⟩ := r
  rcases hr with ⟨-, hb⟩ | ⟨-, rfl, hbig⟩
  · refine (yields_bstr2cstr hb 0).imp fun r hr => ?_
    rw [map_nul] at hr
    refine ⟨fun hg => ?_, fun path hpath => Or.inl (hr.2 path hpath)⟩
    obtain ⟨path, hpath⟩ := Option.isSome_iff_exists.1 (hr.1 hg)
    rw [hpath, hr.2 path hpath]
  · -- `bconcat` failed
    refine (yields_bstr2cstr (h0.2 b rfl) 0).imp fun r hr => ?_
    rw [map_nul] at hr
    exact ⟨fun hg => absurd (hbig hg) (by omega), fun path hpath => Or.inr (hr.2 path hpath)⟩

end Programs

end HttpServer

import HttpServer.Lib.Bytes

/-!
# C strings in one allocation

An allocation is the list of its bytes and a pointer into it is an offset: `m.drop p` is the memory
from `p` to the end of the block, empty when `p` is outside.  Every read checks that it stays
inside, so that a run without a `Fault` is a run in bounds.  The functions of `<string.h>` and
`<stdio.h>` used on such a block follow, each with its meaning on a block `pre ++ s ++ 0 :: post`
read at the text `s`.  A store outside a block is not seen in it; whether one is inside is asked of
the `Access`.
-/

namespace HttpServer.Lib

inductive Fault where
  /-- A read outside the allocation. -/
  | outOfBounds
  /-- A positive number of bytes read through NULL. -/
  | nullPointer
  /-- An allocation whose size is not positive, or overflows. -/
  | badAlloc
  /-- A loop that has not ended. -/
  | diverged
  deriving DecidableEq, Repr

section Except

variable {ε α β : Type} {x : Except ε α} {b : β}

theorem map_eq_ok {f : α → β} : x.map f = .ok b ↔ ∃ a, x = .ok a ∧ f a = b := by
  constructor
  · intro h
    cases x with
    | error e => cases h
    | ok a => exact ⟨a, rfl, Except.ok.inj h⟩
  · rintro ⟨a, rfl, rfl⟩
    rfl

theorem bind_eq_ok {f : α → Except ε β} : x >>= f = .ok b ↔ ∃ a, x = .ok a ∧ f a = .ok b := by
  constructor
  · intro h
    cases x with
    | error e => cases h
    | ok a => exact ⟨a, rfl, h⟩
  · rintro ⟨a, rfl, h⟩
    exact h

end Except

/-- The byte at offset `p`. -/
def deref (m : Bytes) (p : ℕ) : Except Fault UInt8 :=
  match m[p]? with
  | some c => .ok c
  | none => .error .outOfBounds

/-- The C string at the start of the memory: its bytes before the terminator. -/
def readStr : Bytes → Except Fault Bytes
  | [] => .error .outOfBounds
  | c :: m => if c = 0 then .ok [] else (readStr m).map (c :: ·)

/-- At most `n` bytes of the C string at the start of the memory (the `%.*s` of `printf`): the
terminator is not needed when `n` bytes come before it. -/
def readStrn : ℕ → Bytes → Except Fault Bytes
  | 0, _ => .ok []
  | _ + 1, [] => .error .outOfBounds
  | n + 1, c :: m => if c = 0 then .ok [] else (readStrn n m).map (c :: ·)

def readBytes (n : ℕ) (m : Bytes) : Except Fault Bytes :=
  if n ≤ m.length then .ok (m.take n) else .error .outOfBounds

/-- The offset of the first byte after the leading spaces: `while (*p == ' ') p++`. -/
def skipSpaces : Bytes → Except Fault ℕ
  | [] => .error .outOfBounds
  | c :: m => if c = SP then (skipSpaces m).map (· + 1) else .ok 0

/-- The offset of the first place where `sub` occurs in `s`. -/
def findSub (sub : Bytes) : Bytes → Option ℕ
  | [] => if sub = [] then some 0 else none
  | c :: s => if sub.isPrefixOf (c :: s) then some 0 else (findSub sub s).map (· + 1)

/-- `strstr(m + p, sub)`, as an offset into `m`. -/
def strstr (m : Bytes) (p : ℕ) (sub : Bytes) : Except Fault (Option ℕ) :=
  (readStr (m.drop p)).map fun s => (findSub sub s).map (p + ·)

/-- `memchr(m + p, c, n)`, as an offset into `m`. -/
def memchr (m : Bytes) (p : ℕ) (c : UInt8) (n : ℕ) : Except Fault (Option ℕ) :=
  (readBytes n (m.drop p)).map fun s => (s.findIdx? (· = c)).map (p + ·)

/-- `snprintf(buf, size, "%.*s", n, m + p)`: the text it leaves in `buf`. -/
def snprintfStr (size : ℕ) (m : Bytes) (p n : ℕ) : Except Fault Bytes :=
  (readStrn n (m.drop p)).map (·.take (size - 1))

/-- `memcpy` of `n` bytes out of the block, through a pointer that may be NULL. -/
def memcpyFrom (m : Bytes) (src : Option ℕ) (n : ℕ) : Except Fault Bytes :=
  match src with
  | some p => readBytes n (m.drop p)
  | none => if n = 0 then .ok [] else .error .nullPointer

/-- `strtok(m + p, delim)`, where `p` is the given string or the pointer that the last call saved:
the memory after the call, the token and the pointer saved for the next one. -/
def strtok (m : Bytes) (p : ℕ) (delim : Bytes) : Except Fault (Bytes × Option ℕ × ℕ) :=
  (readStr (m.drop p)).map fun s =>
    let skipped := (s.takeWhile (· ∈ delim)).length
    let rest := s.dropWhile (· ∈ delim)
    let len := (rest.takeWhile (· ∉ delim)).length
    if rest = [] then (m, none, p + s.length)
    else if len = rest.length then (m, some (p + skipped), p + skipped + len)
    else (m.set (p + skipped + len) 0, some (p + skipped), p + skipped + len + 1)

/-! ### On a terminated text -/

section Spec

variable {s post : Bytes}

theorem drop_pre (pre x : Bytes) : (pre ++ x).drop pre.length = x := by simp

theorem readStr_text (hs : NulFree s) : readStr (s ++ 0 :: post) = .ok s := by
  induction s with
  | nil => simp [readStr]
  | cons c s ih =>
    obtain ⟨hc, hs⟩ := nulFree_cons.1 hs
    simp [readStr, hc, ih hs, Except.map]

theorem readStrn_text {n : ℕ} (hs : NulFree s) (hn : n ≤ s.length) :
    readStrn n (s ++ post) = .ok (s.take n) := by
  induction s generalizing n with
  | nil =>
    obtain rfl : n = 0 := by simpa using hn
    simp [readStrn]
  | cons c s ih =>
    obtain ⟨hc, hs⟩ := nulFree_cons.1 hs
    cases n with
    | zero => simp [readStrn]
    | succ n => simp [readStrn, hc, ih hs (by simpa using hn), Except.map]

theorem skipSpaces_text {c : UInt8} (hc : c ≠ SP) :
    skipSpaces (s ++ c :: post) = .ok (s.takeWhile (· = SP)).length := by
  induction s with
  | nil => simp [skipSpaces, hc]
  | cons x s ih =>
    by_cases hx : x = SP
    · subst hx
      simp [skipSpaces, ih, Except.map]
    · simp [skipSpaces, hx]

theorem findSub_crlf (s : Bytes) : findSub CRLF s = (cutLine s).map (·.1.length) := by
  induction s using cutLine.induct with
  | case1 => simp [findSub, cutLine]
  | case2 c => simp [findSub, cutLine]
  | case3 c d s hcd =>
    obtain ⟨rfl, rfl⟩ := hcd
    simp [findSub, cutLine, List.isPrefixOf]
  | case4 c d s hcd ih =>
    have hp : CRLF.isPrefixOf (c :: d :: s) = false := by
      simp only [List.isPrefixOf, Bool.and_true, Bool.and_eq_false_iff, beq_eq_false_iff_ne]
      by_contra hn
      push Not at hn
      exact hcd ⟨hn.1.symm, hn.2.symm⟩
    rw [findSub, hp, ih]
    simp only [cutLine, hcd, if_false, Bool.false_eq_true, Option.map_map]
    rfl

theorem strstr_crlf (pre post : Bytes) (hs : NulFree s) :
    strstr (pre ++ s ++ 0 :: post) pre.length CRLF =
      .ok ((cutLine s).map fun p => pre.length + p.1.length) := by
  unfold strstr
  rw [List.append_assoc, drop_pre, readStr_text hs]
  simp only [Except.map, findSub_crlf, Option.map_map]
  rfl

theorem findIdx?_mem {c : UInt8} (l : Bytes) : l.findIdx? (· = c) =
    if c ∈ l then some (l.takeWhile (· ≠ c)).length else none := by
  induction l with
  | nil => simp
  | cons x l ih =>
    by_cases hx : x = c
    · simp [List.findIdx?_cons, hx]
    · have hx' : c ≠ x := fun h => hx h.symm
      simp only [List.findIdx?_cons, hx, decide_false, Bool.false_eq_true, if_false, ih,
        List.mem_cons, hx', false_or, ne_eq, not_false_eq_true, decide_true,
        List.takeWhile_cons_of_pos, List.length_cons]
      split <;> simp

theorem memchr_text (pre post : Bytes) (c : UInt8) (l : Bytes) :
    memchr (pre ++ l ++ post) pre.length c l.length =
      .ok (if c ∈ l then some (pre.length + (l.takeWhile (· ≠ c)).length) else none) := by
  unfold memchr readBytes
  rw [List.append_assoc, drop_pre, if_pos (by simp)]
  simp only [Except.map, List.take_left, findIdx?_mem]
  split <;> simp

theorem snprintfStr_text (size : ℕ) (pre post : Bytes) {n : ℕ} (hs : NulFree s) (hn : n ≤ s.length) :
    snprintfStr size (pre ++ s ++ post) pre.length n = .ok ((s.take n).take (size - 1)) := by
  unfold snprintfStr
  rw [List.append_assoc, drop_pre, readStrn_text hs hn]
  rfl

/-! ### `strtok` -/

/-- What a call of `strtok` leaves behind it of the text `s`: the bytes up to the saved pointer,
with the delimiter after the token overwritten. -/
def strtokDone (d : UInt8 → Bool) (s : Bytes) : Bytes :=
  match token d s with
  | none => s
  | some (t, _) =>
    let a := s.takeWhile d
    if a.length + t.length = s.length then a ++ t else a ++ t ++ [0]

/-- The text from the saved pointer on. -/
def strtokRest (d : UInt8 → Bool) (s : Bytes) : Bytes := ((token d s).map (·.2)).getD []

theorem strtok_text (pre post delim : Bytes) (hs : NulFree s) :
    strtok (pre ++ s ++ 0 :: post) pre.length delim =
      .ok (pre ++ strtokDone (· ∈ delim) s ++ strtokRest (· ∈ delim) s ++ 0 :: post,
        (token (· ∈ delim) s).map fun _ => pre.length + (s.takeWhile (· ∈ delim)).length,
        pre.length + (strtokDone (· ∈ delim) s).length) := by
  unfold strtok
  rw [List.append_assoc, drop_pre, readStr_text hs]
  simp only [Except.map]
  generalize hd : (fun c => decide (c ∈ delim)) = d
  have hd' : (fun c => decide (c ∉ delim)) = fun c => !d c := by
    subst hd
    funext c
    simp
  rw [hd']
  set a := s.takeWhile d with ha
  have hsplit : a ++ s.dropWhile d = s := List.takeWhile_append_dropWhile
  rcases token_cases d s with ⟨hnil, ht⟩ | ⟨t, hne, htd, ⟨hr, ht⟩ | ⟨c, r, hc, hr, ht⟩⟩
  · simp [strtokDone, strtokRest, ht, hnil]
  · -- the token runs to the end of the text: nothing is written
    have hall : t.takeWhile (fun c => !d c) = t :=
      List.takeWhile_eq_self_iff.2 fun x hx => by simp [htd x hx]
    rw [hr] at hsplit
    have hlen : a.length + t.length = s.length := by rw [← hsplit]; simp
    simp [strtokDone, strtokRest, ht, hr, hne, hall, ← ha, hlen, hsplit, Nat.add_assoc]
  · have hall : (t ++ c :: r).takeWhile (fun c => !d c) = t := by
      rw [List.takeWhile_append_of_pos fun x hx => by simp [htd x hx]]
      simp [hc]
    rw [hr] at hsplit
    have hlen : ¬ a.length + t.length = s.length := by rw [← hsplit]; simp
    have hm : pre ++ (s ++ 0 :: post) = pre ++ a ++ t ++ c :: (r ++ 0 :: post) := by
      rw [← hsplit]; simp
    have hp : pre.length + a.length + t.length = (pre ++ a ++ t).length := by simp [Nat.add_assoc]
    simp [strtokDone, strtokRest, ht, hr, hall, ← ha, hlen, hm, hp]
    omega

/-- The token of a call of `strtok` is a C string in the memory it leaves, and stays one in every
memory that the next calls leave when it is not the last one. -/
theorem strtokDone_of_token {d : UInt8 → Bool} {t r : Bytes} (h : token d s = some (t, r)) :
    strtokDone d s = s.takeWhile d ++ t ++ [0] ∨ strtokDone d s = s.takeWhile d ++ t ∧ r = [] := by
  have hsplit := List.takeWhile_append_dropWhile (p := d) (l := s)
  rcases token_cases d s with ⟨-, ht⟩ | ⟨t', -, -, ⟨hr, ht⟩ | ⟨c, r', -, hr, ht⟩⟩
  · rw [ht] at h
    cases h
  · rw [ht] at h
    cases h
    right
    have hlen : (s.takeWhile d).length + t.length = s.length := by
      rw [← hr, ← List.length_append, hsplit]
    simp [strtokDone, ht, hlen]
  · rw [ht] at h
    cases h
    left
    have hlen : ¬ (s.takeWhile d).length + t.length = s.length := by
      have := congrArg List.length hsplit
      rw [hr] at this
      simp at this
      omega
    simp [strtokDone, ht, hlen]

theorem strtokRest_of_token {d : UInt8 → Bool} {t r : Bytes} (h : token d s = some (t, r)) :
    strtokRest d s = r := by
  simp [strtokRest, h]

end Spec

/-! ### Stores -/

/-- An access to a block: its first byte, its number of bytes, and the number of bytes
allocated. -/
structure Access where
  first : ℕ
  bytes : ℕ
  block : ℕ

def Access.Inside (t : Access) : Prop := t.first + t.bytes ≤ t.block

instance (t : Access) : Decidable t.Inside := inferInstanceAs (Decidable (_ ≤ _))

/-- The block after `bs` was written from the offset `p` on.  A store outside is not seen in it, as if it
fell on bytes to spare behind the block: `Access.Inside` says whether there is one. -/
def storeAt (block : Bytes) (p : ℕ) (bs : Bytes) : Bytes :=
  block.take p ++ bs.take (block.length - p) ++ block.drop (p + bs.length)

/-- `realloc` to `size` bytes, where the memory it adds contains `junk`. -/
def reallocBytes (junk : ℕ → UInt8) (block : Bytes) (size : ℕ) : Bytes :=
  block.take size ++ (List.range' block.length (size - block.length)).map junk

section Block

variable {block bs : Bytes} {p k size : ℕ} {junk : ℕ → UInt8}

theorem storeAt_length (h : p + bs.length ≤ block.length) :
    (storeAt block p bs).length = block.length := by
  simp only [storeAt, List.length_append, List.length_take, List.length_drop]
  omega

theorem storeAt_take (h : p + bs.length ≤ block.length) :
    (storeAt block p bs).take (p + bs.length) = block.take p ++ bs := by
  have hlen : (block.take p ++ bs).length = p + bs.length := by
    simp only [List.length_append, List.length_take]
    omega
  unfold storeAt
  rw [List.take_of_length_le (show bs.length ≤ block.length - p by omega), ← hlen, List.take_left]

theorem reallocBytes_length : (reallocBytes junk block size).length = size := by
  simp only [reallocBytes, List.length_append, List.length_take, List.length_map,
    List.length_range']
  omega

theorem reallocBytes_take (hk : k ≤ block.length) (hsize : k ≤ size) :
    (reallocBytes junk block size).take k = block.take k := by
  unfold reallocBytes
  rw [List.take_append_of_le_length (by simp only [List.length_take]; omega), List.take_take,
    Nat.min_eq_left hsize]

end Block

end HttpServer.Lib

import HttpServer.Hashmap
import HttpServer.Lib.Mixing

/-!
# What `default_hash` keeps apart

Every step of the loop and every step after it is a permutation of the 32-bit words, whatever the
`char` is that goes in.  So keys that differ in one byte never have the same hash, and what is appended
to two keys neither makes nor removes a collision (`defaultHash_append_iff`, `defaultHash_byte_iff`).
-/

namespace HttpServer

open Lib

/-- The body of the loop of `default_hash`. -/
def hashRound (hash : UInt32) (c : UInt8) : UInt32 :=
  let hash := hash + charToUInt32 c
  let hash := hash + (hash <<< 10)
  hash ^^^ (hash >>> 6)

/-- What `default_hash` does after the loop. -/
def hashFinish (hash : UInt32) : UInt32 :=
  let hash := hash + (hash <<< 3)
  let hash := hash ^^^ (hash >>> 11)
  hash + (hash <<< 15)

theorem defaultHash_eq (key : Bstring) : defaultHash key = hashFinish (key.foldl hashRound 0) := by
  unfold defaultHash
  rfl

/-! ### The steps -/

theorem addShift_uint32 {k : UInt32} (hk : 0 < (k.toBitVec % 32).toNat) :
    Function.Injective fun x : UInt32 => x + (x <<< k) := by
  intro x y h
  have hbits := congrArg UInt32.toBitVec h
  simp only [UInt32.toBitVec_add, UInt32.toBitVec_shiftLeft, BitVec.shiftLeft_eq'] at hbits
  exact UInt32.toBitVec_inj.1 (addShift_injective hk hbits)

theorem xorShift_uint32 {k : UInt32} (hk : 0 < (k.toBitVec % 32).toNat) :
    Function.Injective fun x : UInt32 => x ^^^ (x >>> k) := by
  intro x y h
  have hbits := congrArg UInt32.toBitVec h
  simp only [UInt32.toBitVec_xor, UInt32.toBitVec_shiftRight, BitVec.ushiftRight_eq'] at hbits
  exact UInt32.toBitVec_inj.1 (xorShift_injective hk hbits)

theorem hashFinish_injective : Function.Injective hashFinish := by
  have h₁ := addShift_uint32 (k := 3) (by decide)
  have h₂ := xorShift_uint32 (k := 11) (by decide)
  have h₃ := addShift_uint32 (k := 15) (by decide)
  exact h₃.comp (h₂.comp h₁)

theorem hashRound_eq_iff {h h' : UInt32} {c c' : UInt8} :
    hashRound h c = hashRound h' c' ↔ h + charToUInt32 c = h' + charToUInt32 c' := by
  have h₁ := addShift_uint32 (k := 10) (by decide)
  have h₂ := xorShift_uint32 (k := 6) (by decide)
  exact (h₂.comp h₁).eq_iff

theorem charToUInt32_injective : Function.Injective charToUInt32 := by
  intro a b h
  unfold charToUInt32 at h
  have hint : a.toInt8.toInt = b.toInt8.toInt := by
    have := congrArg (fun x : UInt32 => x.toInt32.toInt) h
    simpa using this
  have := Int8.toInt_inj.1 hint
  simpa using congrArg Int8.toUInt8 this

/-! ### Keys -/

theorem foldl_hashRound_injective (s : Bytes) : Function.Injective fun h => s.foldl hashRound h := by
  induction s with
  | nil => exact Function.injective_id
  | cons c s ih =>
    intro h h' heq
    exact add_right_cancel (hashRound_eq_iff.1 (ih heq))

/-- **What is appended to two keys** neither makes nor removes a collision. -/
theorem defaultHash_append_iff (p q s : Bstring) :
    defaultHash (p ++ s) = defaultHash (q ++ s) ↔ defaultHash p = defaultHash q := by
  simp only [defaultHash_eq, hashFinish_injective.eq_iff, List.foldl_append]
  exact (foldl_hashRound_injective s).eq_iff

/-- **Keys that differ in one byte** have different hashes, and collisions are not changed by what is
appended to both keys. -/
theorem defaultHash_byte_iff (p q s : Bstring) (a b : UInt8) :
    (defaultHash (p ++ a :: s) = defaultHash (p ++ b :: s) ↔ a = b) ∧
      (defaultHash (p ++ s) = defaultHash (q ++ s) ↔ defaultHash p = defaultHash q) := by
  refine ⟨?_, defaultHash_append_iff p q s⟩
  rw [List.append_cons, List.append_cons p b, defaultHash_append_iff]
  simp only [defaultHash_eq, hashFinish_injective.eq_iff, List.foldl_append, List.foldl_cons,
    List.foldl_nil, hashRound_eq_iff]
  rw [add_right_inj, charToUInt32_injective.eq_iff]

end HttpServer

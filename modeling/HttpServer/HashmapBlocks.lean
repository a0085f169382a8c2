import HttpServer.Blocks
import HttpServer.HashmapRuns

/-!
# The life of a hash map

A map from `Hashmap_create` to `Hashmap_destroy`, with any calls between.  A set takes over the strings
of its key and its value, a lookup lends a string of the map, and a delete gives the string of the value
back, which the caller destroys.  Whatever the calls are, no block is freed twice and none is used after
it is freed, and every set costs two blocks for good (`mapLife_blocks`): the data of the key and of the
value when the pair is there at the end, and the string of the key when the pair was deleted.
-/

namespace HttpServer

open Lib

namespace Blocks

/-- A call on a map; its strings are made by `bfromcstr`. -/
inductive MapCall where
  | set (key data : Bytes)
  | get (key : Bytes)
  | delete (key : Bytes)

namespace MapCall

def key : MapCall → Bytes
  | set key _ | get key | delete key => key

def isSet : MapCall → Bool
  | set .. => true
  | _ => false

def plain : MapCall → HashmapCall Bytes
  | set key data => .set .calm key data
  | get key => .get key
  | delete key => .delete key

def lost (map : Hashmap Bytes) : MapCall → ℕ
  | delete key => if (map.get key).isSome then 2 else 0
  | _ => 0

end MapCall

namespace HashmapPtr

/-- One call: what it returns, and the map after it. -/
def call (m : HashmapPtr) : MapCall → M (Option Bytes × HashmapPtr)
  | .set key data => do
    let m ← m.setField key data
    pure (none, m)
  | .get key => do
    match ← m.getCstr key with
    | some b => do
      touch b.blocks
      pure (some b.text, m)
    | none => pure (none, m)
  | .delete key => do
    let lookupKey ← bfromcstr key
    let deleted ← m.delete lookupKey
    bdestroy lookupKey
    match deleted.1 with
    | some b => do
      bdestroy b
      pure (some b.text, deleted.2)
    | none => pure (none, deleted.2)

/-- Calls one after the other, and `Hashmap_destroy`. -/
def life : List MapCall → HashmapPtr → M (List (Option Bytes))
  | [], m => do
    m.destroy
    pure []
  | c :: calls, m => do
    let called ← m.call c
    let results ← life calls called.2
    pure (called.1 :: results)

section Calls

variable {m : HashmapPtr} {key : Bytes}

theorem exchanges_delete_none {key : BString} (hnone : m.map.get key.text = none) :
    Exchanges (m.blocks + key.blocks) (m.delete key) (fun r => r = (none, m))
      (fun _ => m.blocks + key.blocks) 0 := by
  refine (exchanges_touch_all _).step 0 (add_zero _).symm fun _ _ => ?_
  simp only [hnone]
  exact .ret rfl (add_zero _)

theorem exchanges_call_get (hkey : NulFree key) : Exchanges m.blocks (m.call (.get key))
    (fun r => r = (m.value.get key, m)) (fun _ => m.blocks) 0 := by
  refine (m.exchanges_getCstr key).step 0 (add_zero _).symm fun r hr => ?_
  have htext : r.map (·.text) = m.value.get key := by
    rw [hr]
    exact m.text_found key
  rw [← htext, add_zero]
  cases r with
  | none => exact .ret rfl rfl
  | some b =>
    refine (exchanges_touch (mem_blocks_of_found hkey hr b rfl)).step 0 (add_zero _).symm fun _ _ => ?_
    exact .ret rfl (add_zero _)

theorem exchanges_call_missing (hnone : m.map.get key = none) :
    Exchanges m.blocks (m.call (.delete key)) (fun r => r = (none, m)) (fun _ => m.blocks) 0 := by
  refine (exchanges_bfromcstr key).step m.blocks (zero_add _).symm ?_
  rintro lookupKey rfl
  refine (exchanges_delete_none hnone).step 0 ?_ ?_
  · rw [add_zero, add_comm]
  rintro _ rfl
  refine (exchanges_bdestroy lookupKey).step m.blocks ?_ fun _ _ => .ret rfl (zero_add _)
  rw [add_zero, add_comm]

theorem exchanges_call_found {p : Slot} (hkey : NulFree key) (hp : m.map.get key = some p) :
    Exchanges m.blocks (m.call (.delete key))
      (fun r => r.1 = some p.data.text ∧ r.2.value = (m.value.delete key).2)
      (fun r => r.2.blocks) 2 := by
  refine (exchanges_bfromcstr key).step m.blocks (zero_add _).symm ?_
  rintro lookupKey rfl
  refine (exchanges_delete hkey hp).stepLosing (m := 0) 0 ?_ rfl ?_
  · rw [add_zero, add_comm]
  rintro ⟨_, m'⟩ ⟨rfl, hvalue⟩
  refine (exchanges_bdestroy lookupKey).step (m'.blocks + p.data.blocks) ?_ fun _ _ => ?_
  · rw [add_zero, add_comm]
  refine (exchanges_bdestroy p.data).step m'.blocks ?_ fun _ _ => .ret ⟨rfl, hvalue⟩ (zero_add _)
  rw [zero_add, add_comm]

/-- **A delete** loses the string of the key. -/
theorem exchanges_call_delete (hkey : NulFree key) : Exchanges m.blocks (m.call (.delete key))
    (fun r => r.1 = (m.value.delete key).1 ∧ r.2.value = (m.value.delete key).2)
    (fun r => r.2.blocks) ((MapCall.delete key).lost m.value) := by
  rw [MapCall.lost, value_get]
  cases hp : m.map.get key with
  | none =>
    have hdelete : m.value.delete key = (none, m.value) := by
      rw [value_delete, Hashmap.delete_of_get_none m.wf hkey hp]
      rfl
    refine (exchanges_call_missing hp).imp ?_ ?_ rfl
    · rintro _ rfl
      rw [hdelete]
      exact ⟨rfl, rfl⟩
    · rintro _ rfl
      rfl
  | some p =>
    have hfound : (m.value.delete key).1 = some p.data.text := by
      rw [value_delete, (Hashmap.entries_delete m.wf hkey hp).1]
      rfl
    rw [hfound]
    exact exchanges_call_found hkey hp

/-- **One call** returns what it returns without blocks, and loses `MapCall.lost`. -/
theorem exchanges_call (m : HashmapPtr) {c : MapCall} (hkey : NulFree c.key) :
    Exchanges m.blocks (m.call c)
      (fun r => r.1 = (m.value.call c.plain).1 ∧ r.2.value = (m.value.call c.plain).2)
      (fun r => r.2.blocks) (c.lost m.value) := by
  cases c with
  | set key data =>
    refine (m.exchanges_setField key data).step 0 (add_zero _).symm fun m' hm' => ?_
    exact .ret ⟨rfl, hm'⟩ (add_zero _)
  | get key =>
    refine (exchanges_call_get hkey).imp ?_ ?_ rfl
    · rintro _ rfl
      exact ⟨rfl, rfl⟩
    · rintro _ rfl
      rfl
  | delete key => exact exchanges_call_delete hkey

theorem wf_call {map : Hashmap Bytes} (h : map.WF) {c : MapCall} (hkey : NulFree c.key) :
    (map.call c.plain).2.WF := by
  cases c with
  | set key data => exact h.set key data
  | get key => exact h
  | delete key => exact h.delete key

/-- The balance of a call: what it loses, and what a destroy of the map after it would lose. -/
theorem lost_add {map : Hashmap Bytes} (h : map.WF) {c : MapCall} (hkey : NulFree c.key) :
    c.lost map + 2 * (map.call c.plain).2.entries.length =
      2 * map.entries.length + if c.isSet then 2 else 0 := by
  cases c with
  | set key data =>
    have hset := (Hashmap.entries_setWith h (r := .calm) rfl key data).length_eq
    simp only [MapCall.lost, MapCall.plain, MapCall.isSet, Hashmap.call, hset, List.length_cons, if_true]
    omega
  | get key => exact zero_add _
  | delete key =>
    replace hkey : NulFree key := hkey
    show (if (map.get key).isSome then 2 else 0) + 2 * (map.delete key).2.entries.length =
      2 * map.entries.length + 0
    cases hv : map.get key with
    | none =>
      rw [Hashmap.delete_of_get_none h hkey hv]
      exact zero_add _
    | some v =>
      have hlength := (Hashmap.entries_delete h hkey hv).2.2.length_eq
      rw [hlength, List.length_cons, Option.isSome_some, if_pos rfl]
      omega

/-- **The rest of a map's life** loses two blocks of every entry that it has, and of every set. -/
theorem exchanges_life (m : HashmapPtr) (hwf : m.value.WF) {calls : List MapCall}
    (hkeys : ∀ c ∈ calls, NulFree c.key) :
    Exchanges m.blocks (life calls m)
      (fun results => results = (m.value.callAll (calls.map MapCall.plain)).1) (fun _ => 0)
      (2 * m.value.entries.length + 2 * calls.countP MapCall.isSet) := by
  induction calls generalizing m with
  | nil =>
    refine m.exchanges_destroy.stepLosing (m := 0) 0 (add_zero _).symm rfl fun _ _ => ?_
    exact .ret rfl (zero_add _)
  | cons c calls ih =>
    obtain ⟨hkey, hkeys⟩ := List.forall_mem_cons.1 hkeys
    have hbalance := lost_add hwf hkey
    refine (m.exchanges_call hkey).stepLosing
      (m := 2 * (m.value.call c.plain).2.entries.length + 2 * calls.countP MapCall.isSet) 0
      (add_zero _).symm ?_ ?_
    · rw [List.countP_cons]
      split_ifs at hbalance ⊢ <;> omega
    rintro ⟨result, m'⟩ ⟨rfl, hvalue⟩
    rw [← hvalue, add_zero]
    refine (ih m' (hvalue ▸ wf_call hwf hkey) hkeys).stepLosing (m := 0) 0 (add_zero _).symm (add_zero _).symm ?_
    rintro _ rfl
    refine .ret ?_ (zero_add _)
    rw [hvalue]
    rfl

end Calls

end HashmapPtr

/-- A map from its creation to its destruction. -/
def mapLife (calls : List MapCall) : M (List (Option Bytes)) := do
  let m ← HashmapPtr.create
  HashmapPtr.life calls m

/-- **The price of a map.**  Whatever calls are made on it, no block is freed twice and none is used
after it is freed, the calls return what they return on the map without blocks, and exactly two blocks
are lost for every set. -/
theorem mapLife_blocks {calls : List MapCall} (hkeys : ∀ c ∈ calls, NulFree c.key) (L : Ledger) :
    ∃ L' lost, mapLife calls L =
        .ok (((Hashmap.create : Hashmap Bytes).callAll (calls.map MapCall.plain)).1, L') ∧
      L'.live = L.live + lost ∧ lost.card = 2 * calls.countP MapCall.isSet := by
  have hlife : Exchanges 0 (mapLife calls) (fun results => results =
      ((Hashmap.create : Hashmap Bytes).callAll (calls.map MapCall.plain)).1) (fun _ => 0)
      (2 * calls.countP MapCall.isSet) := by
    refine HashmapPtr.exchanges_create.step 0 rfl fun m hm => ?_
    have h := m.exchanges_life (hm ▸ Hashmap.wf_create) hkeys
    rw [hm, Hashmap.entries_create, List.length_nil, Nat.mul_zero, zero_add] at h
    rwa [add_zero]
  obtain ⟨results, L', lost, hrun, rfl, hcard, hlive⟩ := hlife L L.live (zero_add _).symm
  exact ⟨L', lost, hrun, by rw [hlive, zero_add, add_comm], hcard⟩

/-- A key that is set twice, deleted and looked up. -/
def twice : List MapCall :=
  [.set (lit "A") (lit "x"), .set (lit "A") (lit "y"), .delete (lit "A"), .get (lit "A")]

theorem mapLife_blocks_twice : ∃ L' lost, mapLife twice Ledger.empty =
      .ok (((Hashmap.create : Hashmap Bytes).callAll (twice.map MapCall.plain)).1, L') ∧
    L'.live = Ledger.empty.live + lost ∧ lost.card = 4 :=
  mapLife_blocks (by decide) Ledger.empty

end Blocks

end HttpServer

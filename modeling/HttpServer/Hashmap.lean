import HttpServer.DArray

/-!
# The hash map of `hashmap.c`

A `Hashmap` is an array of a hundred buckets, created on the first key that falls into them, each a
growable array of nodes.  Keys are byte strings (the `bstring`s of the program); the map is generic
in its values.  The default comparison and hash are the only ones the program uses.

`Holds m B` says that the bucket `i` of `m` holds the nodes `B i`, every node in the bucket of its
key and with the hash of its key.  Set, get, delete and traverse are then read off the buckets, and
off `entries`, the pairs of the map in the order of a traversal.
-/

namespace HttpServer

open Lib

/-- A `bstring`: its `slen` bytes of data. -/
abbrev Bstring := Bytes

/-- `bstrcmp`: it does not look past a NUL that the strings share. -/
def bstrcmp : Bstring → Bstring → ℤ
  | [], [] => 0
  | _ :: _, [] => 1
  | [], _ :: _ => -1
  | a :: s, b :: t =>
    let v := a.toInt8.toInt - b.toInt8.toInt
    if v ≠ 0 then v else if a = 0 then 0 else bstrcmp s t

/-- A `char`, signed, in the arithmetic of `uint32_t`. -/
def charToUInt32 (c : UInt8) : UInt32 := c.toInt8.toInt32.toUInt32

@[irreducible] def defaultHash (key : Bstring) : UInt32 :=
  let hash := key.foldl (fun hash c =>
    let hash := hash + charToUInt32 c
    let hash := hash + (hash <<< 10)
    hash ^^^ (hash >>> 6)) 0
  let hash := hash + (hash <<< 3)
  let hash := hash ^^^ (hash >>> 11)
  hash + (hash <<< 15)

abbrev DEFAULT_NUMBER_OF_BUCKETS : ℕ := 100

structure HashmapNode (α : Type) where
  key : Bstring
  data : α
  hash : UInt32

structure Hashmap (α : Type) where
  buckets : DArray (DArray (HashmapNode α))

@[irreducible] def bucketOf (key : Bstring) : ℕ := (defaultHash key).toNat % DEFAULT_NUMBER_OF_BUCKETS

namespace Hashmap

variable {α σ : Type}

/-- `Hashmap_create(NULL, NULL)`. -/
def create : Hashmap α :=
  let buckets := DArray.fresh PTR_SIZE DEFAULT_NUMBER_OF_BUCKETS
  { buckets := { buckets with end_ := buckets.max } }

/-- `Hashmap_find_bucket`: the bucket of `key` and the map, in which it is created if asked for. -/
def findBucket (map : Hashmap α) (key : Bstring) (create : Bool) :
    Option (DArray (HashmapNode α)) × Hashmap α :=
  let bucketN := bucketOf key
  match map.buckets.get bucketN with
  | some bucket => (some bucket, map)
  | none =>
    if create then
      let bucket := DArray.fresh PTR_SIZE DEFAULT_NUMBER_OF_BUCKETS
      (some bucket, { map with buckets := map.buckets.set bucketN (some bucket) })
    else (none, map)

/-- The map after the bucket of `key` was changed in place. -/
def putBucket (map : Hashmap α) (key : Bstring) (bucket : DArray (HashmapNode α)) : Hashmap α :=
  { map with buckets := map.buckets.set (bucketOf key) (some bucket) }

/-- `Hashmap_set`, where the push calls `realloc` as `r` says: its result is not looked at. -/
def setWith (r : Realloc (HashmapNode α)) (map : Hashmap α) (key : Bstring) (data : α) :
    Hashmap α :=
  match map.findBucket key true with
  | (some bucket, map) => map.putBucket key (bucket.push r (some ⟨key, data, defaultHash key⟩)).2
  | (none, map) => map

/-- `Hashmap_set`, with allocations succeeding. -/
def set (map : Hashmap α) (key : Bstring) (data : α) : Hashmap α := map.setWith .calm key data

/-- `Hashmap_get_node`: the index of the first node of the bucket with this hash and key. -/
def getNode (hash : UInt32) (bucket : DArray (HashmapNode α)) (key : Bstring) : Option ℕ :=
  (List.range bucket.end_).find? fun i =>
    match bucket.get i with
    | some node => node.hash = hash ∧ bstrcmp node.key key = 0
    | none => false

def get (map : Hashmap α) (key : Bstring) : Option α :=
  match (map.findBucket key false).1 with
  | none => none
  | some bucket =>
    match getNode (defaultHash key) bucket key with
    | none => none
    | some i => (bucket.get i).map (·.data)

def getCstr (map : Hashmap α) (key : Bytes) : Option α := map.get key

/-- `Hashmap_delete`: the last node of the bucket takes the place of the deleted one.  Two nodes of
a bucket are the same pointer when they are in the same slot. -/
def delete (map : Hashmap α) (key : Bstring) : Option α × Hashmap α :=
  match (map.findBucket key false).1 with
  | none => (none, map)
  | some bucket =>
    match getNode (defaultHash key) bucket key with
    | none => (none, map)
    | some i =>
      let data := (bucket.get i).map (·.data)
      let (ending, bucket) := bucket.pop .calm
      let bucket := if i ≠ bucket.end_ then bucket.set i ending else bucket
      (data, map.putBucket key bucket)

/-- The nodes of the map by bucket and slot. -/
def nodes (map : Hashmap α) : List (HashmapNode α) :=
  (List.range map.buckets.end_).flatMap fun i =>
    match map.buckets.get i with
    | some bucket => (List.range bucket.end_).filterMap bucket.get
    | none => []

/-- The nodes in the slots of bucket `i`, in order. -/
def slots (map : Hashmap α) (i : ℕ) : List (HashmapNode α) :=
  match map.buckets.get i with
  | some bucket => (List.range bucket.end_).filterMap bucket.get
  | none => []

/-- The loop of `Hashmap_traverse`, which a callback that does not return zero ends. -/
def traverseNodes (cb : HashmapNode α → σ → ℤ × σ) : List (HashmapNode α) → σ → ℤ × σ
  | [], s => (0, s)
  | node :: nodes, s =>
    let (rc, s) := cb node s
    if rc ≠ 0 then (rc, s) else traverseNodes cb nodes s

def traverse (map : Hashmap α) (cb : HashmapNode α → σ → ℤ × σ) (s : σ) : ℤ × σ :=
  traverseNodes cb map.nodes s

/-- The pairs of the map in the order of a traversal. -/
def entries (map : Hashmap α) : List (Bstring × α) := map.nodes.map fun n => (n.key, n.data)

end Hashmap

end HttpServer

import HttpServer.Bstrlib
import HttpServer.HashmapValues
import HttpServer.Lib.Ledger

/-!
# The blocks of strings and hash maps

The functions of the server once more, now with every block that they allocate, access and free.  A
pointer carries what is stored behind it, so that a value is that of the model without blocks: `value`
takes the blocks away.

A `bstring` is two blocks, its header and its data.  `Hashmap_destroy` frees the header of a key and of
a value and leaves the data (`exchanges_destroy`), and `Hashmap_delete` frees the node alone
(`exchanges_delete`).
-/

namespace HttpServer

open Lib

namespace Blocks

/-- A program of the server on its blocks. -/
abbrev M (α : Type) : Type := BlockM Fault α

/-! ### Strings -/

def blocksOf {α : Type} (blocks : α → Multiset ℕ) (p : Option α) : Multiset ℕ := p.elim 0 blocks

/-- A `char *`: the block, and the bytes of it that count. -/
structure CString where
  block : ℕ
  text : Bytes

/-- A `bstring`: the block of the header, the block of the data, and what they hold. -/
structure BString where
  header : ℕ
  data : ℕ
  mlen : ℤ
  text : Bstring

def CString.blocks (s : CString) : Multiset ℕ := {s.block}

def BString.blocks (b : BString) : Multiset ℕ := {b.header} + {b.data}

theorem BString.blocks_eq (b : BString) : b.blocks = {b.header} + {b.data} := rfl

/-- `strdup`, and `calloc` with the bytes that are stored next. -/
def strdup (text : Bytes) : M CString := do
  let block ← alloc
  pure { block, text }

def freePtr : Option CString → M Unit
  | none => pure ()
  | some s => free s.block

def bfromcstr (str : Bytes) : M BString := do
  let header ← alloc
  let data ← alloc
  let mlen := snapUpSize (str.length + (2 - if str.length ≠ 0 then 1 else 0))
  pure { header, data, mlen, text := str }

def bdestroy (b : BString) : M Unit := do
  touch b.blocks
  free b.data
  free b.header

/-- `bstr2cstr(b, 0)`, also of NULL. -/
def bstr2cstr : Option BString → M (Option CString)
  | none => pure none
  | some b => do
    touch b.blocks
    let r ← strdup b.text
    pure (some r)

def reallocIf (called : Bool) (b : ℕ) : M ℕ := if called then realloc b else pure b

/-- `bconcat`, of two strings: `balloc` moves the block when there is too little room. -/
def bconcat (b0 b1 : BString) : M BString := do
  touch (b0.blocks + b1.blocks)
  let olen : ℤ := b0.text.length + b1.text.length + 1
  let grows : Bool := b0.mlen ≤ olen ∧ b0.mlen < snapUpSize olen
  let data ← reallocIf grows b0.data
  pure {
    header := b0.header
    data
    mlen := if grows then snapUpSize olen else b0.mlen
    text := b0.text ++ b1.text }

section Strings

variable {text : Bytes} {b b0 b1 : BString}

theorem exchanges_strdup (text : Bytes) :
    Exchanges 0 (strdup text) (fun s => s.text = text) CString.blocks 0 := by
  refine exchanges_alloc.step 0 rfl fun block _ => ?_
  exact .ret rfl (add_zero _)

theorem exchanges_freePtr (s : Option CString) :
    Exchanges (blocksOf CString.blocks s) (freePtr s) (fun _ => True) (fun _ => 0) 0 := by
  cases s with
  | none => exact .ret trivial rfl
  | some s => exact exchanges_free s.block

theorem exchanges_bfromcstr (str : Bytes) :
    Exchanges 0 (bfromcstr str) (fun b => b.text = str) BString.blocks 0 := by
  refine exchanges_alloc.step 0 rfl fun header _ => ?_
  refine exchanges_alloc.step {header} (by simp) fun data _ => ?_
  exact .ret rfl (add_comm _ _)

theorem exchanges_bdestroy (b : BString) :
    Exchanges b.blocks (bdestroy b) (fun _ => True) (fun _ => 0) 0 := by
  refine (exchanges_touch_all _).step 0 (add_zero _).symm fun _ _ => ?_
  refine (exchanges_free b.data).step {b.header} ?_ fun _ _ => ?_
  · rw [add_zero, BString.blocks, add_comm]
  · rw [zero_add]
    exact exchanges_free b.header

theorem exchanges_reallocIf (called : Bool) (b : ℕ) :
    Exchanges {b} (reallocIf called b) (fun _ => True) (fun moved => {moved}) 0 := by
  cases called with
  | true => exact exchanges_realloc b
  | false => exact .ret trivial rfl

theorem exchanges_bstr2cstr {r : Option BString} (lent : Multiset ℕ)
    (h : ∀ b, r = some b → ∀ x ∈ b.blocks, x ∈ lent) : Exchanges lent (bstr2cstr r)
      (fun s => s.map (·.text) = r.map (·.text)) (fun s => blocksOf CString.blocks s + lent) 0 := by
  cases r with
  | none => exact .ret rfl (zero_add _).symm
  | some b =>
    refine (exchanges_touch (h b rfl)).step 0 (add_zero _).symm fun _ _ => ?_
    refine (exchanges_strdup b.text).step lent (by simp) fun s hs => ?_
    exact .ret (congrArg some hs) rfl

theorem exchanges_bconcat {rest : Multiset ℕ} (h : ∀ x ∈ b1.blocks, x ∈ b0.blocks + rest) :
    Exchanges (b0.blocks + rest) (bconcat b0 b1) (fun b => b.text = b0.text ++ b1.text)
      (fun b => b.blocks + rest) 0 := by
  refine (exchanges_touch fun x hx => ?_).step 0 (add_zero _).symm fun _ _ => ?_
  · rcases Multiset.mem_add.1 hx with hx | hx
    · exact Multiset.mem_add.2 (Or.inl hx)
    · exact h x hx
  refine (exchanges_reallocIf _ b0.data).step ({b0.header} + rest) ?_ fun data _ => .ret rfl ?_
  · rw [BString.blocks]
    abel
  · rw [BString.blocks]
    abel

end Strings

/-! ### Hash maps -/

/-- What a node of the map points to: its own block, and the strings of its key and its value.  The
text of the key is in the map. -/
structure Slot where
  node : ℕ
  keyHeader : ℕ
  keyData : ℕ
  data : BString

def Slot.blocks (p : Slot) : Multiset ℕ :=
  {p.node} + {p.keyHeader} + {p.keyData} + p.data.blocks

def pairBlocks (ps : List (Bstring × Slot)) : Multiset ℕ := (ps.map fun p => p.2.blocks).sum

/-- A `Hashmap *`: the blocks of the map, of its array of buckets and of the buckets that are there,
and the map. -/
structure HashmapPtr where
  self : ℕ
  buckets : ℕ
  contents : ℕ
  bucket : ℕ → ℕ
  bucketContents : ℕ → ℕ
  map : Hashmap Slot
  wf : map.WF

namespace HashmapPtr

variable (m : HashmapPtr)

def value : Hashmap Bytes := m.map.map (·.data.text)

def size : ℕ := m.map.entries.length

def bucketBlocks (i : ℕ) : Multiset ℕ :=
  if (m.map.buckets.get i).isSome then {m.bucket i} + {m.bucketContents i} else 0

/-- The blocks of the map apart from its buckets and its nodes. -/
def selfBlocks : Multiset ℕ := {m.self} + {m.buckets} + {m.contents}

def blocks : Multiset ℕ :=
  m.selfBlocks + ∑ i ∈ Finset.range DEFAULT_NUMBER_OF_BUCKETS, m.bucketBlocks i +
    pairBlocks m.map.entries

def put (i bucket contents : ℕ) (map : Hashmap Slot) (wf : map.WF) : HashmapPtr :=
  { m with
    bucket := Function.update m.bucket i bucket
    bucketContents := Function.update m.bucketContents i contents
    map := map
    wf := wf }

def create : M HashmapPtr := do
  let self ← alloc
  let buckets ← alloc
  let contents ← alloc
  pure {
    self, buckets, contents
    bucket := fun _ => 0
    bucketContents := fun _ => 0
    map := Hashmap.create
    wf := Hashmap.wf_create }

/-- `Hashmap_find_bucket`, which creates: the blocks of the bucket `i`. -/
def findBucket (i : ℕ) : M (ℕ × ℕ) :=
  if (m.map.buckets.get i).isSome then pure (m.bucket i, m.bucketContents i)
  else do
    let bucket ← alloc
    let contents ← alloc
    pure (bucket, contents)

def isFull (i : ℕ) : Bool :=
  match m.map.buckets.get i with
  | some bucket => bucket.end_ + 1 ≥ bucket.max
  | none => false

def set (key data : BString) : M HashmapPtr := do
  touch (m.blocks + key.blocks)
  let i := bucketOf key.text
  let found ← m.findBucket i
  let node ← alloc
  let contents ← reallocIf (m.isFull i) found.2
  pure (m.put i found.1 contents (m.map.set key.text ⟨node, key.header, key.data, data⟩) (m.wf.set _ _))

/-- `Hashmap_set` of two strings made by `bfromcstr`. -/
def setField (key value : Bytes) : M HashmapPtr := do
  let key ← bfromcstr key
  let value ← bfromcstr value
  m.set key value

/-- `Hashmap_get`: what it may look at are blocks of the map and of the key. -/
def get (key : BString) : M (Option BString) := do
  touch (m.blocks + key.blocks)
  pure ((m.map.get key.text).map (·.data))

def getCstr (key : Bytes) : M (Option BString) := do
  let lookupKey ← bfromcstr key
  let result ← m.get lookupKey
  bdestroy lookupKey
  pure result

def contracts (i : ℕ) : Bool :=
  match m.map.buckets.get i with
  | some bucket => bucket.end_ - 1 > bucket.expandRate ∧ (bucket.end_ - 1) % bucket.expandRate ≠ 0
  | none => false

/-- `Hashmap_delete`: it frees the node and returns the value. -/
def delete (key : BString) : M (Option BString × HashmapPtr) := do
  touch (m.blocks + key.blocks)
  let i := bucketOf key.text
  match m.map.get key.text with
  | none => pure (none, m)
  | some p => do
    free p.node
    let contents ← reallocIf (m.contracts i) (m.bucketContents i)
    pure (some p.data, m.put i (m.bucket i) contents (m.map.delete key.text).2 (m.wf.delete _))

/-- The nodes of a bucket in `Hashmap_destroy`: `free` of a `bstring` takes its header only. -/
def destroyNodes : List Slot → M Unit
  | [] => pure ()
  | p :: nodes => do
    touch {p.node}
    free p.data.header
    free p.keyHeader
    free p.node
    destroyNodes nodes

def destroyBucket (i : ℕ) : M Unit :=
  if (m.map.buckets.get i).isSome then do
    touch (m.bucketBlocks i)
    destroyNodes ((m.map.slots i).map (·.data))
    free (m.bucketContents i)
    free (m.bucket i)
  else pure ()

def destroyBuckets : List ℕ → M Unit
  | [] => pure ()
  | i :: rest => do
    m.destroyBucket i
    destroyBuckets rest

def destroy : M Unit := do
  touch m.selfBlocks
  m.destroyBuckets (List.range m.map.buckets.end_)
  free m.contents
  free m.buckets
  free m.self

def modify (key : Bstring) (b : BString) : HashmapPtr :=
  { m with
    map := m.map.modify key fun p => { p with data := b }
    wf := m.wf.modify _ _ }

section Maps

variable {m : HashmapPtr} {i : ℕ} {key data : BString} {name : Bytes} {p : Slot}

def otherBuckets (m : HashmapPtr) (i : ℕ) : Multiset ℕ :=
  ∑ j ∈ (Finset.range DEFAULT_NUMBER_OF_BUCKETS).erase i, m.bucketBlocks j

theorem blocks_eq (hi : i < DEFAULT_NUMBER_OF_BUCKETS) :
    m.blocks = m.bucketBlocks i + (m.otherBuckets i + m.selfBlocks + pairBlocks m.map.entries) := by
  have hsum : m.bucketBlocks i + m.otherBuckets i =
      ∑ j ∈ Finset.range DEFAULT_NUMBER_OF_BUCKETS, m.bucketBlocks j :=
    Finset.add_sum_erase _ _ (Finset.mem_range.2 hi)
  rw [blocks, ← hsum]
  abel

theorem pairBlocks_perm {ps rest : List (Bstring × Slot)} {q : Bstring × Slot}
    (h : ps.Perm (q :: rest)) : pairBlocks ps = q.2.blocks + pairBlocks rest := by
  rw [pairBlocks, (h.map _).sum_eq, List.map_cons, List.sum_cons, pairBlocks]

section Put

variable {bucket contents : ℕ} {map : Hashmap Slot} {wf : map.WF}

theorem bucketBlocks_put (j : ℕ) : (m.put i bucket contents map wf).bucketBlocks j =
    if (map.buckets.get j).isSome then
      {Function.update m.bucket i bucket j} + {Function.update m.bucketContents i contents j}
    else 0 := rfl

theorem blocks_put (hi : i < DEFAULT_NUMBER_OF_BUCKETS)
    (hsome : ∀ j, (map.buckets.get j).isSome = (decide (j = i) || (m.map.buckets.get j).isSome)) :
    (m.put i bucket contents map wf).blocks = {bucket} + {contents} +
      (m.otherBuckets i + m.selfBlocks + pairBlocks map.entries) := by
  have hbucket : (m.put i bucket contents map wf).bucketBlocks i = {bucket} + {contents} := by
    rw [bucketBlocks_put, hsome, decide_eq_true rfl, Bool.true_or, if_pos rfl, Function.update_self,
      Function.update_self]
  have hothers : (m.put i bucket contents map wf).otherBuckets i = m.otherBuckets i := by
    refine Finset.sum_congr rfl fun j hj => ?_
    have hne := Finset.ne_of_mem_erase hj
    rw [bucketBlocks_put, hsome, decide_eq_false hne, Bool.false_or, Function.update_of_ne hne,
      Function.update_of_ne hne]
    rfl
  rw [blocks_eq hi, hbucket, hothers]
  rfl

end Put

theorem size_eq (m : HashmapPtr) : m.size = m.value.entries.length := by
  rw [size, value, Hashmap.entries_map, List.length_map]

/-! The calls without their blocks. -/

theorem value_delete (m : HashmapPtr) (key : Bstring) : m.value.delete key =
    ((m.map.delete key).1.map (·.data.text), (m.map.delete key).2.map (·.data.text)) := by
  rw [value, Hashmap.map_delete]

theorem value_get (m : HashmapPtr) (key : Bstring) :
    m.value.get key = (m.map.get key).map (·.data.text) := by
  rw [value, Hashmap.get_map]

theorem exchanges_create :
    Exchanges 0 create (fun m => m.value = Hashmap.create) HashmapPtr.blocks 0 := by
  refine exchanges_alloc.step 0 rfl fun self _ => ?_
  refine exchanges_alloc.step {self} (by simp) fun buckets _ => ?_
  refine exchanges_alloc.step ({buckets} + {self}) (by simp) fun contents _ => ?_
  refine .ret (Hashmap.map_create _) ?_
  -- no bucket is there, and no node
  have hbuckets : ∀ i ∈ Finset.range DEFAULT_NUMBER_OF_BUCKETS,
      (if ((Hashmap.create : Hashmap Slot).buckets.get i).isSome then
        ({0} + {0} : Multiset ℕ) else 0) = 0 := by
    intro i hi
    simp [Hashmap.create, DArray.fresh, DArray.get, Finset.mem_range.1 hi]
  simp only [blocks, selfBlocks, bucketBlocks, pairBlocks, Hashmap.entries_create, List.map_nil,
    List.sum_nil]
  rw [Finset.sum_eq_zero hbuckets]
  abel

theorem exchanges_findBucket (m : HashmapPtr) (i : ℕ) : Exchanges (m.bucketBlocks i) (m.findBucket i)
    (fun _ => True) (fun found => {found.1} + {found.2}) 0 := by
  unfold findBucket bucketBlocks
  by_cases h : (m.map.buckets.get i).isSome = true
  · rw [if_pos h, if_pos h]
    exact .ret trivial rfl
  · rw [if_neg h, if_neg h]
    refine exchanges_alloc.step 0 rfl fun bucket _ => ?_
    refine exchanges_alloc.step {bucket} (by simp) fun contents _ => ?_
    exact .ret trivial (add_comm _ _)

/-- **A set takes the strings over**: the map has all their blocks. -/
theorem exchanges_set (m : HashmapPtr) (key data : BString) :
    Exchanges (m.blocks + key.blocks + data.blocks) (m.set key data)
      (fun m' => m'.value = m.value.set key.text data.text) HashmapPtr.blocks 0 := by
  have hi := Hashmap.bucketOf_lt key.text
  set i := bucketOf key.text with hidef
  set rest := m.otherBuckets i + m.selfBlocks + pairBlocks m.map.entries + key.blocks + data.blocks with hrest
  refine (exchanges_touch_all (m.blocks + key.blocks)).step data.blocks rfl
    fun _ _ => ?_
  refine (m.exchanges_findBucket i).step rest ?_ fun found _ => ?_
  · rw [blocks_eq hi, hrest]
    abel
  refine exchanges_alloc.step ({found.1} + {found.2} + rest) (zero_add _).symm fun node _ => ?_
  refine (exchanges_reallocIf (m.isFull i) found.2).step ({node} + {found.1} + rest) ?_
    fun contents _ => ?_
  · abel
  refine .ret (Hashmap.map_set ..) ?_
  rw [blocks_put hi (Hashmap.isSome_set m.wf key.text _),
    pairBlocks_perm (Hashmap.entries_set m.wf key.text _), hrest, Slot.blocks, key.blocks_eq]
  abel

theorem exchanges_setField (m : HashmapPtr) (key value : Bytes) : Exchanges m.blocks
    (m.setField key value) (fun m' => m'.value = m.value.set key value) HashmapPtr.blocks 0 := by
  refine (exchanges_bfromcstr key).step m.blocks (zero_add _).symm ?_
  rintro key rfl
  refine (exchanges_bfromcstr value).step (key.blocks + m.blocks) (zero_add _).symm ?_
  rintro value rfl
  exact (m.exchanges_set key value).imp (fun _ => id) (fun _ _ => rfl) (by abel)

/-! What a lookup returns points into the map. -/

theorem exchanges_get (m : HashmapPtr) (key : BString) :
    Exchanges (m.blocks + key.blocks) (m.get key) (fun r => r = (m.map.get key.text).map (·.data))
      (fun _ => m.blocks + key.blocks) 0 := by
  refine (exchanges_touch_all _).step 0 (add_zero _).symm fun _ _ => ?_
  exact .ret rfl (add_zero _)

theorem exchanges_getCstr (m : HashmapPtr) (name : Bytes) : Exchanges m.blocks (m.getCstr name)
    (fun r => r = (m.map.get name).map (·.data)) (fun _ => m.blocks) 0 := by
  refine (exchanges_bfromcstr name).step m.blocks (zero_add _).symm ?_
  rintro lookupKey rfl
  refine (m.exchanges_get lookupKey).step 0 ?_ fun result hresult => ?_
  · abel
  refine (exchanges_bdestroy lookupKey).step m.blocks ?_ fun _ _ => ?_
  · abel
  exact .ret hresult (zero_add _)

theorem text_found (m : HashmapPtr) (name : Bytes) :
    ((m.map.get name).map (·.data)).map (·.text) = m.value.getCstr name := by
  rw [Hashmap.getCstr, value_get, Option.map_map]
  rfl

theorem blocks_modify (hname : NulFree name) (hp : m.map.get name = some p) (b : BString) :
    ∃ rest, m.blocks = p.data.blocks + rest ∧ (m.modify name b).blocks = b.blocks + rest := by
  obtain ⟨rest, hperm, hperm'⟩ := Hashmap.entries_modify m.wf hname hp fun p => { p with data := b }
  have hbuckets : ∀ i, (m.modify name b).bucketBlocks i = m.bucketBlocks i := by
    intro i
    rw [bucketBlocks, modify, Hashmap.isSome_modify m.wf, bucketBlocks]
  refine ⟨{p.node} + {p.keyHeader} + {p.keyData} +
    (m.selfBlocks + ∑ i ∈ Finset.range DEFAULT_NUMBER_OF_BUCKETS, m.bucketBlocks i +
      pairBlocks rest), ?_, ?_⟩
  · rw [blocks, pairBlocks_perm hperm, Slot.blocks]
    abel
  · have hpairs : pairBlocks (m.modify name b).map.entries = _ := pairBlocks_perm hperm'
    rw [blocks, hpairs, Slot.blocks, Finset.sum_congr rfl fun i _ => hbuckets i,
      show (m.modify name b).selfBlocks = m.selfBlocks from rfl]
    abel

theorem size_modify (hname : NulFree name) (hp : m.map.get name = some p) (b : BString) :
    (m.modify name b).size = m.size := by
  obtain ⟨rest, hperm, hperm'⟩ := Hashmap.entries_modify m.wf hname hp fun p => { p with data := b }
  exact hperm'.length_eq.trans hperm.length_eq.symm

theorem mem_blocks_of_found (hname : NulFree name) {r : Option BString}
    (hr : r = (m.map.get name).map (·.data)) : ∀ b, r = some b → ∀ x ∈ b.blocks, x ∈ m.blocks := by
  rintro b rfl x hx
  obtain ⟨p, hp, rfl⟩ := Option.map_eq_some_iff.1 hr.symm
  obtain ⟨rest, hblocks, -⟩ := blocks_modify hname hp p.data
  rw [hblocks]
  exact Multiset.mem_add.2 (Or.inl hx)

theorem mem_blocks_of_node {n : HashmapNode Slot} (hn : n ∈ m.map.nodes) :
    ∀ x ∈ n.data.blocks, x ∈ m.blocks := by
  intro x hx
  obtain ⟨s, t, hst⟩ := List.append_of_mem hn
  rw [blocks, pairBlocks, Hashmap.entries, hst]
  simp only [List.map_append, List.map_cons, List.sum_append, List.sum_cons, Multiset.mem_add]
  exact Or.inr (Or.inr (Or.inl hx))

/-- **A delete** gives up the key: its string is in nobody's hands any more. -/
theorem exchanges_delete (hkey : NulFree key.text) (hp : m.map.get key.text = some p) :
    Exchanges (m.blocks + key.blocks) (m.delete key)
      (fun r => r.1 = some p.data ∧ r.2.value = (m.value.delete key.text).2)
      (fun r => r.2.blocks + p.data.blocks + key.blocks) 2 := by
  have hi := Hashmap.bucketOf_lt key.text
  set i := bucketOf key.text with hidef
  obtain ⟨-, -, hperm⟩ := Hashmap.entries_delete m.wf hkey hp
  have hthere : (m.map.buckets.get i).isSome = true := by
    obtain ⟨B, hB⟩ := m.wf
    obtain ⟨b, -, -, hg, -⟩ := hB.found hkey hp
    rw [hg]
    rfl
  have hsome : ∀ j, ((m.map.delete key.text).2.buckets.get j).isSome =
      (decide (j = i) || (m.map.buckets.get j).isSome) := by
    intro j
    rw [Hashmap.isSome_delete m.wf]
    by_cases hj : j = i
    · rw [hj, hthere, Bool.or_true]
    · rw [decide_eq_false hj, Bool.false_or]
  generalize hleft : m.otherBuckets i + m.selfBlocks + pairBlocks (m.map.delete key.text).2.entries =
    left at *
  have hblocks : m.blocks + key.blocks = {p.node} + ({m.bucket i} + {m.bucketContents i} +
      (left + p.data.blocks + key.blocks)) + ({p.keyHeader} + {p.keyData}) := by
    rw [blocks_eq hi, bucketBlocks, if_pos hthere, pairBlocks_perm hperm, ← hleft, Slot.blocks]
    abel
  refine (exchanges_touch_all _).step 0 (add_zero _).symm fun _ _ => ?_
  simp only [hp]
  rw [add_zero, hblocks]
  refine Exchanges.forget (n := 0) ({p.keyHeader} + {p.keyData}) rfl rfl ?_
  refine (exchanges_free p.node).step _ rfl fun _ _ => ?_
  refine (exchanges_reallocIf (m.contracts i) (m.bucketContents i)).step
    ({m.bucket i} + (left + p.data.blocks + key.blocks)) ?_ fun contents _ => ?_
  · abel
  refine .ret ⟨rfl, ?_⟩ ?_
  · rw [value_delete]
    rfl
  · rw [blocks_put hi hsome, hleft]
    abel

/-! What `Hashmap_destroy` leaves is the data of the strings. -/

theorem exchanges_destroyNodes (ps : List Slot) : Exchanges (ps.map Slot.blocks).sum (destroyNodes ps)
    (fun _ => True) (fun _ => 0) (2 * ps.length) := by
  induction ps with
  | nil => exact .ret trivial rfl
  | cons p ps ih =>
    generalize hrest : (ps.map Slot.blocks).sum = rest at ih
    have hpre : ((p :: ps).map Slot.blocks).sum =
        {p.node} + ({p.data.header} + {p.keyHeader} + rest) + ({p.keyData} + {p.data.data}) := by
      rw [List.map_cons, List.sum_cons, hrest, Slot.blocks, BString.blocks]
      abel
    have hlost : 2 * (p :: ps).length = Multiset.card ({p.keyData} + {p.data.data}) + 2 * ps.length := by
      rw [List.length_cons, Nat.mul_succ, Nat.add_comm]
      rfl
    refine Exchanges.forget ({p.keyData} + {p.data.data}) hpre hlost ?_
    refine (exchanges_touch_all {p.node}).step _ rfl fun _ _ => ?_
    refine (exchanges_free p.data.header).step ({p.node} + {p.keyHeader} + rest) ?_ fun _ _ => ?_
    · abel
    refine (exchanges_free p.keyHeader).step ({p.node} + rest) ?_ fun _ _ => ?_
    · abel
    refine (exchanges_free p.node).step rest ?_ fun _ _ => ?_
    · abel
    rwa [zero_add]

def fullBucket (m : HashmapPtr) (i : ℕ) : Multiset ℕ :=
  m.bucketBlocks i + (((m.map.slots i).map (·.data)).map Slot.blocks).sum

theorem exchanges_destroyBucket (m : HashmapPtr) (i : ℕ) : Exchanges (m.fullBucket i)
    (m.destroyBucket i) (fun _ => True) (fun _ => 0) (2 * (m.map.slots i).length) := by
  unfold destroyBucket fullBucket bucketBlocks
  by_cases h : (m.map.buckets.get i).isSome = true
  · rw [if_pos h, if_pos h]
    generalize hnodes : (((m.map.slots i).map (·.data)).map Slot.blocks).sum = nodes
    refine (exchanges_touch_all ({m.bucket i} + {m.bucketContents i})).step nodes rfl fun _ _ => ?_
    refine (exchanges_destroyNodes _).stepLosing (m := 0) ({m.bucket i} + {m.bucketContents i}) ?_
      ?_ fun _ _ => ?_
    · rw [hnodes, add_comm]
    · rw [List.length_map, add_zero]
    refine (exchanges_free (m.bucketContents i)).step {m.bucket i} ?_ fun _ _ => ?_
    · abel
    rw [zero_add]
    exact exchanges_free (m.bucket i)
  · have hnone : m.map.slots i = [] := by
      rw [Hashmap.slots, Option.not_isSome_iff_eq_none.1 h]
    rw [if_neg h, if_neg h, hnone]
    exact .ret trivial rfl

theorem exchanges_destroyBuckets (m : HashmapPtr) (l : List ℕ) :
    Exchanges (l.map m.fullBucket).sum (m.destroyBuckets l) (fun _ => True) (fun _ => 0)
      (2 * (l.flatMap m.map.slots).length) := by
  induction l with
  | nil => exact .ret trivial rfl
  | cons i l ih =>
    refine (m.exchanges_destroyBucket i).stepLosing (m := 2 * (l.flatMap m.map.slots).length)
      (l.map m.fullBucket).sum ?_ ?_ fun _ _ => ?_
    · rw [List.map_cons, List.sum_cons]
    · rw [List.flatMap_cons, List.length_append, Nat.mul_add]
    · rwa [zero_add]

theorem blocks_eq_full (m : HashmapPtr) :
    m.blocks = m.selfBlocks + ((List.range DEFAULT_NUMBER_OF_BUCKETS).map m.fullBucket).sum := by
  obtain ⟨B, hB⟩ := m.wf
  have hnodes : m.map.nodes = (List.range DEFAULT_NUMBER_OF_BUCKETS).flatMap m.map.slots := by
    rw [← hB.end_]
    rfl
  have hpairs : pairBlocks m.map.entries = ((List.range DEFAULT_NUMBER_OF_BUCKETS).map fun i =>
      (((m.map.slots i).map (·.data)).map Slot.blocks).sum).sum := by
    rw [pairBlocks, Hashmap.entries, hnodes, List.map_map, List.map_flatMap, List.flatMap_def,
      List.sum_flatten, List.map_map]
    simp only [List.map_map]
    rfl
  have hfull := List.sum_map_add (f := m.bucketBlocks) (l := List.range DEFAULT_NUMBER_OF_BUCKETS)
    (g := fun i => (((m.map.slots i).map (·.data)).map Slot.blocks).sum)
  rw [blocks, hpairs, add_assoc]
  exact congrArg (m.selfBlocks + ·) hfull.symm

/-- **`Hashmap_destroy` leaves two blocks of every entry**, and no other. -/
theorem exchanges_destroy (m : HashmapPtr) :
    Exchanges m.blocks m.destroy (fun _ => True) (fun _ => 0) (2 * m.value.entries.length) := by
  obtain ⟨B, hB⟩ := m.wf
  have hlength : ((List.range DEFAULT_NUMBER_OF_BUCKETS).flatMap m.map.slots).length =
      m.value.entries.length := by
    rw [← size_eq, size, Hashmap.entries, List.length_map, ← hB.end_]
    rfl
  rw [blocks_eq_full, ← hlength]
  generalize hfull : ((List.range DEFAULT_NUMBER_OF_BUCKETS).map m.fullBucket).sum = full
  refine (exchanges_touch_all m.selfBlocks).step full rfl fun _ _ => ?_
  rw [hB.end_]
  refine (m.exchanges_destroyBuckets _).stepLosing (m := 0) m.selfBlocks ?_ (add_zero _).symm
    fun _ _ => ?_
  · rw [hfull, add_comm]
  refine (exchanges_free m.contents).step ({m.self} + {m.buckets}) ?_ fun _ _ => ?_
  · rw [selfBlocks]
    abel
  refine (exchanges_free m.buckets).step {m.self} ?_ fun _ _ => ?_
  · abel
  rw [zero_add]
  exact exchanges_free m.self

/-! The number of the blocks of a map. -/

theorem card_pairBlocks (ps : List (Bstring × Slot)) : (pairBlocks ps).card = 5 * ps.length := by
  induction ps with
  | nil => rfl
  | cons p ps ih =>
    have hslot : p.2.blocks.card = 5 := rfl
    rw [pairBlocks, List.map_cons, List.sum_cons, Multiset.card_add, hslot, List.length_cons]
    rw [pairBlocks] at ih
    omega

theorem card_bucketBlocks (m : HashmapPtr) (i : ℕ) : (m.bucketBlocks i).card =
    if (m.value.buckets.get i).isSome then 2 else 0 := by
  rw [value, Hashmap.buckets_map, Option.isSome_map, bucketBlocks]
  cases (m.map.buckets.get i).isSome <;> rfl

theorem card_blocks_single {key v : Bytes} (h : m.value = Hashmap.create.set key v) :
    m.blocks.card = 10 := by
  have hpairs : m.map.entries.length = 1 := by
    have hsize := m.size_eq
    rw [h, (Hashmap.entries_set Hashmap.wf_create key v).length_eq, Hashmap.entries_create] at hsize
    exact hsize
  have hbucket : ∀ i ∈ Finset.range DEFAULT_NUMBER_OF_BUCKETS,
      (m.bucketBlocks i).card = if i = bucketOf key then 2 else 0 := by
    intro i hi
    have hnone : ((Hashmap.create : Hashmap Bytes).buckets.get i).isSome = false := by
      simp [Hashmap.create, DArray.fresh, DArray.get, Finset.mem_range.1 hi]
    rw [card_bucketBlocks, h, Hashmap.isSome_set Hashmap.wf_create, hnone, Bool.or_false]
    simp only [decide_eq_true_eq]
  have hsum : (∑ i ∈ Finset.range DEFAULT_NUMBER_OF_BUCKETS, m.bucketBlocks i).card = 2 := by
    rw [Multiset.card_sum, Finset.sum_congr rfl hbucket, Finset.sum_ite_eq',
      if_pos (Finset.mem_range.2 (Hashmap.bucketOf_lt key))]
  have hself : m.selfBlocks.card = 3 := rfl
  rw [blocks, Multiset.card_add, Multiset.card_add, hself, hsum, card_pairBlocks, hpairs]

end Maps

end HashmapPtr

end Blocks

end HttpServer

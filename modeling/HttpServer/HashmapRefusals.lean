import HttpServer.Lib.CMemory
import HttpServer.HashmapRuns

/-!
# A hash map when memory is short

The map once more with what `malloc` and `calloc` answer in `Hashmap_create` and `Hashmap_set`.  A set
that is refused memory (`setUnder_refused_iff`) returns -1 and may leave an empty bucket behind, which
no call ever sees: every run of calls is the run of the calls that were not refused
(`attempts_accepted`).  A create that is refused the map returns NULL; one that is refused its array
looks into it before it checks (`createUnder_eq`).
-/

namespace HttpServer

open Lib

/-- `DArray_create`, as `malloc` answers for the array and `calloc` for its contents. -/
def DArray.createUnder {α : Type} (array contents : Bool) (elementSize initialMax : ℕ) :
    Option (DArray α) :=
  if array then
    if initialMax > 0 then
      if contents then some (fresh elementSize initialMax) else none
    else none
  else none

theorem DArray.createUnder_eq {α : Type} {array contents : Bool} {elementSize initialMax : ℕ}
    (h : initialMax > 0) :
    (DArray.createUnder array contents elementSize initialMax : Option (DArray α)) =
      if array = true ∧ contents = true then some (fresh elementSize initialMax) else none := by
  unfold DArray.createUnder
  rw [if_pos h]
  cases array <;> cases contents <;> rfl

/-- What is answered in a set: to a new bucket and its contents, to the node, and in the push. -/
structure SetAnswers (α : Type) where
  bucket : Bool
  contents : Bool
  node : Bool
  push : Realloc (HashmapNode α)

/-- A call on a map, a set with the answers of the allocator. -/
inductive Attempt (α : Type) where
  | set (answers : SetAnswers α) (key : Bstring) (data : α)
  | get (key : Bstring)
  | delete (key : Bstring)

namespace Attempt

variable {α : Type}

def key : Attempt α → Bstring
  | set _ key _ | get key | delete key => key

/-- The `realloc` of a push succeeds. -/
def Grows : Attempt α → Prop
  | set answers _ _ => answers.push.grants = true
  | _ => True

def call : Attempt α → HashmapCall α
  | set answers key data => .set answers.push key data
  | get key => .get key
  | delete key => .delete key

end Attempt

namespace Hashmap

variable {α : Type}

/-- `Hashmap_create(NULL, NULL)`: `end` is set before the array is checked. -/
def createUnder (map array contents : Bool) : Except Fault (Option (Hashmap α)) :=
  if map then
    match DArray.createUnder array contents PTR_SIZE DEFAULT_NUMBER_OF_BUCKETS with
    | none => .error .nullPointer
    | some buckets => .ok (some { buckets := { buckets with end_ := buckets.max } })
  else .ok none

/-- `Hashmap_find_bucket`, which creates. -/
def findBucketUnder (answers : SetAnswers α) (map : Hashmap α) (key : Bstring) :
    Option (DArray (HashmapNode α)) × Hashmap α :=
  let bucketN := bucketOf key
  match map.buckets.get bucketN with
  | some bucket => (some bucket, map)
  | none =>
    match DArray.createUnder answers.bucket answers.contents PTR_SIZE DEFAULT_NUMBER_OF_BUCKETS with
    | none => (none, map)
    | some bucket => (some bucket, { map with buckets := map.buckets.set bucketN (some bucket) })

/-- `Hashmap_set`: what it returns, and the map after it. -/
def setUnder (answers : SetAnswers α) (map : Hashmap α) (key : Bstring) (data : α) :
    ℤ × Hashmap α :=
  match map.findBucketUnder answers key with
  | (none, map) => (-1, map)
  | (some bucket, map) =>
    if answers.node then
      (0, map.putBucket key (bucket.push answers.push (some ⟨key, data, defaultHash key⟩)).2)
    else (-1, map)

/-- One call: the number that a set returns or the value that the others return, and the map. -/
def attempt (map : Hashmap α) : Attempt α → (ℤ ⊕ Option α) × Hashmap α
  | .set answers key data =>
    let (rc, map) := map.setUnder answers key data
    (.inl rc, map)
  | .get key => (.inr (map.get key), map)
  | .delete key =>
    let (data, map) := map.delete key
    (.inr data, map)

def attemptAll (map : Hashmap α) : List (Attempt α) → List (ℤ ⊕ Option α) × Hashmap α
  | [] => ([], map)
  | a :: attempts =>
    let (result, map) := map.attempt a
    let (results, map) := map.attemptAll attempts
    (result :: results, map)

def kept : ℤ ⊕ Option α → Option (Option α)
  | .inl rc => if rc = 0 then some none else none
  | .inr data => some data

def accepted (map : Hashmap α) : List (Attempt α) → List (HashmapCall α)
  | [] => []
  | a :: attempts =>
    let (result, map) := map.attempt a
    if (kept result).isSome then a.call :: map.accepted attempts else map.accepted attempts

/-! ### One call -/

section Call

variable {m m' : Hashmap α} {B : ℕ → List (HashmapNode α)} {key : Bstring} {v : α}
  {answers : SetAnswers α}

theorem findBucketUnder_eq (answers : SetAnswers α) (m : Hashmap α) (key : Bstring) :
    m.findBucketUnder answers key =
      if (m.buckets.get (bucketOf key)).isSome = true ∨ answers.bucket = true ∧ answers.contents = true
        then m.findBucket key true else (none, m) := by
  unfold Hashmap.findBucketUnder Hashmap.findBucket
  cases hg : m.buckets.get (bucketOf key) with
  | some bucket => simp only [hg, Option.isSome_some, true_or, if_true]
  | none =>
    simp only [hg, DArray.createUnder_eq (show DEFAULT_NUMBER_OF_BUCKETS > 0 by decide),
      Option.isSome_none, Bool.false_eq_true, false_or, if_true]
    split_ifs <;> rfl

theorem Holds.findBucketUnder (h : m.Holds B) (answers : SetAnswers α) (key : Bstring) :
    m.findBucketUnder answers key = (none, m) ∨ ∃ b m₁, m₁.Holds B ∧ b.Holds (B (bucketOf key)) ∧
      m.findBucketUnder answers key = (some b, m₁) := by
  rw [findBucketUnder_eq]
  split_ifs
  · exact Or.inr (h.findBucket_create key)
  · exact Or.inl rfl

/-- **A set** stores its pair and returns 0, or stores nothing and returns -1. -/
theorem Holds.setUnder (h : m.Holds B) (hg : answers.push.grants = true) (key : Bstring) (v : α) :
    ((m.setUnder answers key v).1 = 0 ∧ (m.setUnder answers key v).2.Holds
      (Function.update B (bucketOf key) (B (bucketOf key) ++ [⟨key, v, defaultHash key⟩]))) ∨
    ((m.setUnder answers key v).1 = -1 ∧ (m.setUnder answers key v).2.Holds B) := by
  unfold Hashmap.setUnder
  rcases h.findBucketUnder answers key with hnone | ⟨b, m₁, hm₁, hb, hsome⟩
  · rw [hnone]
    exact Or.inr ⟨rfl, h⟩
  rw [hsome]
  cases hnode : answers.node with
  | false => exact Or.inr ⟨rfl, hm₁⟩
  | true =>
    have hpush := (hb.push hg ⟨key, v, defaultHash key⟩).2
    refine Or.inl ⟨rfl, hm₁.putBucket hpush fun n hn => ?_⟩
    rcases List.mem_append.1 hn with hn | hn
    · exact h.placed _ (bucketOf_lt key) n hn
    · obtain rfl := List.mem_singleton.1 hn
      exact ⟨rfl, rfl⟩

/-- A set is refused when its node is, or a bucket that it needs. -/
theorem setUnder_refused_iff (answers : SetAnswers α) (m : Hashmap α) (key : Bstring) (v : α) :
    (m.setUnder answers key v).1 = -1 ↔ (m.buckets.get (bucketOf key) = none ∧
      ¬ (answers.bucket = true ∧ answers.contents = true)) ∨ answers.node = false := by
  have hfound : ∃ b m₁, m.findBucket key true = (some b, m₁) := by
    unfold findBucket
    cases hg : m.buckets.get (bucketOf key) with
    | some b => exact ⟨b, m, by simp only [hg]⟩
    | none => exact ⟨_, _, by simp only [hg, if_true]; rfl⟩
  obtain ⟨b, m₁, hfind⟩ := hfound
  rw [← Option.not_isSome_iff_eq_none, ← not_or]
  unfold setUnder
  rw [findBucketUnder_eq, hfind]
  by_cases hgranted : (m.buckets.get (bucketOf key)).isSome = true ∨
      answers.bucket = true ∧ answers.contents = true
  · rw [if_pos hgranted]
    cases hnode : answers.node <;> simp [hgranted]
  · simp [hgranted]

theorem Holds.delete_same (h : m.Holds B) (h' : m'.Holds B) (hkey : NulFree key) :
    (m.delete key).1 = (m'.delete key).1 ∧
      ∃ B', (m.delete key).2.Holds B' ∧ (m'.delete key).2.Holds B' := by
  have hd := h.delete hkey
  have hd' := h'.delete hkey
  cases hi : (B (bucketOf key)).findIdx? fun n => n.key = key with
  | none =>
    rw [hi] at hd hd'
    rw [hd, hd']
    exact ⟨rfl, B, h, h'⟩
  | some i =>
    rw [hi] at hd hd'
    exact ⟨hd.1.trans hd'.1.symm, _, hd.2, hd'.2⟩

/-- **One call** is refused and nothing is stored or lost, or it is the call without refusals. -/
theorem attempt_step (h : m.Holds B) (h' : m'.Holds B) {a : Attempt α} (hg : a.Grows)
    (hk : NulFree a.key) :
    (kept (m.attempt a).1 = none ∧ (m.attempt a).2.Holds B) ∨
    (kept (m.attempt a).1 = some (m'.call a.call).1 ∧
      ∃ B', (m.attempt a).2.Holds B' ∧ (m'.call a.call).2.Holds B') := by
  cases a with
  | set answers key v =>
    rcases h.setUnder hg key v with ⟨hrc, hset⟩ | ⟨hrc, hset⟩
    · refine Or.inr ⟨?_, _, hset, h'.setWith hg key v⟩
      rw [attempt, kept, hrc]
      rfl
    · refine Or.inl ⟨?_, hset⟩
      rw [attempt, kept, hrc]
      rfl
  | get key =>
    have hvalue : m.get key = m'.get key := (h.get hk).trans (h'.get hk).symm
    exact Or.inr ⟨congrArg some hvalue, B, h, h'⟩
  | delete key =>
    obtain ⟨hvalue, B', hB, hB'⟩ := h.delete_same h' hk
    exact Or.inr ⟨congrArg some hvalue, B', hB, hB'⟩

end Call

/-! ### Runs of calls -/

section Runs

variable {m m' : Hashmap α} {B : ℕ → List (HashmapNode α)} {attempts : List (Attempt α)}

theorem attemptAll_step (h : m.Holds B) (h' : m'.Holds B) (hg : ∀ a ∈ attempts, a.Grows)
    (hk : ∀ a ∈ attempts, NulFree a.key) :
    (m.attemptAll attempts).1.filterMap kept = (m'.callAll (m.accepted attempts)).1 ∧
      ∃ B', (m.attemptAll attempts).2.Holds B' ∧ (m'.callAll (m.accepted attempts)).2.Holds B' := by
  induction attempts generalizing m m' B with
  | nil => exact ⟨rfl, B, h, h'⟩
  | cons a attempts ih =>
    obtain ⟨hga, hg⟩ := List.forall_mem_cons.1 hg
    obtain ⟨hka, hk⟩ := List.forall_mem_cons.1 hk
    rw [attemptAll, accepted, List.filterMap_cons]
    rcases attempt_step h h' hga hka with ⟨hkept, hB⟩ | ⟨hkept, B₁, hB, hB'⟩
    · simp only [hkept]
      exact ih hB h' hg hk
    · obtain ⟨hresults, hmaps⟩ := ih hB hB' hg hk
      simp only [hkept, Option.isSome_some, if_true, callAll]
      exact ⟨congrArg (_ :: ·) hresults, hmaps⟩

theorem createUnder_eq (map array contents : Bool) :
    (createUnder map array contents : Except Fault (Option (Hashmap α))) =
      if map = true then if array = true ∧ contents = true then .ok (some create)
        else .error .nullPointer
      else .ok none := by
  cases map <;> cases array <;> cases contents <;> rfl

/-- **A refused set was never made.**  Whatever `malloc` and `calloc` answer, a run of calls on a map
that was created returns what the run of the calls that were not refused returns, and leaves the same
pairs in the same order, and the same lookups. -/
theorem attempts_accepted {map array contents : Bool} {m : Hashmap α}
    (hcreate : createUnder map array contents = .ok (some m)) (hg : ∀ a ∈ attempts, a.Grows)
    (hk : ∀ a ∈ attempts, NulFree a.key) :
    (m.attemptAll attempts).1.filterMap kept =
        ((create : Hashmap α).callAll (m.accepted attempts)).1 ∧
      (m.attemptAll attempts).2.entries =
        ((create : Hashmap α).callAll (m.accepted attempts)).2.entries ∧
      ∀ k, NulFree k → (m.attemptAll attempts).2.get k =
        ((create : Hashmap α).callAll (m.accepted attempts)).2.get k := by
  have hm : m = create := by
    rw [createUnder_eq] at hcreate
    split_ifs at hcreate <;> cases hcreate
    rfl
  subst hm
  obtain ⟨hresults, B, hB, hB'⟩ := attemptAll_step holds_create holds_create hg hk
  refine ⟨hresults, ?_, fun k hk => ?_⟩
  · rw [entries, entries, hB.nodes, hB'.nodes]
  · rw [hB.get hk, hB'.get hk]

/-- A set that is refused its node, one that is refused its bucket, and calls that are not refused. -/
def short : List (Attempt ℕ) :=
  [.set ⟨true, true, true, .calm⟩ (lit "A") 1, .set ⟨true, true, false, .calm⟩ (lit "A") 2,
    .set ⟨true, false, true, .calm⟩ (lit "B") 3, .get (lit "B"), .delete (lit "A"), .get (lit "A")]

theorem attempts_accepted_short :
    ((create : Hashmap ℕ).attemptAll short).1.filterMap kept =
        ((create : Hashmap ℕ).callAll ((create : Hashmap ℕ).accepted short)).1 ∧
      ((create : Hashmap ℕ).attemptAll short).2.entries =
        ((create : Hashmap ℕ).callAll ((create : Hashmap ℕ).accepted short)).2.entries ∧
      ∀ k, NulFree k → ((create : Hashmap ℕ).attemptAll short).2.get k =
        ((create : Hashmap ℕ).callAll ((create : Hashmap ℕ).accepted short)).2.get k := by
  have hgrows : ∀ a ∈ short, a.Grows := by
    intro a ha
    simp only [short, List.mem_cons, List.not_mem_nil, or_false] at ha
    rcases ha with rfl | rfl | rfl | rfl | rfl | rfl <;> first | rfl | trivial
  exact attempts_accepted (show createUnder true true true = .ok (some create) from rfl) hgrows
    (by decide)

end Runs

end Hashmap

end HttpServer

import HttpServer.HashmapSem
import HttpServer.Lib.PairBag

/-!
# Runs of calls on a hash map

Whatever calls are made on a map, in whatever order, every node stays in the bucket of its key and
the map holds a bag of pairs: a set adds one pair, a delete takes one pair of its key
(`callAll_accounts`).  A key that is set twice has two pairs, of which a lookup finds the first, so a
set does not replace and a delete brings the other pair back (`get_after_calls`,
`not_finiteFunction`).
-/

namespace HttpServer

open Lib

/-- A call on a map; a set finds the allocator as `r` says. -/
inductive HashmapCall (α : Type) where
  | set (r : Realloc (HashmapNode α)) (key : Bstring) (data : α)
  | get (key : Bstring)
  | delete (key : Bstring)

namespace HashmapCall

variable {α : Type}

def key : HashmapCall α → Bstring
  | set _ key _ | get key | delete key => key

/-- The allocations of the call succeed. -/
def Granted : HashmapCall α → Prop
  | set r _ _ => r.grants = true
  | _ => True

def toBag : HashmapCall α → BagCall Bstring α
  | set _ key data => .set key data
  | get key => .get key
  | delete key => .delete key

end HashmapCall

namespace Hashmap

variable {α : Type}

/-- One call: what it returns, and the map after it. -/
def call (map : Hashmap α) : HashmapCall α → Option α × Hashmap α
  | .set r key data => (none, map.setWith r key data)
  | .get key => (map.get key, map)
  | .delete key => map.delete key

def callAll (map : Hashmap α) : List (HashmapCall α) → List (Option α) × Hashmap α
  | [] => ([], map)
  | c :: calls =>
    let (result, map) := map.call c
    let (results, map) := map.callAll calls
    (result :: results, map)

def pairs (map : Hashmap α) : Multiset (Bstring × α) := map.entries

/-- Every node is in the bucket that the hash of its key names, and carries that hash. -/
def Placed (map : Hashmap α) : Prop :=
  ∀ i < DEFAULT_NUMBER_OF_BUCKETS, ∀ bucket, map.buckets.get i = some bucket →
    ∀ j < bucket.end_, ∃ node, bucket.get j = some node ∧ node.hash = defaultHash node.key ∧
      i = (defaultHash node.key).toNat % DEFAULT_NUMBER_OF_BUCKETS

/-! ### One call -/

section Call

variable {m : Hashmap α} {k : Bstring} {v : α} {r : Realloc (HashmapNode α)}

theorem pairs_setWith (h : m.WF) (hr : r.grants = true) (k : Bstring) (v : α) :
    (m.setWith r k v).pairs = (k, v) ::ₘ m.pairs :=
  Multiset.coe_eq_coe.2 (entries_setWith h hr k v)

theorem mem_pairs_of_get (h : m.WF) (hk : NulFree k) (hv : m.get k = some v) : (k, v) ∈ m.pairs := by
  rw [get_eq_find? h hk] at hv
  obtain ⟨p, hp, rfl⟩ := Option.map_eq_some_iff.1 hv
  have hkey : p.1 = k := by simpa using List.find?_some hp
  have hmem : p ∈ m.entries := List.mem_of_find?_eq_some hp
  rwa [← hkey]

theorem get_eq_none_iff (h : m.WF) (hk : NulFree k) : m.get k = none ↔ Absent k m.pairs := by
  constructor
  · intro hnone v hmem
    rw [get_eq_find? h hk, Option.map_eq_none_iff, List.find?_eq_none] at hnone
    exact hnone (k, v) (Multiset.mem_coe.1 hmem) (by simp)
  · intro habsent
    cases hv : m.get k with
    | none => rfl
    | some v => exact absurd (mem_pairs_of_get h hk hv) (habsent v)

theorem delete_of_get_none (h : m.WF) (hk : NulFree k) (hv : m.get k = none) :
    m.delete k = (none, m) := by
  obtain ⟨B, hB⟩ := h
  have hdel := hB.delete hk
  rw [hB.get hk, Option.map_eq_none_iff, List.find?_eq_none] at hv
  rwa [List.findIdx?_eq_none_iff.2 fun n hn => by simpa using hv n hn] at hdel

theorem pairs_delete (h : m.WF) (hk : NulFree k) (hv : m.get k = some v) :
    (m.delete k).1 = some v ∧ m.pairs = (k, v) ::ₘ (m.delete k).2.pairs := by
  obtain ⟨hval, -, hperm⟩ := entries_delete h hk hv
  exact ⟨hval, Multiset.coe_eq_coe.2 hperm⟩

/-- **One call** is the call on the bag of the stored pairs. -/
theorem call_step (h : m.WF) {c : HashmapCall α} (hg : c.Granted) (hk : NulFree c.key) :
    (m.call c).2.WF ∧ BagStep m.pairs c.toBag (m.call c).1 (m.call c).2.pairs := by
  cases c with
  | set r k v =>
    refine ⟨h.setWith hg k v, ?_⟩
    rw [show (m.call (.set r k v)).2.pairs = _ from pairs_setWith h hg k v]
    exact .set m.pairs k v
  | get k =>
    refine ⟨h, ?_⟩
    cases hv : m.get k with
    | none =>
      rw [show (m.call (.get k)).1 = none from hv]
      exact .missing ((get_eq_none_iff h hk).1 hv)
    | some v =>
      rw [show (m.call (.get k)).1 = some v from hv]
      exact .found (mem_pairs_of_get h hk hv)
  | delete k =>
    refine ⟨h.delete k, ?_⟩
    cases hv : m.get k with
    | none =>
      rw [show m.call (.delete k) = (none, m) from delete_of_get_none h hk hv]
      exact .kept ((get_eq_none_iff h hk).1 hv)
    | some v =>
      obtain ⟨hval, hpairs⟩ := pairs_delete h hk hv
      rw [hpairs, show (m.call (.delete k)).1 = some v from hval]
      exact .deleted _ k v

end Call

/-! ### Runs of calls -/

section Calls

variable {m : Hashmap α} {calls : List (HashmapCall α)}

/-- The buckets stay in order through every run, whatever the keys are. -/
theorem wf_callAll (h : m.WF) (hg : ∀ c ∈ calls, c.Granted) : (m.callAll calls).2.WF := by
  induction calls generalizing m with
  | nil => exact h
  | cons c calls ih =>
    refine ih ?_ fun c' hc' => hg c' (List.mem_cons_of_mem _ hc')
    have hc := hg c List.mem_cons_self
    cases c with
    | set r k v => exact h.setWith hc k v
    | get k => exact h
    | delete k => exact h.delete k

/-- **A run of calls** is the run of the calls on a bag of pairs. -/
theorem bagRun_callAll (h : m.WF) (hg : ∀ c ∈ calls, c.Granted) (hk : ∀ c ∈ calls, NulFree c.key) :
    BagRun m.pairs ((calls.map HashmapCall.toBag).zip (m.callAll calls).1)
      (m.callAll calls).2.pairs := by
  induction calls generalizing m with
  | nil => exact .nil m.pairs
  | cons c calls ih =>
    obtain ⟨hwf, hstep⟩ := call_step h (hg c List.mem_cons_self) (hk c List.mem_cons_self)
    exact .cons hstep (ih hwf (fun c' hc' => hg c' (List.mem_cons_of_mem _ hc'))
      fun c' hc' => hk c' (List.mem_cons_of_mem _ hc'))

theorem length_callAll (m : Hashmap α) (calls : List (HashmapCall α)) :
    (m.callAll calls).1.length = calls.length := by
  induction calls generalizing m with
  | nil => rfl
  | cons c calls ih => exact congrArg (· + 1) (ih _)

theorem WF.placed (h : m.WF) : m.Placed := by
  obtain ⟨B, hB⟩ := h
  intro i hi bucket hg j hj
  have hb := hB.bucket i hi
  rw [hg] at hb
  simp only at hb
  have hlt : j < (B i).length := hb.end_eq ▸ hj
  obtain ⟨hhash, hbucket⟩ := hB.placed i hi _ (List.getElem_mem hlt)
  rw [bucketOf] at hbucket
  exact ⟨(B i)[j], by rw [hb.get hlt, List.getElem?_eq_getElem hlt], hhash, hbucket.symm⟩

/-- A traversal with a callback that returns zero visits the nodes one after the other. -/
theorem traverse_eq_foldl {σ : Type} {cb : HashmapNode α → σ → ℤ × σ}
    (hcb : ∀ n s, (cb n s).1 = 0) (s : σ) :
    m.traverse cb s = (0, m.nodes.foldl (fun s n => (cb n s).2) s) := by
  unfold traverse
  induction m.nodes generalizing s with
  | nil => rfl
  | cons n nodes ih =>
    have hstep : traverseNodes cb (n :: nodes) s = traverseNodes cb nodes (cb n s).2 := by
      simp [traverseNodes, hcb]
    rw [hstep, ih, List.foldl_cons]

/-- What calls on an empty map have done: the map `map` holds the pairs that were set but for those
that deletes returned, each where its hash puts it, and is read off them. -/
structure Accounted (calls : List (HashmapCall α)) (results : List (Option α)) (map : Hashmap α) :
    Prop where
  length : results.length = calls.length
  placed : map.Placed
  run : BagRun 0 ((calls.map HashmapCall.toBag).zip results) map.pairs
  conserved : map.pairs + removed ((calls.map HashmapCall.toBag).zip results) =
    added ((calls.map HashmapCall.toBag).zip results)
  get : ∀ k, NulFree k → (map.get k = none ↔ Absent k map.pairs) ∧
    ∀ v, map.get k = some v → (k, v) ∈ map.pairs
  delete : ∀ k, NulFree k → ((map.delete k).1 = none ↔ Absent k map.pairs) ∧
    ((map.delete k).1 = none → (map.delete k).2 = map) ∧
    ∀ v, (map.delete k).1 = some v → map.pairs = (k, v) ::ₘ (map.delete k).2.pairs
  traverse : ∀ {σ : Type} (cb : HashmapNode α → σ → ℤ × σ) (s : σ), (∀ n s, (cb n s).1 = 0) →
    ∃ visited : List (HashmapNode α),
      map.traverse cb s = (0, visited.foldl (fun s n => (cb n s).2) s) ∧
      (visited.map fun n => (n.key, n.data) : Multiset (Bstring × α)) = map.pairs

/-- **A map is a bag of pairs**, after every run of calls. -/
theorem callAll_accounts (hg : ∀ c ∈ calls, c.Granted) (hk : ∀ c ∈ calls, NulFree c.key) :
    ∃ results map, (create : Hashmap α).callAll calls = (results, map) ∧
      Accounted calls results map := by
  have hwf := wf_callAll wf_create hg
  have hrun := bagRun_callAll wf_create hg hk
  have hempty : (create : Hashmap α).pairs = 0 := by simp [pairs]
  rw [hempty] at hrun
  refine ⟨_, _, rfl, length_callAll _ _, hwf.placed, hrun, ?_, fun k hk => ?_, fun k hk => ?_,
    fun cb s hcb => ⟨_, traverse_eq_foldl hcb s, rfl⟩⟩
  · rw [hrun.conserved, zero_add]
  · exact ⟨get_eq_none_iff hwf hk, fun v hv => mem_pairs_of_get hwf hk hv⟩
  · have hnone := get_eq_none_iff hwf hk
    cases hv : (callAll create calls).2.get k with
    | none =>
      rw [delete_of_get_none hwf hk hv]
      exact ⟨iff_of_true rfl (hnone.1 hv), fun _ => rfl, nofun⟩
    | some v =>
      obtain ⟨hval, hpairs⟩ := pairs_delete hwf hk hv
      rw [hval]
      refine ⟨iff_of_false nofun fun habsent => ?_, nofun, fun v' hv' => ?_⟩
      · exact habsent v (mem_pairs_of_get hwf hk hv)
      · cases hv'
        exact hpairs

def setTwice : List (HashmapCall ℕ) :=
  [.set .calm (lit "A") 0, .set .calm (lit "F") 1, .set .calm (lit "F") 2]

theorem granted_setTwice : ∀ c ∈ setTwice, c.Granted := by
  simp [setTwice, HashmapCall.Granted, Realloc.calm]

theorem nulFree_setTwice : ∀ c ∈ setTwice, NulFree c.key := by
  simp only [setTwice, List.forall_mem_cons]
  decide

theorem callAll_accounts_setTwice : ∃ results map,
    (create : Hashmap ℕ).callAll setTwice = (results, map) ∧ Accounted setTwice results map :=
  callAll_accounts granted_setTwice nulFree_setTwice

end Calls

/-! ### Maps as functions -/

section Lookup

variable {calls : List (HashmapCall α)} {k k' : Bstring} {v : α} {r : Realloc (HashmapNode α)}
  {m : Hashmap α}

/-- Set does not replace: a lookup of its key finds what was found before, if anything was. -/
theorem get_setWith_self (h : m.WF) (hr : r.grants = true) (hk : NulFree k) (v : α) :
    (m.setWith r k v).get k = some ((m.get k).getD v) := by
  rw [get_setWith h hr k v hk, if_pos rfl]
  cases m.get k <;> rfl

theorem get_setWith_ne (h : m.WF) (hr : r.grants = true) (hk : NulFree k') (hne : k' ≠ k) (v : α) :
    (m.setWith r k v).get k' = m.get k' := by
  rw [get_setWith h hr k v hk, if_neg hne, Option.or_none]

/-- After a delete its key is gone if it was there once. -/
theorem get_delete_self (h : m.WF) (hk : NulFree k) :
    (m.delete k).2.get k = none ↔ copies k m.pairs ≤ 1 := by
  cases hv : m.get k with
  | none =>
    rw [delete_of_get_none h hk hv]
    have := copies_eq_zero_iff.2 ((get_eq_none_iff h hk).1 hv)
    exact iff_of_true hv (by omega)
  | some v =>
    obtain ⟨-, hpairs⟩ := pairs_delete h hk hv
    rw [get_eq_none_iff (h.delete k) hk, ← copies_eq_zero_iff, hpairs, copies_cons_self]
    omega

theorem mem_pairs_delete (h : m.WF) (hk : NulFree k) (hne : k' ≠ k) :
    (k', v) ∈ (m.delete k).2.pairs ↔ (k', v) ∈ m.pairs := by
  cases hv : m.get k with
  | none => rw [delete_of_get_none h hk hv]
  | some v₁ => rw [(pairs_delete h hk hv).2, mem_cons_of_ne hne]

theorem get_delete_eq_none (h : m.WF) (hk : NulFree k) (hk' : NulFree k') (hne : k' ≠ k) :
    (m.delete k).2.get k' = none ↔ m.get k' = none := by
  rw [get_eq_none_iff (h.delete k) hk', get_eq_none_iff h hk']
  exact forall_congr' fun v => not_congr (mem_pairs_delete h hk hne)

theorem get_delete_ne (h : m.WF) (hk : NulFree k) (hk' : NulFree k') (hne : k' ≠ k)
    (hone : copies k' m.pairs ≤ 1) : (m.delete k).2.get k' = m.get k' := by
  cases hv : m.get k' with
  | none => exact (get_delete_eq_none h hk hk' hne).2 hv
  | some v =>
    have hsome : (m.delete k).2.get k' ≠ none := mt (get_delete_eq_none h hk hk' hne).1 (by simp [hv])
    obtain ⟨v', hv'⟩ := Option.ne_none_iff_exists'.1 hsome
    have hmem := (mem_pairs_delete h hk hne).1 (mem_pairs_of_get (h.delete k) hk' hv')
    rw [hv', eq_of_copies_le_one hone hmem (mem_pairs_of_get h hk' hv)]

/-- **What a lookup finds after a set and after a delete**, in every map that calls make of an empty
one. -/
theorem get_after_calls (hg : ∀ c ∈ calls, c.Granted) (hr : r.grants = true) (hk : NulFree k)
    (v : α) : ∃ map, map = ((create : Hashmap α).callAll calls).2 ∧
      (map.setWith r k v).get k = some ((map.get k).getD v) ∧
      ((map.delete k).2.get k = none ↔ copies k map.pairs ≤ 1) ∧
      ∀ k', NulFree k' → k' ≠ k → (map.setWith r k v).get k' = map.get k' ∧
        (copies k' map.pairs ≤ 1 → (map.delete k).2.get k' = map.get k') ∧
        ((map.delete k).2.get k' = none ↔ map.get k' = none) ∧
        ∀ v', (map.delete k).2.get k' = some v' → (k', v') ∈ map.pairs := by
  have h := wf_callAll wf_create hg
  refine ⟨_, rfl, get_setWith_self h hr hk v, get_delete_self h hk, ?_⟩
  intro k' hk' hne
  exact ⟨get_setWith_ne h hr hk' hne v, get_delete_ne h hk hk' hne,
    get_delete_eq_none h hk hk' hne,
    fun v' hv' => (mem_pairs_delete h hk hne).1 (mem_pairs_of_get (h.delete k) hk' hv')⟩

theorem get_after_calls_setTwice : ∃ map, map = ((create : Hashmap ℕ).callAll setTwice).2 ∧
    (map.setWith .calm (lit "A") 5).get (lit "A") = some ((map.get (lit "A")).getD 5) ∧
    ((map.delete (lit "A")).2.get (lit "A") = none ↔ copies (lit "A") map.pairs ≤ 1) ∧
    ∀ k', NulFree k' → k' ≠ lit "A" →
      (map.setWith .calm (lit "A") 5).get k' = map.get k' ∧
      (copies k' map.pairs ≤ 1 → (map.delete (lit "A")).2.get k' = map.get k') ∧
      ((map.delete (lit "A")).2.get k' = none ↔ map.get k' = none) ∧
      ∀ v', (map.delete (lit "A")).2.get k' = some v' → (k', v') ∈ map.pairs :=
  get_after_calls granted_setTwice rfl (by decide) 5

/-- A map that calls make of an empty one is a finite function, which a set changes at its key and a
delete undefines there. -/
def FiniteFunction (α : Type) : Prop :=
  ∀ (calls : List (HashmapCall α)) (r : Realloc (HashmapNode α)) (k : Bstring) (v : α),
    (∀ c ∈ calls, c.Granted) → (∀ c ∈ calls, NulFree c.key) → r.grants = true → NulFree k →
    ∃ map, map = ((create : Hashmap α).callAll calls).2 ∧
      (map.setWith r k v).get k = some v ∧ (map.delete k).2.get k = none ∧
      ∀ k', NulFree k' → k' ≠ k →
        (map.setWith r k v).get k' = map.get k' ∧ (map.delete k).2.get k' = map.get k'

/-- **A map is not a finite function**: a set does not replace, a delete brings an earlier pair of its
key back, and it can put the pairs of another key in another order. -/
theorem not_finiteFunction : ¬ FiniteFunction ℕ ∧
    ∃ map, map = ((create : Hashmap ℕ).callAll setTwice).2 ∧
      (map.setWith .calm (lit "A") 5).get (lit "A") = some 0 ∧
      (map.delete (lit "F")).2.get (lit "F") = some 2 ∧
      map.get (lit "F") = some 1 ∧ (map.delete (lit "A")).2.get (lit "F") = some 2 := by
  refine ⟨fun h => ?_, _, rfl, by decide +kernel, by decide +kernel, by decide +kernel,
    by decide +kernel⟩
  obtain ⟨map, rfl, hset, -⟩ := h setTwice .calm (lit "A") 5 granted_setTwice nulFree_setTwice rfl
    (by decide)
  revert hset
  decide +kernel

end Lookup

end Hashmap

end HttpServer

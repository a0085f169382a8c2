import HttpServer.HashmapSem

/-!
# A hash map does not look at its values

Every operation of the map moves the values as they are: it can be done before or after the values are
changed by any function (`map_set`, `get_map`, `map_delete`, `entries_map`).  So a map whose nodes also
carry the addresses of their blocks gives the same answers as one that holds the texts alone.  A value
can also be changed in place, behind its pointer (`modify`).
-/

namespace HttpServer

open Lib

namespace DArray

variable {α β : Type} (f : α → β) (a : DArray α)

def map : DArray β where
  end_ := a.end_
  max := a.max
  elementSize := a.elementSize
  expandRate := a.expandRate
  contents := a.contents.map (Option.map f)

@[simp] theorem end_map : (a.map f).end_ = a.end_ := rfl

@[simp] theorem max_map : (a.map f).max = a.max := rfl

@[simp] theorem map_fresh (n m : ℕ) : (fresh n m : DArray α).map f = fresh n m := by
  simp [map, fresh]

theorem join_getElem?_map (i : ℕ) :
    (a.map f).contents[i]?.join = (a.contents[i]?.join).map f := by
  simp only [map, List.getElem?_map]
  rcases a.contents[i]? with _ | _ | x <;> rfl

@[simp] theorem get_map (i : ℕ) : (a.map f).get i = (a.get i).map f := by
  unfold DArray.get
  by_cases h : i < a.max
  · rw [max_map, if_pos h, if_pos h, join_getElem?_map]
  · rw [max_map, if_neg h, if_neg h]
    rfl

theorem set_map (i : ℕ) (p : Option α) : (a.map f).set i (p.map f) = (a.set i p).map f := by
  unfold DArray.set
  by_cases h : i < a.max
  · rw [max_map, if_pos h, if_pos h]
    simp [map, List.map_set]
  · rw [max_map, if_neg h, if_neg h]

theorem resize_map (n : ℕ) : (a.map f).resize .calm n =
    ((a.resize .calm n).1, (a.resize .calm n).2.map f) := by
  unfold resize
  by_cases h : 0 < n
  · simp [map, Realloc.calm, h, List.map_take]
  · simp [map, Realloc.calm, h]

theorem clearBytes_map (l : List (Option α)) (start bytes : ℕ) :
    clearBytes .calm (l.map (Option.map f)) start bytes =
      (clearBytes .calm l start bytes).map (Option.map f) := by
  apply List.ext_getElem?
  intro i
  simp only [clearBytes, List.getElem?_mapIdx, List.getElem?_map, Realloc.calm]
  cases l[i]? with
  | none => rfl
  | some p =>
    simp only [Option.map_some]
    split
    · rfl
    · split <;> rfl

theorem expand_map : (a.map f).expand .calm = ((a.expand .calm).1, (a.expand .calm).2.map f) := by
  unfold expand
  have hresize := a.resize_map f (a.max + a.expandRate)
  rw [show (a.map f).resize .calm ((a.map f).max + (a.map f).expandRate) = _ from hresize]
  by_cases h : (a.resize .calm (a.max + a.expandRate)).1 = 0
  · simp only [h, if_true, max_map]
    refine congrArg (Prod.mk 0) ?_
    simp only [map, clearBytes_map]
  · simp only [h, if_false]

theorem push_map (p : Option α) : (a.map f).push .calm (p.map f) =
    ((a.push .calm p).1, (a.push .calm p).2.map f) := by
  have hpushed : (a.map f).pushed (p.map f) = (a.pushed p).map f := by
    simp [pushed, map, List.map_set]
  by_cases h : a.end_ + 1 < a.max
  · rw [push_of_room h, push_of_room (show (a.map f).end_ + 1 < (a.map f).max from h), hpushed]
  · have hfull : a.max ≤ a.end_ + 1 := not_lt.1 h
    rw [push_of_full hfull, push_of_full (show (a.map f).max ≤ (a.map f).end_ + 1 from hfull), hpushed,
      expand_map]

theorem pop_map : (a.map f).pop .calm = ((a.pop .calm).1.map f, (a.pop .calm).2.map f) := by
  have hpopped : (a.map f).popped = a.popped.map f := by
    simp [popped, map, List.map_set]
  rcases Nat.eq_zero_or_pos a.end_ with h0 | hpos
  · rw [pop_of_empty h0, pop_of_empty (show (a.map f).end_ = 0 from h0)]
    rfl
  by_cases hbig : a.expandRate < a.end_ - 1 ∧ (a.end_ - 1) % a.expandRate ≠ 0
  · rw [pop_of_contracted hpos hbig,
      pop_of_contracted (a := a.map f) hpos hbig, join_getElem?_map, hpopped, resize_map]
    rfl
  · rw [pop_of_kept hpos hbig, pop_of_kept (a := a.map f) hpos hbig, join_getElem?_map, hpopped]
    rfl

end DArray

namespace Hashmap

variable {α β : Type} (f : α → β) (m : Hashmap α)

def node (n : HashmapNode α) : HashmapNode β := ⟨n.key, f n.data, n.hash⟩

def map : Hashmap β := ⟨m.buckets.map fun bucket => bucket.map (node f)⟩

@[simp] theorem map_create : (create : Hashmap α).map f = create := by
  simp [map, create, DArray.map, DArray.fresh]

@[simp] theorem buckets_map (i : ℕ) :
    (m.map f).buckets.get i = (m.buckets.get i).map fun bucket => bucket.map (node f) :=
  DArray.get_map ..

theorem findBucket_map (key : Bstring) (create : Bool) : (m.map f).findBucket key create =
    ((m.findBucket key create).1.map fun bucket => bucket.map (node f),
      (m.findBucket key create).2.map f) := by
  unfold findBucket
  simp only [buckets_map]
  cases hg : m.buckets.get (bucketOf key) with
  | some bucket => rfl
  | none =>
    cases create with
    | false => rfl
    | true =>
      have hset := m.buckets.set_map (fun bucket => bucket.map (node f)) (bucketOf key)
        (some (DArray.fresh PTR_SIZE DEFAULT_NUMBER_OF_BUCKETS))
      simp only [Option.map_some, DArray.map_fresh] at hset
      simp only [Option.map_none, if_true, Option.map_some, DArray.map_fresh]
      exact congrArg (fun b => (some _, Hashmap.mk b)) hset

theorem putBucket_map (key : Bstring) (bucket : DArray (HashmapNode α)) :
    (m.map f).putBucket key (bucket.map (node f)) = (m.putBucket key bucket).map f :=
  congrArg Hashmap.mk (m.buckets.set_map _ _ (some bucket))

theorem map_set (key : Bstring) (v : α) : (m.set key v).map f = (m.map f).set key (f v) := by
  unfold set setWith
  rw [findBucket_map]
  rcases hb : m.findBucket key true with ⟨_ | bucket, m'⟩
  · rfl
  · simp only [Option.map_some]
    have hpush := bucket.push_map (node f) (some ⟨key, v, defaultHash key⟩)
    rw [show (bucket.map (node f)).push .calm (some ⟨key, f v, defaultHash key⟩) = _ from hpush,
      putBucket_map]

theorem getNode_map (hash : UInt32) (bucket : DArray (HashmapNode α)) (key : Bstring) :
    getNode hash (bucket.map (node f)) key = getNode hash bucket key := by
  unfold getNode
  simp only [DArray.end_map, DArray.get_map]
  refine congrArg (fun p => (List.range bucket.end_).find? p) (funext fun i => ?_)
  cases bucket.get i <;> rfl

theorem get_map (key : Bstring) : (m.map f).get key = (m.get key).map f := by
  unfold get
  rw [findBucket_map]
  rcases (m.findBucket key false).1 with _ | bucket
  · rfl
  · simp only [Option.map_some, getNode_map]
    cases getNode (defaultHash key) bucket key with
    | none => rfl
    | some i =>
      simp only [DArray.get_map]
      cases bucket.get i <;> rfl

theorem map_delete (key : Bstring) : (m.map f).delete key =
    ((m.delete key).1.map f, (m.delete key).2.map f) := by
  unfold delete
  rw [findBucket_map]
  rcases (m.findBucket key false).1 with _ | bucket
  · rfl
  simp only [Option.map_some, getNode_map]
  cases getNode (defaultHash key) bucket key with
  | none => rfl
  | some i =>
    simp only [DArray.get_map, DArray.pop_map, DArray.end_map]
    refine Prod.ext ?_ ?_
    · show ((bucket.get i).map (node f)).map _ = ((bucket.get i).map _).map f
      cases bucket.get i <;> rfl
    · by_cases hlast : i ≠ (bucket.pop .calm).2.end_
      · simp only [hlast, ne_eq, not_false_eq_true, if_true]
        rw [← putBucket_map, DArray.set_map]
      · simp only [hlast, if_false]
        rw [← putBucket_map]

theorem nodes_map : (m.map f).nodes = m.nodes.map (node f) := by
  unfold nodes
  rw [List.map_flatMap]
  refine List.flatMap_congr fun i _ => ?_
  rw [buckets_map]
  cases m.buckets.get i with
  | none => rfl
  | some bucket =>
    simp only [Option.map_some, DArray.end_map]
    rw [List.map_filterMap]
    exact congrArg (fun g => (List.range bucket.end_).filterMap g)
      (funext fun j => bucket.get_map (node f) j)

theorem entries_map : (m.map f).entries = m.entries.map fun p => (p.1, f p.2) := by
  unfold entries
  rw [nodes_map, List.map_map, List.map_map]
  rfl

end Hashmap

/-! ### Changing a value in place -/

namespace Hashmap

variable {α : Type} {m : Hashmap α} {B : ℕ → List (HashmapNode α)} {key : Bstring} {v : α}

/-- The value that `get` finds is changed in place. -/
def modify (m : Hashmap α) (key : Bstring) (f : α → α) : Hashmap α :=
  match (m.findBucket key false).1 with
  | none => m
  | some bucket =>
    match getNode (defaultHash key) bucket key with
    | none => m
    | some i => m.putBucket key
        (bucket.set i ((bucket.get i).map fun node => { node with data := f node.data }))

theorem Holds.found (h : m.Holds B) (hkey : NulFree key) (hv : m.get key = some v) :
    ∃ b i n, m.buckets.get (bucketOf key) = some b ∧ b.Holds (B (bucketOf key)) ∧
      getNode (defaultHash key) b key = some i ∧ (B (bucketOf key))[i]? = some n ∧
      n.key = key ∧ n.data = v := by
  have hb := h.bucket _ (bucketOf_lt key)
  rw [h.get hkey, List.find?_eq_bind_findIdx?_getElem?] at hv
  cases hg : m.buckets.get (bucketOf key) with
  | none =>
    rw [hg] at hb
    simp only at hb
    simp [hb] at hv
  | some b =>
    rw [hg] at hb
    simp only at hb
    have hnode := getNode_eq hb (fun n hn => (h.placed _ (bucketOf_lt key) n hn).1)
      (tells_of_nulFree _ hkey)
    cases hi : (B (bucketOf key)).findIdx? fun n => n.key = key with
    | none => simp [hi] at hv
    | some i =>
      obtain ⟨hlt, hkeyi, -⟩ := List.findIdx?_eq_some_iff_getElem.1 hi
      rw [hi, Option.bind_some, List.getElem?_eq_getElem hlt, Option.map_some] at hv
      exact ⟨b, i, _, rfl, hb, hnode.trans hi, List.getElem?_eq_getElem hlt,
        of_decide_eq_true hkeyi, Option.some.inj hv⟩

def HashmapNode.modify (n : HashmapNode α) (f : α → α) : HashmapNode α := { n with data := f n.data }

theorem Holds.modify_found (h : m.Holds B) {b : DArray (HashmapNode α)} {i : ℕ} {n : HashmapNode α}
    (hg : m.buckets.get (bucketOf key) = some b) (hb : b.Holds (B (bucketOf key)))
    (hi : getNode (defaultHash key) b key = some i) (hn : (B (bucketOf key))[i]? = some n)
    (f : α → α) : (m.modify key f).Holds (Function.update B (bucketOf key)
      ((B (bucketOf key)).set i (HashmapNode.modify n f))) := by
  obtain ⟨hlt, -⟩ := List.getElem?_eq_some_iff.1 hn
  have hmodify : m.modify key f = m.putBucket key (b.set i (some (HashmapNode.modify n f))) := by
    simp only [Hashmap.modify, findBucket_false, hg, hi, hb.get hlt, hn, Option.map_some]
    rfl
  rw [hmodify]
  refine h.putBucket (hb.set hlt _) fun x hx => ?_
  rcases List.mem_or_eq_of_mem_set hx with hx | rfl
  · exact h.placed _ (bucketOf_lt key) x hx
  · exact h.placed _ (bucketOf_lt key) n (List.mem_of_getElem? hn)

theorem WF.modify (h : m.WF) (key : Bstring) (f : α → α) : (m.modify key f).WF := by
  obtain ⟨B, hB⟩ := h
  have hb := hB.bucket _ (bucketOf_lt key)
  cases hg : m.buckets.get (bucketOf key) with
  | none => exact ⟨B, by simpa [Hashmap.modify, findBucket_false, hg] using hB⟩
  | some b =>
    rw [hg] at hb
    simp only at hb
    cases hi : getNode (defaultHash key) b key with
    | none => exact ⟨B, by simpa [Hashmap.modify, findBucket_false, hg, hi] using hB⟩
    | some i =>
      have hlt : i < (B (bucketOf key)).length := hb.end_eq ▸ getNode_lt hi
      exact ⟨_, hB.modify_found hg hb hi (List.getElem?_eq_getElem hlt) f⟩

theorem entries_modify (h : m.WF) (hkey : NulFree key) (hv : m.get key = some v) (f : α → α) :
    ∃ rest, m.entries.Perm ((key, v) :: rest) ∧
      (m.modify key f).entries.Perm ((key, f v) :: rest) := by
  obtain ⟨B, hB⟩ := h
  obtain ⟨b, i, n, hg, hb, hi, hn, rfl, rfl⟩ := hB.found hkey hv
  have hholds := hB.modify_found hg hb hi hn f
  obtain ⟨hlt, hget⟩ := List.getElem?_eq_some_iff.1 hn
  set ns := B (bucketOf n.key) with hns
  -- the nodes without the one that is changed
  set B' := Function.update B (bucketOf n.key) (ns.eraseIdx i) with hB'
  refine ⟨((List.range DEFAULT_NUMBER_OF_BUCKETS).flatMap B').map fun n => (n.key, n.data), ?_, ?_⟩
  · have hperm := flatMap_range_update_perm (bucketOf_lt n.key) (B := B') (l := ns) (x := n) (by
        rw [hB', Function.update_self, ← hget]
        exact (List.getElem_cons_eraseIdx_perm hlt).symm)
    rw [hB', Function.update_idem, hns, Function.update_eq_self] at hperm
    unfold entries
    rw [hB.nodes]
    exact hperm.map fun n => (n.key, n.data)
  · have hperm := flatMap_range_update_perm (bucketOf_lt n.key) (B := B')
      (l := ns.set i (HashmapNode.modify n f)) (x := HashmapNode.modify n f) (by
        have hlt' : i < (ns.set i (HashmapNode.modify n f)).length := by rwa [List.length_set]
        have h := List.getElem_cons_eraseIdx_perm hlt'
        rw [List.getElem_set_self, List.eraseIdx_set_eq] at h
        rw [hB', Function.update_self]
        exact h.symm)
    rw [hB', Function.update_idem] at hperm
    unfold entries
    rw [hholds.nodes]
    exact hperm.map fun n => (n.key, n.data)

/-! ### The buckets that are there -/

theorem Holds.get_putBucket (h : m.Holds B) (b : DArray (HashmapNode α)) (j : ℕ) :
    (m.putBucket key b).buckets.get j =
      if j = bucketOf key then some b else m.buckets.get j := by
  unfold Hashmap.putBucket
  exact DArray.get_set (by rw [h.size]; exact bucketOf_lt key) (by rw [h.size, h.max]) (some b)

/-- A set makes the bucket of its key, and no other one. -/
theorem isSome_set (h : m.WF) (key : Bstring) (v : α) (j : ℕ) :
    ((m.set key v).buckets.get j).isSome =
      (decide (j = bucketOf key) || (m.buckets.get j).isSome) := by
  obtain ⟨B, hB⟩ := h
  obtain ⟨b, m', hm', -, hf⟩ := hB.findBucket_create key
  have hfound : ∀ j, j ≠ bucketOf key → m'.buckets.get j = m.buckets.get j := by
    intro j hj
    unfold findBucket at hf
    cases hg : m.buckets.get (bucketOf key) with
    | some b' =>
      simp only [hg] at hf
      cases hf
      rfl
    | none =>
      simp only [hg, if_true] at hf
      cases hf
      have hget := DArray.get_set (i := bucketOf key) (j := j)
        (by rw [hB.size]; exact bucketOf_lt key) (by rw [hB.size, hB.max])
        (some (DArray.fresh PTR_SIZE DEFAULT_NUMBER_OF_BUCKETS))
      exact hget.trans (if_neg hj)
  unfold set setWith
  simp only [hf]
  rw [hm'.get_putBucket]
  by_cases hj : j = bucketOf key
  · simp [hj]
  · simp [hj, hfound j hj]

theorem isSome_putBucket (h : m.WF) (hg : (m.buckets.get (bucketOf key)).isSome = true)
    (b : DArray (HashmapNode α)) (j : ℕ) :
    ((m.putBucket key b).buckets.get j).isSome = (m.buckets.get j).isSome := by
  obtain ⟨B, hB⟩ := h
  rw [hB.get_putBucket]
  by_cases hj : j = bucketOf key
  · rw [if_pos hj, hj, hg]
    rfl
  · rw [if_neg hj]

theorem isSome_delete (h : m.WF) (key : Bstring) (j : ℕ) :
    ((m.delete key).2.buckets.get j).isSome = (m.buckets.get j).isSome := by
  unfold delete
  rw [findBucket_false]
  cases hg : m.buckets.get (bucketOf key) with
  | none => rfl
  | some b =>
    simp only
    cases getNode (defaultHash key) b key with
    | none => rfl
    | some i => exact isSome_putBucket h (by rw [hg]; rfl) _ j

theorem isSome_modify (h : m.WF) (key : Bstring) (f : α → α) (j : ℕ) :
    ((m.modify key f).buckets.get j).isSome = (m.buckets.get j).isSome := by
  unfold modify
  rw [findBucket_false]
  cases hg : m.buckets.get (bucketOf key) with
  | none => rfl
  | some b =>
    simp only
    cases getNode (defaultHash key) b key with
    | none => rfl
    | some i => exact isSome_putBucket h (by rw [hg]; rfl) _ j

end Hashmap

end HttpServer

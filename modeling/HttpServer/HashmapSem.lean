import HttpServer.Hashmap

/-!
# The hash map by its buckets and by its entries

What each operation of `Hashmap` does to the lists of nodes in the buckets (`Holds`), and from that
to the pairs of the map: `entries` gains the pair that is set and loses the pair that is deleted, up
to order, and a lookup finds the first pair of its key.
-/

namespace HttpServer

open Lib

/-- `char` is signed, and two of them differ as the bytes do. -/
theorem charDiff_eq_zero {a b : UInt8} : a.toInt8.toInt - b.toInt8.toInt = 0 ↔ a = b := by
  rw [sub_eq_zero, Int8.toInt_inj]
  exact ⟨fun h => by simpa using congrArg Int8.toUInt8 h, fun h => by rw [h]⟩

/-- Two strings of which the second has no NUL compare equal only if they are. -/
theorem bstrcmp_eq_zero {s t : Bstring} (ht : NulFree t) : bstrcmp s t = 0 ↔ s = t := by
  induction s generalizing t with
  | nil => cases t <;> simp [bstrcmp]
  | cons a s ih =>
    cases t with
    | nil => simp [bstrcmp]
    | cons b t =>
      obtain ⟨hb, ht'⟩ := nulFree_cons.1 ht
      by_cases h : a = b
      · subst h
        simp only [bstrcmp, sub_self, ne_eq, not_true_eq_false, if_false, hb, List.cons.injEq,
          true_and]
        exact ih ht'
      · simp [bstrcmp, mt charDiff_eq_zero.1 h, h]

theorem bstrcmp_eq_zero_left {s t : Bstring} (hs : NulFree s) : bstrcmp s t = 0 ↔ s = t := by
  induction s generalizing t with
  | nil => cases t <;> simp [bstrcmp]
  | cons a s ih =>
    cases t with
    | nil => simp [bstrcmp]
    | cons b t =>
      obtain ⟨ha, hs'⟩ := nulFree_cons.1 hs
      by_cases h : a = b
      · subst h
        simp only [bstrcmp, sub_self, ne_eq, not_true_eq_false, if_false, ha, List.cons.injEq,
          true_and]
        exact ih hs'
      · simp [bstrcmp, mt charDiff_eq_zero.1 h, h]

/-! ### Lists of buckets -/

section Buckets

variable {β : Type}

theorem range_find?_eq_findIdx? (l : List β) (q : β → Bool) :
    (List.range l.length).find? (fun i => match l[i]? with | some x => q x | none => false) =
      l.findIdx? q := by
  induction l with
  | nil => rfl
  | cons x l ih =>
    rw [List.length_cons, List.range_succ_eq_map, List.find?_cons, List.findIdx?_cons]
    simp only [List.getElem?_cons_zero, List.find?_map]
    cases q x with
    | true => rfl
    | false =>
      rw [← ih]
      rfl

theorem flatMap_range_update_perm {B : ℕ → List β} {n i : ℕ} {l : List β} {x : β} (hi : i < n)
    (hl : l.Perm (x :: B i)) :
    ((List.range n).flatMap (Function.update B i l)).Perm (x :: (List.range n).flatMap B) := by
  induction n with
  | zero => omega
  | succ n ih =>
    rw [List.range_succ, List.flatMap_append, List.flatMap_append, List.flatMap_singleton,
      List.flatMap_singleton]
    by_cases hn : i = n
    · subst hn
      have hsame : (List.range i).flatMap (Function.update B i l) = (List.range i).flatMap B :=
        List.flatMap_congr fun j hj => by
          rw [Function.update_of_ne (List.mem_range.1 hj).ne]
      rw [hsame, Function.update_self]
      exact (hl.append_left _).trans List.perm_middle
    · rw [Function.update_of_ne (Ne.symm hn)]
      exact (ih (by omega)).append_right _

theorem find?_flatMap_range {B : ℕ → List β} {n i : ℕ} {q : β → Bool} (hi : i < n)
    (hq : ∀ j < n, j ≠ i → ∀ x ∈ B j, q x = false) :
    ((List.range n).flatMap B).find? q = (B i).find? q := by
  induction n with
  | zero => omega
  | succ n ih =>
    have hnone : ∀ j ≤ n, j ≠ i → (B j).find? q = none := fun j hj hne =>
      List.find?_eq_none.2 fun x hx => by simp [hq j (by omega) hne x hx]
    rw [List.range_succ, List.flatMap_append, List.flatMap_singleton, List.find?_append]
    by_cases hn : i = n
    · subst hn
      have : ((List.range i).flatMap B).find? q = none := by
        rw [List.find?_eq_none]
        intro x hx
        obtain ⟨j, hj, hx⟩ := List.mem_flatMap.1 hx
        have hj := List.mem_range.1 hj
        simp [hq j (by omega) hj.ne x hx]
      rw [this, Option.none_or]
    · rw [ih (by omega) fun j hj => hq j (by omega), hnone n le_rfl (Ne.symm hn), Option.or_none]

theorem filter_flatMap_range {B : ℕ → List β} {f : β → ℕ} {n i : ℕ} (hi : i < n)
    (hB : ∀ j < n, ∀ x ∈ B j, f x = j) :
    ((List.range n).flatMap B).filter (fun x => f x = i) = B i := by
  induction n with
  | zero => omega
  | succ n ih =>
    rw [List.range_succ, List.flatMap_append, List.flatMap_singleton, List.filter_append]
    by_cases hn : i = n
    · subst hn
      have hothers : ((List.range i).flatMap B).filter (fun x => f x = i) = [] := by
        rw [List.filter_eq_nil_iff]
        intro x hx
        obtain ⟨j, hj, hx⟩ := List.mem_flatMap.1 hx
        have hj := List.mem_range.1 hj
        simp [hB j (by omega) x hx, hj.ne]
      have hall : (B i).filter (fun x => f x = i) = B i :=
        List.filter_eq_self.2 fun x hx => by simp [hB i (by omega) x hx]
      rw [hothers, hall, List.nil_append]
    · have hlast : (B n).filter (fun x => f x = i) = [] := by
        rw [List.filter_eq_nil_iff]
        intro x hx
        simp [hB n (by omega) x hx, Ne.symm hn]
      rw [ih (by omega) fun j hj => hB j (by omega), hlast, List.append_nil]

/-- The last element of `l` in the place of the element `i`. -/
def swapRemove (l : List β) (i : ℕ) : List β :=
  match l.getLast? with
  | some y => if i + 1 = l.length then l.dropLast else l.dropLast.set i y
  | none => []

theorem swapRemove_perm {l : List β} {i : ℕ} {x : β} (h : l[i]? = some x) :
    l.Perm (x :: swapRemove l i) := by
  obtain ⟨hi, rfl⟩ := List.getElem?_eq_some_iff.1 h
  have hne : l ≠ [] := List.ne_nil_of_length_pos (by omega)
  have hlast := List.dropLast_append_getLast hne
  unfold swapRemove
  rw [List.getLast?_eq_some_getLast hne]
  simp only
  split
  · rename_i hend
    have : l[i] = l.getLast hne := by
      rw [List.getLast_eq_getElem]
      congr 1
      omega
    rw [this]
    conv_lhs => rw [← hlast]
    exact List.perm_append_singleton _ _
  · rename_i hend
    have hi' : i < l.dropLast.length := by rw [List.length_dropLast]; omega
    have hx : l[i] = l.dropLast[i] := by rw [List.getElem_dropLast]
    conv_lhs => rw [← hlast]
    rw [hx]
    generalize l.dropLast = u at hi'
    generalize l.getLast hne = y
    rw [List.set_eq_take_append_cons_drop, if_pos hi']
    have hu : u = u.take i ++ u[i] :: u.drop (i + 1) := by simp
    calc (u ++ [y]).Perm (y :: u) := List.perm_append_singleton y u
      _ = y :: (u.take i ++ u[i] :: u.drop (i + 1)) := by rw [← hu]
      _ |>.Perm (y :: u[i] :: (u.take i ++ u.drop (i + 1))) := List.perm_middle.cons y
      _ |>.Perm (u[i] :: y :: (u.take i ++ u.drop (i + 1))) := List.Perm.swap _ _ _
      _ |>.Perm (u[i] :: (u.take i ++ y :: u.drop (i + 1))) := List.perm_middle.symm.cons _

end Buckets

namespace Hashmap

variable {α σ : Type} {m : Hashmap α} {B : ℕ → List (HashmapNode α)} {key k : Bstring} {v : α}
  {r : Realloc (HashmapNode α)}

/-- The buckets of `m` hold the nodes `B`, each node where its key belongs. -/
structure Holds (m : Hashmap α) (B : ℕ → List (HashmapNode α)) : Prop where
  size : m.buckets.contents.length = DEFAULT_NUMBER_OF_BUCKETS
  max : m.buckets.max = DEFAULT_NUMBER_OF_BUCKETS
  end_ : m.buckets.end_ = DEFAULT_NUMBER_OF_BUCKETS
  bucket : ∀ i < DEFAULT_NUMBER_OF_BUCKETS,
    match m.buckets.get i with
    | some b => b.Holds (B i)
    | none => B i = []
  placed : ∀ i < DEFAULT_NUMBER_OF_BUCKETS, ∀ n ∈ B i,
    n.hash = defaultHash n.key ∧ bucketOf n.key = i

theorem bucketOf_lt (key : Bstring) : bucketOf key < DEFAULT_NUMBER_OF_BUCKETS := by
  unfold bucketOf
  exact Nat.mod_lt _ (by decide)

/-- A map whose buckets are in order. -/
def WF (m : Hashmap α) : Prop := ∃ B, m.Holds B

theorem holds_create : (create : Hashmap α).Holds fun _ => [] := by
  refine ⟨by simp [create, DArray.fresh], rfl, rfl, fun i hi => ?_, by simp⟩
  have : (create : Hashmap α).buckets.get i = none := by
    simp [create, DArray.fresh, DArray.get, hi]
  rw [this]

theorem wf_create : (create : Hashmap α).WF := ⟨_, holds_create⟩

theorem Holds.putBucket (h : m.Holds B) {b : DArray (HashmapNode α)} {ns : List (HashmapNode α)}
    (hb : b.Holds ns) (hns : ∀ n ∈ ns, n.hash = defaultHash n.key ∧ bucketOf n.key = bucketOf key) :
    (m.putBucket key b).Holds (Function.update B (bucketOf key) ns) := by
  have hlt := bucketOf_lt key
  have hend : ¬ bucketOf key > m.buckets.end_ := by rw [h.end_]; omega
  have hset : m.buckets.set (bucketOf key) (some b) =
      { m.buckets with contents := m.buckets.contents.set (bucketOf key) (some b) } := by
    simp [DArray.set, h.max, hlt, hend]
  refine ⟨?_, ?_, ?_, fun i hi => ?_, fun i hi n hn => ?_⟩
  · simp [Hashmap.putBucket, hset, h.size]
  · simp [Hashmap.putBucket, hset, h.max]
  · simp [Hashmap.putBucket, hset, h.end_]
  · simp only [Hashmap.putBucket]
    rw [DArray.get_set (by rw [h.size]; exact hlt) (by rw [h.size, h.max])]
    by_cases hne : i = bucketOf key
    · subst hne
      simpa using hb
    · simpa [hne, Function.update_of_ne hne] using h.bucket i hi
  · by_cases hne : i = bucketOf key
    · subst hne
      rw [Function.update_self] at hn
      exact hns n hn
    · rw [Function.update_of_ne hne] at hn
      exact h.placed i hi n hn

theorem Holds.findBucket_create (h : m.Holds B) (key : Bstring) : ∃ b m', m'.Holds B ∧
    b.Holds (B (bucketOf key)) ∧ m.findBucket key true = (some b, m') := by
  have hb := h.bucket _ (bucketOf_lt key)
  unfold findBucket
  cases hg : m.buckets.get (bucketOf key) with
  | some b =>
    rw [hg] at hb
    exact ⟨b, m, h, hb, by simp only [hg]⟩
  | none =>
    rw [hg] at hb
    have hfresh : (DArray.fresh PTR_SIZE DEFAULT_NUMBER_OF_BUCKETS :
        DArray (HashmapNode α)).Holds (B (bucketOf key)) := by
      simp only at hb
      rw [hb]
      exact DArray.holds_fresh (by decide)
    have hput := h.putBucket hfresh (h.placed _ (bucketOf_lt key))
    rw [Function.update_eq_self] at hput
    exact ⟨_, _, hput, hfresh, by simp only [hg, if_true]; rfl⟩

/-- Set appends a node to the bucket of its key, whatever the memory that the bucket grows by
contains. -/
theorem Holds.setWith (h : m.Holds B) (hr : r.grants = true) (key : Bstring) (v : α) :
    (m.setWith r key v).Holds
      (Function.update B (bucketOf key) (B (bucketOf key) ++ [⟨key, v, defaultHash key⟩])) := by
  obtain ⟨b, m', hm', hb, hf⟩ := h.findBucket_create key
  have hpush := (hb.push hr ⟨key, v, defaultHash key⟩).2
  unfold Hashmap.setWith
  rw [hf]
  refine hm'.putBucket hpush ?_
  intro n hn
  rcases List.mem_append.1 hn with hn | hn
  · exact h.placed _ (bucketOf_lt key) n hn
  · rw [List.mem_singleton] at hn
    subst hn
    exact ⟨rfl, rfl⟩

theorem Holds.set (h : m.Holds B) (key : Bstring) (v : α) : (m.set key v).Holds
    (Function.update B (bucketOf key) (B (bucketOf key) ++ [⟨key, v, defaultHash key⟩])) :=
  h.setWith rfl key v

theorem getNode_lt {hash : UInt32} {b : DArray (HashmapNode α)} {i : ℕ}
    (h : getNode hash b key = some i) : i < b.end_ :=
  List.mem_range.1 (List.mem_of_find?_eq_some h)

/-- The comparison tells the keys of the nodes `ns` from `key`. -/
def Tells (ns : List (HashmapNode α)) (key : Bstring) : Prop :=
  ∀ n ∈ ns, bstrcmp n.key key = 0 ↔ n.key = key

theorem tells_of_nulFree_keys {ns : List (HashmapNode α)} (hns : ∀ n ∈ ns, NulFree n.key)
    (key : Bstring) : Tells ns key :=
  fun n hn => bstrcmp_eq_zero_left (hns n hn)

theorem tells_of_nulFree (ns : List (HashmapNode α)) (hkey : NulFree key) : Tells ns key :=
  fun _ _ => bstrcmp_eq_zero hkey

theorem getNode_eq {b : DArray (HashmapNode α)} {ns : List (HashmapNode α)} (hb : b.Holds ns)
    (hns : ∀ n ∈ ns, n.hash = defaultHash n.key) (hkey : Tells ns key) :
    getNode (defaultHash key) b key = ns.findIdx? fun n => n.key = key := by
  unfold getNode
  rw [hb.end_eq, ← range_find?_eq_findIdx?]
  refine List.find?_congr fun i hi => ?_
  have hi := List.mem_range.1 hi
  rw [hb.get hi, List.getElem?_eq_getElem hi]
  have hhash := hns _ (List.getElem_mem hi)
  simp only [hkey _ (List.getElem_mem hi), hhash]
  refine decide_eq_decide.2 ⟨fun h => h.2, fun h => ⟨by rw [h], h⟩⟩

theorem findBucket_false (m : Hashmap α) (key : Bstring) :
    (m.findBucket key false).1 = m.buckets.get (bucketOf key) := by
  unfold findBucket
  cases hg : m.buckets.get (bucketOf key) <;> simp [hg]

theorem Holds.get_of_tells (h : m.Holds B) (hkey : Tells (B (bucketOf key)) key) :
    m.get key = ((B (bucketOf key)).find? fun n => n.key = key).map (·.data) := by
  have hb := h.bucket _ (bucketOf_lt key)
  unfold Hashmap.get
  rw [findBucket_false]
  cases hg : m.buckets.get (bucketOf key) with
  | none =>
    rw [hg] at hb
    simp only at hb
    simp [hb]
  | some b =>
    rw [hg] at hb
    simp only at hb
    have hns := fun n hn => (h.placed _ (bucketOf_lt key) n hn).1
    simp only [getNode_eq hb hns hkey]
    rw [List.find?_eq_bind_findIdx?_getElem?]
    cases hi : (B (bucketOf key)).findIdx? fun n => n.key = key with
    | none => rfl
    | some i =>
      have hlt := (List.findIdx?_eq_some_iff_getElem.1 hi).1
      simp [hb.get hlt]

theorem Holds.get (h : m.Holds B) (hkey : NulFree key) :
    m.get key = ((B (bucketOf key)).find? fun n => n.key = key).map (·.data) :=
  h.get_of_tells (tells_of_nulFree _ hkey)

theorem Holds.delete_found (h : m.Holds B) {b : DArray (HashmapNode α)} {i : ℕ}
    (hg : m.buckets.get (bucketOf key) = some b) (hb : b.Holds (B (bucketOf key)))
    (hi : getNode (defaultHash key) b key = some i) :
    (m.delete key).1 = (B (bucketOf key))[i]?.map (·.data) ∧
      (m.delete key).2.Holds
        (Function.update B (bucketOf key) (swapRemove (B (bucketOf key)) i)) := by
  have hplaced := h.placed _ (bucketOf_lt key)
  have hlt : i < (B (bucketOf key)).length := hb.end_eq ▸ getNode_lt hi
  unfold Hashmap.delete
  simp only [findBucket_false, hg, hi]
  generalize hns : B (bucketOf key) = ns at *
  obtain ⟨us, y, rfl⟩ : ∃ us y, ns = us ++ [y] :=
    ⟨_, _, (List.dropLast_append_getLast (List.ne_nil_of_length_pos (by omega))).symm⟩
  have hpop := hb.pop (r := .calm) rfl
  refine ⟨by rw [hb.get hlt], h.putBucket ?_ fun n hn => ?_⟩
  · rw [hpop.1, hpop.2.end_eq]
    simp only [swapRemove, List.getLast?_append, List.getLast?_singleton, Option.some_or,
      List.length_append, List.length_singleton, List.dropLast_concat, Nat.add_right_cancel_iff]
    split
    · rename_i hne
      have hi' : i < us.length := by
        rw [List.length_append, List.length_singleton] at hlt
        omega
      exact hpop.2.set hi' y
    · rename_i hne
      rw [if_pos (not_not.1 hne)]
      exact hpop.2
  · have hperm := swapRemove_perm (List.getElem?_eq_getElem hlt)
    exact hplaced n (hperm.symm.subset (List.mem_cons_of_mem _ hn))

theorem Holds.delete (h : m.Holds B) (hkey : NulFree key) :
    match (B (bucketOf key)).findIdx? fun n => n.key = key with
    | none => m.delete key = (none, m)
    | some i => (m.delete key).1 = (B (bucketOf key))[i]?.map (·.data) ∧
        (m.delete key).2.Holds
          (Function.update B (bucketOf key) (swapRemove (B (bucketOf key)) i)) := by
  have hb := h.bucket _ (bucketOf_lt key)
  have hplaced := fun n hn => (h.placed _ (bucketOf_lt key) n hn).1
  cases hg : m.buckets.get (bucketOf key) with
  | none =>
    rw [hg] at hb
    simp only at hb
    simp [Hashmap.delete, findBucket_false, hg, hb]
  | some b =>
    rw [hg] at hb
    simp only at hb
    have hnode := getNode_eq hb hplaced (tells_of_nulFree _ hkey)
    cases hi : (B (bucketOf key)).findIdx? fun n => n.key = key with
    | none => simp only [Hashmap.delete, findBucket_false, hg, hnode, hi]
    | some i => exact h.delete_found hg hb (hnode.trans hi)

/-! ### The entries of a map -/

theorem Holds.slots (h : m.Holds B) {i : ℕ} (hi : i < DEFAULT_NUMBER_OF_BUCKETS) :
    m.slots i = B i := by
  have hb := h.bucket i hi
  unfold Hashmap.slots
  cases hg : m.buckets.get i with
  | none =>
    rw [hg] at hb
    exact hb.symm
  | some b =>
    rw [hg] at hb
    simp only at hb ⊢
    rw [hb.end_eq]
    generalize hn : B i = ns at hb
    have : (List.range ns.length).filterMap b.get = (List.range ns.length).filterMap (ns[·]?) :=
      List.filterMap_congr fun j hj => hb.get (List.mem_range.1 hj)
    rw [this]
    clear this hb hn
    induction ns with
    | nil => rfl
    | cons n ns ih =>
      rw [List.length_cons, List.range_succ_eq_map, List.filterMap_cons]
      simp only [List.getElem?_cons_zero, List.filterMap_map]
      congr 1

theorem Holds.slots_of_le (h : m.Holds B) {i : ℕ} (hi : DEFAULT_NUMBER_OF_BUCKETS ≤ i) :
    m.slots i = [] := by
  have hnone : m.buckets.get i = none := by
    simp only [DArray.get, h.max, not_lt.2 hi, if_false]
  simp only [Hashmap.slots, hnone]

theorem Holds.nodes (h : m.Holds B) : m.nodes = (List.range DEFAULT_NUMBER_OF_BUCKETS).flatMap B := by
  have hslots : m.nodes = (List.range m.buckets.end_).flatMap m.slots := rfl
  rw [hslots, h.end_]
  exact List.flatMap_congr fun i hi => h.slots (List.mem_range.1 hi)

@[simp] theorem entries_create : (create : Hashmap α).entries = [] := by
  simp [entries, holds_create.nodes]

theorem WF.setWith (h : m.WF) (hr : r.grants = true) (key : Bstring) (v : α) :
    (m.setWith r key v).WF :=
  let ⟨_, hB⟩ := h
  ⟨_, hB.setWith hr key v⟩

theorem WF.set (h : m.WF) (key : Bstring) (v : α) : (m.set key v).WF := h.setWith rfl key v

theorem WF.delete (h : m.WF) (key : Bstring) : (m.delete key).2.WF := by
  obtain ⟨B, hB⟩ := h
  have hb := hB.bucket _ (bucketOf_lt key)
  cases hg : m.buckets.get (bucketOf key) with
  | none => exact ⟨B, by simpa [Hashmap.delete, findBucket_false, hg] using hB⟩
  | some b =>
    rw [hg] at hb
    simp only at hb
    cases hi : getNode (defaultHash key) b key with
    | none => exact ⟨B, by simpa [Hashmap.delete, findBucket_false, hg, hi] using hB⟩
    | some i => exact ⟨_, (hB.delete_found hg hb hi).2⟩

theorem entries_setWith (h : m.WF) (hr : r.grants = true) (key : Bstring) (v : α) :
    (m.setWith r key v).entries.Perm ((key, v) :: m.entries) := by
  obtain ⟨B, hB⟩ := h
  unfold entries
  rw [(hB.setWith hr key v).nodes, hB.nodes]
  have := flatMap_range_update_perm (bucketOf_lt key)
    (List.perm_append_singleton (⟨key, v, defaultHash key⟩ : HashmapNode α) (B (bucketOf key)))
  exact this.map _

theorem entries_set (h : m.WF) (key : Bstring) (v : α) :
    (m.set key v).entries.Perm ((key, v) :: m.entries) :=
  entries_setWith h rfl key v

theorem get_eq_find? (h : m.WF) (hkey : NulFree key) :
    m.get key = (m.entries.find? fun p => p.1 = key).map (·.2) := by
  obtain ⟨B, hB⟩ := h
  rw [hB.get hkey, entries, List.find?_map, hB.nodes]
  rw [find?_flatMap_range (B := B) (bucketOf_lt key) fun j hj hne n hn => ?_]
  · simp [Function.comp_def]
  · have := (hB.placed j hj n hn).2
    simp only [Function.comp_apply, decide_eq_false_iff_not]
    rintro rfl
    exact hne this.symm

theorem entries_delete (h : m.WF) (hkey : NulFree key) (hv : m.get key = some v) :
    (m.delete key).1 = some v ∧ (m.delete key).2.WF ∧
      m.entries.Perm ((key, v) :: (m.delete key).2.entries) := by
  obtain ⟨B, hB⟩ := h
  have hdel := hB.delete hkey
  rw [hB.get hkey, List.find?_eq_bind_findIdx?_getElem?] at hv
  cases hi : (B (bucketOf key)).findIdx? fun n => n.key = key with
  | none => simp [hi] at hv
  | some i =>
    rw [hi] at hdel hv
    simp only [Option.bind_some] at hdel hv
    obtain ⟨hlt, hkeyi, -⟩ := List.findIdx?_eq_some_iff_getElem.1 hi
    refine ⟨by rw [hdel.1, hv], ⟨_, hdel.2⟩, ?_⟩
    rw [List.getElem?_eq_getElem hlt] at hv
    have hnode : ((B (bucketOf key))[i].key, (B (bucketOf key))[i].data) = (key, v) := by
      simp only [Option.map_some, Option.some.injEq] at hv
      simp only [decide_eq_true_eq] at hkeyi
      rw [hv, hkeyi]
    unfold entries
    rw [hdel.2.nodes, hB.nodes, ← hnode]
    have hperm := flatMap_range_update_perm (bucketOf_lt key)
      (B := Function.update B (bucketOf key) (swapRemove (B (bucketOf key)) i))
      (l := B (bucketOf key)) (x := (B (bucketOf key))[i])
      (by rw [Function.update_self]; exact swapRemove_perm (List.getElem?_eq_getElem hlt))
    rw [Function.update_idem, Function.update_eq_self] at hperm
    exact hperm.map fun n => (n.key, n.data)

/-- A lookup after a set: the pairs that were there come first. -/
theorem get_setWith (h : m.WF) (hr : r.grants = true) (key : Bstring) (v : α) (hk : NulFree k) :
    (m.setWith r key v).get k = (m.get k).or (if k = key then some v else none) := by
  obtain ⟨B, hB⟩ := h
  rw [(hB.setWith hr key v).get hk, hB.get hk]
  by_cases hb : bucketOf k = bucketOf key
  · rw [hb, Function.update_self, List.find?_append, Option.map_or]
    congr 1
    by_cases hkk : k = key
    · simp [hkk]
    · have : key ≠ k := fun h => hkk h.symm
      simp [hkk, this]
  · have hne : k ≠ key := fun h => hb (by rw [h])
    rw [Function.update_of_ne hb, if_neg hne, Option.or_none]

theorem get_set (h : m.WF) (key : Bstring) (v : α) (hk : NulFree k) :
    (m.set key v).get k = (m.get k).or (if k = key then some v else none) :=
  get_setWith h rfl key v hk

theorem get_create (hk : NulFree k) : (create : Hashmap α).get k = none := by
  rw [holds_create.get hk]
  rfl

end Hashmap

end HttpServer

import HttpServer.Lib.Bytes

/-!
# The growable arrays of `darray.c`

A `DArray` is modelled with its counters and its slots, a slot holding a pointer or NULL.  What the
allocator does on a call of `realloc` (whether it grants the request, and what the memory it adds
contains) is an argument, `Realloc`.

`Slots a ps` says that the first `end` slots of `a` are the pointers `ps`, that there is room for one
more, and that `max` is the number of slots allocated; `Holds a xs` says the same of elements, none of
which is NULL.  Push, pop and set act on the list.
-/

namespace HttpServer

/-- What one call of `realloc` does. -/
structure Realloc (α : Type) where
  /-- The request is granted. -/
  grants : Bool
  /-- The pointer found in slot `i` of the memory it adds. -/
  stale : ℕ → Option α
  /-- The pointer left of `p` when its low `k` bytes are cleared. -/
  clearLow : ℕ → Option α → Option α

/-- `realloc` that grants the request and adds cleared memory. -/
def Realloc.calm {α : Type} : Realloc α := ⟨true, fun _ => none, fun _ _ => none⟩

structure DArray (α : Type) where
  end_ : ℕ
  max : ℕ
  elementSize : ℕ
  expandRate : ℕ
  contents : List (Option α)

abbrev DEFAULT_EXPAND_RATE : ℕ := 300

abbrev PTR_SIZE : ℕ := 8

namespace DArray

variable {α : Type}

/-- The array that `DArray_create` sets up, its slots cleared by `calloc`. -/
def fresh (elementSize initialMax : ℕ) : DArray α where
  end_ := 0
  max := initialMax
  elementSize := elementSize
  expandRate := DEFAULT_EXPAND_RATE
  contents := List.replicate initialMax none

def create (elementSize initialMax : ℕ) : Option (DArray α) :=
  if initialMax > 0 then some (fresh elementSize initialMax) else none

/-- `DArray_clear`: the pointers it frees, in the order of the slots. -/
def clear (a : DArray α) : List α :=
  if a.elementSize > 0 then (List.range a.max).filterMap fun i => a.contents[i]?.join else []

/-- `DArray_resize`: `max` is set before the allocation is known to have succeeded. -/
def resize (r : Realloc α) (a : DArray α) (newsize : ℕ) : ℤ × DArray α :=
  let a := { a with max := newsize }
  if a.max > 0 ∧ r.grants then
    (0, { a with
      contents := a.contents.take newsize ++
        (List.range' a.contents.length (newsize - a.contents.length)).map r.stale })
  else (-1, a)

/-- `memset(contents + start, 0, bytes)`: the count is in bytes, and the last slot it reaches may be
cleared in part. -/
def clearBytes (r : Realloc α) (contents : List (Option α)) (start bytes : ℕ) : List (Option α) :=
  contents.mapIdx fun i el =>
    if start ≤ i ∧ i < start + bytes / PTR_SIZE then none
    else if i = start + bytes / PTR_SIZE ∧ bytes % PTR_SIZE ≠ 0 then
      r.clearLow (bytes % PTR_SIZE) el
    else el

def expand (r : Realloc α) (a : DArray α) : ℤ × DArray α :=
  let oldMax := a.max
  let (rc, a) := a.resize r (a.max + a.expandRate)
  if rc = 0 then (0, { a with contents := clearBytes r a.contents oldMax (a.expandRate + 1) })
  else (-1, a)

def contract (r : Realloc α) (a : DArray α) : ℤ × DArray α :=
  let newSize := if a.end_ < a.expandRate then a.expandRate else a.end_
  a.resize r (newSize + 1)

/-- `DArray_push`: the element is stored before the room for the next one is made. -/
def push (r : Realloc α) (a : DArray α) (el : Option α) : ℤ × DArray α :=
  let a := { a with contents := a.contents.set a.end_ el, end_ := a.end_ + 1 }
  if a.end_ ≥ a.max then a.expand r else (0, a)

def set (a : DArray α) (i : ℕ) (el : Option α) : DArray α :=
  if i < a.max then
    { a with end_ := if i > a.end_ then i else a.end_, contents := a.contents.set i el }
  else a

def get (a : DArray α) (i : ℕ) : Option α :=
  if i < a.max then a.contents[i]?.join else none

def remove (a : DArray α) (i : ℕ) : Option α × DArray α :=
  (a.contents[i]?.join, { a with contents := a.contents.set i none })

def pop (r : Realloc α) (a : DArray α) : Option α × DArray α :=
  if a.end_ ≥ 1 then
    let (el, a) := a.remove (a.end_ - 1)
    let a := { a with end_ := a.end_ - 1 }
    if a.end_ > a.expandRate ∧ a.end_ % a.expandRate ≠ 0 then (el, (a.contract r).2) else (el, a)
  else (none, a)

/-! ### The elements of an array -/

/-- `a` holds the elements `xs`, and has room for one more. -/
structure Holds (a : DArray α) (xs : List α) : Prop where
  end_eq : a.end_ = xs.length
  end_lt : a.end_ < a.max
  allocated : a.contents.length = a.max
  slots : a.contents.take a.end_ = xs.map some
  rate : 0 < a.expandRate

section Holds

variable {a : DArray α} {xs : List α} {x : α} {r : Realloc α}

theorem Holds.slot (h : a.Holds xs) {i : ℕ} (hi : i < xs.length) : a.contents[i]? = some xs[i]? := by
  have hlt : i < a.end_ := by rw [h.end_eq]; exact hi
  have := congrArg (·[i]?) h.slots
  simpa [List.getElem?_take, hlt, List.getElem?_eq_getElem hi] using this

theorem Holds.unique {ys : List α} (h : a.Holds xs) (h' : a.Holds ys) : xs = ys :=
  List.map_injective_iff.2 (Option.some_injective α) (h.slots.symm.trans h'.slots)

theorem create_eq_some {n m : ℕ} : create n m = some a ↔ 0 < m ∧ a = fresh n m := by
  simp [create, @eq_comm _ a]

theorem holds_fresh {n m : ℕ} (hm : 0 < m) : (fresh n m : DArray α).Holds [] := by
  constructor <;> simp [fresh, hm]

theorem get_set {i j : ℕ} (hi : i < a.contents.length) (hmax : a.contents.length = a.max)
    (p : Option α) : (a.set i p).get j = if j = i then p else a.get j := by
  have hlt : i < a.max := hmax ▸ hi
  by_cases hj : j = i
  · subst hj
    simp [DArray.set, DArray.get, hlt, List.getElem?_set_self hi]
  · simp [DArray.set, DArray.get, hlt, hj, List.getElem?_set_ne (Ne.symm hj)]

theorem Holds.get (h : a.Holds xs) {i : ℕ} (hi : i < xs.length) : a.get i = xs[i]? := by
  have hlt : i < a.max := lt_of_lt_of_le hi (h.end_eq ▸ h.end_lt.le)
  simp [DArray.get, hlt, h.slot hi]

theorem Holds.set (h : a.Holds xs) {i : ℕ} (hi : i < xs.length) (x : α) :
    (a.set i (some x)).Holds (xs.set i x) := by
  have hlt : i < a.max := lt_of_lt_of_le hi (h.end_eq ▸ h.end_lt.le)
  have hend : ¬ i > a.end_ := by have := h.end_eq; omega
  simp only [DArray.set, hlt, if_true, hend, if_false]
  refine ⟨by simp [h.end_eq], h.end_lt, by simp [h.allocated], ?_, h.rate⟩
  simp only [List.take_set, h.slots, List.map_set]

theorem getElem?_of_take_eq {l l' : List (Option α)} {k i : ℕ} (h : l.take k = l'.take k)
    (hi : i < k) : l[i]? = l'[i]? := by
  rw [← List.getElem?_take_of_lt hi, h, List.getElem?_take_of_lt hi]

/-- A granted `resize` allocates what was asked for and keeps the slots that fit. -/
theorem resize_granted (hr : r.grants = true) {n : ℕ} (hn : 0 < n) : ∃ c, c.length = n ∧
    (∀ k ≤ n, k ≤ a.contents.length → c.take k = a.contents.take k) ∧
    a.resize r n = (0, { a with max := n, contents := c }) := by
  refine ⟨a.contents.take n ++ (List.range' a.contents.length (n - a.contents.length)).map r.stale,
    by simp; omega, fun k hk hka => ?_, by simp [resize, hr, hn]⟩
  rw [List.take_append_of_le_length (by simp; omega), List.take_take, Nat.min_eq_left hk]

theorem clearBytes_take (c : List (Option α)) {start k : ℕ} (bytes : ℕ) (hk : k ≤ start) :
    (clearBytes r c start bytes).take k = c.take k := by
  apply List.ext_getElem?
  intro i
  simp only [clearBytes, List.getElem?_take, List.getElem?_mapIdx]
  split
  · rename_i hi
    have h1 : ¬ (start ≤ i ∧ i < start + bytes / PTR_SIZE) := fun h => by omega
    have h2 : ¬ (i = start + bytes / PTR_SIZE ∧ bytes % PTR_SIZE ≠ 0) := by
      intro h
      have := h.1
      generalize bytes / PTR_SIZE = q at *
      omega
    simp [h1, h2]
  · rfl

/-! ### What one call does -/

/-- The array after the store of a push: there may be no room left behind the element. -/
def pushed (a : DArray α) (el : Option α) : DArray α :=
  { a with contents := a.contents.set a.end_ el, end_ := a.end_ + 1 }

/-- The array after the removal of a pop, before it is contracted. -/
def popped (a : DArray α) : DArray α :=
  { a with contents := a.contents.set (a.end_ - 1) none, end_ := a.end_ - 1 }

theorem push_of_room {el : Option α} (h : a.end_ + 1 < a.max) : a.push r el = (0, a.pushed el) := by
  unfold DArray.push
  exact if_neg (by simpa using h)

theorem push_of_full {el : Option α} (h : a.max ≤ a.end_ + 1) :
    a.push r el = (a.pushed el).expand r := by
  unfold DArray.push
  exact if_pos (by simpa using h)

/-- An expansion that gets its memory adds `expandRate` slots, and clears none of the old ones. -/
theorem expand_granted (hr : r.grants = true) (hrate : 0 < a.expandRate) :
    ∃ c, c.length = a.max + a.expandRate ∧
      (∀ k ≤ a.max, k ≤ a.contents.length → c.take k = a.contents.take k) ∧
      a.expand r = (0, { a with max := a.max + a.expandRate, contents := c }) := by
  obtain ⟨c, hc, hkeep, hres⟩ := resize_granted (a := a) (n := a.max + a.expandRate) hr (by omega)
  refine ⟨clearBytes r c a.max (a.expandRate + 1), by simp [clearBytes, hc], ?_, by simp [expand, hres]⟩
  intro k hk hka
  rw [clearBytes_take c _ hk]
  exact hkeep k (by omega) hka

/-- An expansion that gets no memory has changed `max` all the same. -/
theorem expand_denied (hr : r.grants = false) :
    a.expand r = (-1, { a with max := a.max + a.expandRate }) := by
  simp [expand, resize, hr]

theorem push_cases (a : DArray α) (r : Realloc α) (el : Option α) :
    (a.end_ + 1 < a.max ∧ a.push r el = (0, a.pushed el)) ∨
      (a.max ≤ a.end_ + 1 ∧ a.push r el = (a.pushed el).expand r) := by
  by_cases h : a.end_ + 1 < a.max
  · exact Or.inl ⟨h, push_of_room h⟩
  · have hfull : a.max ≤ a.end_ + 1 := by omega
    exact Or.inr ⟨hfull, push_of_full hfull⟩

theorem expand_cases (r : Realloc α) (hrate : 0 < a.expandRate) :
    (∃ c, c.length = a.max + a.expandRate ∧
      (∀ k ≤ a.max, k ≤ a.contents.length → c.take k = a.contents.take k) ∧
      a.expand r = (0, { a with max := a.max + a.expandRate, contents := c })) ∨
    (r.grants = false ∧ a.expand r = (-1, { a with max := a.max + a.expandRate })) := by
  cases hr : r.grants with
  | false => exact Or.inr ⟨rfl, expand_denied hr⟩
  | true => exact Or.inl (expand_granted hr hrate)

theorem pop_of_empty (h : a.end_ = 0) : a.pop r = (none, a) := by
  unfold DArray.pop
  exact if_neg (by omega)

theorem pop_of_kept (h : 0 < a.end_)
    (hkeep : ¬ (a.expandRate < a.end_ - 1 ∧ (a.end_ - 1) % a.expandRate ≠ 0)) :
    a.pop r = (a.contents[a.end_ - 1]?.join, a.popped) := by
  unfold DArray.pop
  simp only [remove, show a.end_ ≥ 1 by omega, if_true]
  exact if_neg hkeep

/-- A pop that contracts the array: one slot is left behind the elements. -/
theorem pop_of_contracted (h : 0 < a.end_)
    (hbig : a.expandRate < a.end_ - 1 ∧ (a.end_ - 1) % a.expandRate ≠ 0) :
    a.pop r = (a.contents[a.end_ - 1]?.join, (a.popped.resize r a.end_).2) := by
  unfold DArray.pop
  simp only [remove, show a.end_ ≥ 1 by omega, if_true]
  refine (if_pos hbig).trans ?_
  simp only [contract, show ¬ a.end_ - 1 < a.expandRate by omega, if_false, popped,
    show a.end_ - 1 + 1 = a.end_ by omega]

theorem pop_cases (a : DArray α) (r : Realloc α) :
    (a.end_ = 0 ∧ a.pop r = (none, a)) ∨
      (0 < a.end_ ∧ a.pop r = (a.contents[a.end_ - 1]?.join, a.popped)) ∨
      (a.expandRate < a.end_ - 1 ∧
        a.pop r = (a.contents[a.end_ - 1]?.join, (a.popped.resize r a.end_).2)) := by
  rcases Nat.eq_zero_or_pos a.end_ with h0 | hpos
  · exact Or.inl ⟨h0, pop_of_empty h0⟩
  by_cases hbig : a.expandRate < a.end_ - 1 ∧ (a.end_ - 1) % a.expandRate ≠ 0
  · exact Or.inr (Or.inr ⟨hbig.1, pop_of_contracted hpos hbig⟩)
  · exact Or.inr (Or.inl ⟨hpos, pop_of_kept hpos hbig⟩)

/-! ### The pointers of an array -/

/-- The first slots of `a` are the pointers `ps`, there is room for one more, and all `max` slots
are allocated. -/
structure Slots (a : DArray α) (ps : List (Option α)) : Prop where
  end_eq : a.end_ = ps.length
  end_lt : a.end_ < a.max
  allocated : a.contents.length = a.max
  slots : a.contents.take a.end_ = ps
  rate : 0 < a.expandRate

theorem holds_iff : a.Holds xs ↔ a.Slots (xs.map some) := by
  constructor
  · intro h
    exact ⟨by simp [h.end_eq], h.end_lt, h.allocated, h.slots, h.rate⟩
  · intro h
    exact ⟨by simpa using h.end_eq, h.end_lt, h.allocated, h.slots, h.rate⟩

section Slots

variable {ps : List (Option α)} {p : Option α}

theorem slots_fresh {n m : ℕ} (hm : 0 < m) : (fresh n m : DArray α).Slots [] := by
  constructor <;> simp [fresh, hm]

/-- Pushing appends, whatever the memory that `realloc` adds contains. -/
theorem Slots.push (h : a.Slots ps) (hr : r.grants = true) (p : Option α) :
    (a.push r p).1 = 0 ∧ (a.push r p).2.Slots (ps ++ [p]) := by
  have hlen : a.end_ < a.contents.length := h.allocated ▸ h.end_lt
  have htake : (a.pushed p).contents.take (a.end_ + 1) = ps ++ [p] := by
    show (a.contents.set a.end_ p).take (a.end_ + 1) = _
    rw [List.take_add_one, List.take_set_of_le (le_refl _), h.slots, List.getElem?_set_self hlen]
    simp
  have hlen' : (a.pushed p).contents.length = a.max := by simp [pushed, h.allocated]
  have hend : (a.pushed p).end_ = (ps ++ [p]).length := by simp [pushed, h.end_eq]
  rcases a.push_cases r p with ⟨hroom, hpush⟩ | ⟨-, hpush⟩
  · rw [hpush]
    exact ⟨rfl, hend, hroom, hlen', htake, h.rate⟩
  · rw [hpush]
    obtain ⟨c, hc, hkeep, hexp⟩ := expand_granted (a := a.pushed p) hr h.rate
    rw [hexp]
    have hlt := h.end_lt
    have hrate := h.rate
    refine ⟨rfl, hend, ?_, hc, ?_, hrate⟩
    · show a.end_ + 1 < a.max + a.expandRate
      omega
    · show c.take (a.end_ + 1) = _
      rw [hkeep (a.end_ + 1) hlt (by omega)]
      exact htake

theorem Slots.pop (h : a.Slots (ps ++ [p])) (hr : r.grants = true) :
    (a.pop r).1 = p ∧ (a.pop r).2.Slots ps := by
  have hend : a.end_ = ps.length + 1 := by simpa using h.end_eq
  have hlt := h.end_lt
  have hlast : a.contents[a.end_ - 1]? = some p := by
    have := congrArg (·[a.end_ - 1]?) h.slots
    simpa [List.getElem?_take, hend] using this
  have htake : a.popped.contents.take (a.end_ - 1) = ps := by
    have := congrArg (List.take (a.end_ - 1)) h.slots
    rw [List.take_take, Nat.min_eq_left (by omega)] at this
    show (a.contents.set (a.end_ - 1) none).take (a.end_ - 1) = ps
    rw [List.take_set_of_le (le_refl _), this]
    simp [hend]
  have hlen : a.popped.contents.length = a.max := by simp [popped, h.allocated]
  have hend' : a.popped.end_ = ps.length := by simp [popped, hend]
  rcases a.pop_cases r with ⟨h0, -⟩ | ⟨-, hpop⟩ | ⟨-, hpop⟩
  · omega
  · rw [hpop, hlast]
    refine ⟨rfl, hend', ?_, hlen, htake, h.rate⟩
    show a.end_ - 1 < a.max
    omega
  · rw [hpop, hlast]
    obtain ⟨c, hc, hkeep, hres⟩ := resize_granted (a := a.popped) (n := a.end_) hr (by omega)
    rw [hres]
    refine ⟨rfl, hend', ?_, hc, ?_, h.rate⟩
    · show a.end_ - 1 < a.end_
      omega
    · show c.take (a.end_ - 1) = ps
      rw [hkeep (a.end_ - 1) (by omega) (by omega)]
      exact htake

end Slots

theorem Holds.push (h : a.Holds xs) (hr : r.grants = true) (x : α) :
    (a.push r (some x)).1 = 0 ∧ (a.push r (some x)).2.Holds (xs ++ [x]) := by
  have hpush := (holds_iff.1 h).push hr (some x)
  rw [holds_iff, List.map_append]
  exact hpush

theorem Holds.pop (h : a.Holds (xs ++ [x])) (hr : r.grants = true) :
    (a.pop r).1 = some x ∧ (a.pop r).2.Holds xs := by
  have hslots := holds_iff.1 h
  rw [List.map_append] at hslots
  rw [holds_iff]
  exact hslots.pop hr

end Holds

end DArray

end HttpServer

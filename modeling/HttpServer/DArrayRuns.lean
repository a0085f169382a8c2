import HttpServer.Hashmap
import HttpServer.Lib.CInt
import HttpServer.Lib.CMemory
import HttpServer.Lib.Runs

/-!
# Runs of calls on a growable array

The accesses that the functions of `darray.c` and `darray.h` make to the block `contents` points to
are listed beside the functions, each with the size of the block at that moment.  A run of pushes
and pops whose allocations succeed is a run of a stack (`run_stack`), and none of its accesses
leaves the block.  The sizes are those that the code computes with an `int` and a `size_t` as long as
they fit.
-/

namespace HttpServer

open Lib

/-- A call of `DArray_push` or `DArray_pop`, with what `realloc` does if the call gets to it. -/
inductive StackCall (α : Type) where
  | push (r : Realloc α) (el : Option α)
  | pop (r : Realloc α)

/-- The allocations of the call succeed. -/
def StackCall.Granted {α : Type} : StackCall α → Prop
  | push r _ | pop r => r.grants = true

namespace DArray

variable {α : Type}

/-! ### What the functions do to the block -/

/-- `contents[i]`, read or written. -/
def slotAccess (a : DArray α) (i : ℕ) : Access :=
  ⟨i * PTR_SIZE, PTR_SIZE, a.contents.length * PTR_SIZE⟩

/-- The accesses of `DArray_expand`: the `memset`, when the block was resized. -/
def expandAccesses (r : Realloc α) (a : DArray α) : List Access :=
  let oldMax := a.max
  let (rc, a) := a.resize r (a.max + a.expandRate)
  if rc = 0 then [⟨oldMax * PTR_SIZE, a.expandRate + 1, a.contents.length * PTR_SIZE⟩] else []

def pushAccesses (r : Realloc α) (a : DArray α) (el : Option α) : List Access :=
  let stored := a.slotAccess a.end_
  let a := { a with contents := a.contents.set a.end_ el, end_ := a.end_ + 1 }
  stored :: if a.end_ ≥ a.max then a.expandAccesses r else []

/-- The accesses of `DArray_pop`: `DArray_remove` reads the slot and writes it. -/
def popAccesses (a : DArray α) : List Access :=
  if a.end_ ≥ 1 then [a.slotAccess (a.end_ - 1), a.slotAccess (a.end_ - 1)] else []

/-- The access of `DArray_get` and of `DArray_set`, which make the same check. -/
def checkedAccess (a : DArray α) (i : ℕ) : List Access :=
  if i < a.max then [a.slotAccess i] else []

/-- The size that `DArray_expand` asks for: an `int` and a `size_t` are added as `size_t`. -/
def expandSize (max : ℤ) (expandRate : ℕ) : ℕ := toSize (toSize max + expandRate)

/-- The size that `DArray_contract` asks for: the comparison and the sum are in `int`. -/
def contractSize (end_ : ℤ) (expandRate : ℕ) : ℕ :=
  toSize ((if end_ < toInt expandRate then toInt expandRate else end_) + 1)

/-- The sizes that the code would ask for now, and stores in its `int`, are those of the model. -/
structure SizesFit (a : DArray α) : Prop where
  expand : expandSize a.max a.expandRate = a.max + a.expandRate
  expanded : toInt (expandSize a.max a.expandRate) = a.max + a.expandRate
  contract : contractSize a.end_ a.expandRate =
    (if a.end_ < a.expandRate then a.expandRate else a.end_) + 1
  contracted : toInt (contractSize a.end_ a.expandRate) =
    ((if a.end_ < a.expandRate then a.expandRate else a.end_) + 1 : ℕ)

/-- One call: the element that a pop returns, and the array after the call. -/
def stackCall (a : DArray α) : StackCall α → Option α × DArray α
  | .push r el => (none, (a.push r el).2)
  | .pop r => a.pop r

def stackAccesses (a : DArray α) : StackCall α → List Access
  | .push r el => a.pushAccesses r el
  | .pop _ => a.popAccesses

end DArray

/-- A call on a stack of pointers, its top at the end of the list; a pop of the empty stack returns
NULL. -/
def stackStep {α : Type} (ps : List (Option α)) : StackCall α → Option α × List (Option α)
  | .push _ el => (none, ps ++ [el])
  | .pop _ => (ps.getLast?.join, ps.dropLast)

namespace DArray

variable {α : Type} {a : DArray α} {ps : List (Option α)} {r : Realloc α} {i : ℕ}

/-! ### One call -/

theorem slotAccess_inside : (a.slotAccess i).Inside ↔ i < a.contents.length := by
  simp only [Access.Inside, slotAccess, PTR_SIZE]
  omega

/-- The `memset` of an expansion counts bytes where it should count slots, so it stays inside. -/
theorem expandAccesses_inside (hrate : 0 < a.expandRate) : ∀ t ∈ a.expandAccesses r, t.Inside := by
  intro t ht
  unfold expandAccesses at ht
  by_cases hr : r.grants = true
  · obtain ⟨c, hc, -, hres⟩ := resize_granted (a := a) (n := a.max + a.expandRate) hr (by omega)
    simp only [hres, if_true, List.mem_singleton] at ht
    subst ht
    simp only [Access.Inside, hc, PTR_SIZE]
    omega
  · simp [resize, hr] at ht

theorem pushAccesses_inside (hrate : 0 < a.expandRate) (hlen : a.end_ < a.contents.length)
    (p : Option α) : ∀ t ∈ a.pushAccesses r p, t.Inside := by
  intro t ht
  unfold pushAccesses at ht
  rcases List.mem_cons.1 ht with rfl | ht
  · exact slotAccess_inside.2 hlen
  · split at ht
    · exact expandAccesses_inside (a := a.pushed p) hrate t ht
    · cases ht

theorem popAccesses_inside (hlen : a.end_ ≤ a.contents.length) : ∀ t ∈ a.popAccesses, t.Inside := by
  intro t ht
  unfold popAccesses at ht
  split at ht
  · have hslot : t = a.slotAccess (a.end_ - 1) := by simpa using ht
    rw [hslot, slotAccess_inside]
    omega
  · cases ht

theorem checkedAccess_inside (hlen : a.max ≤ a.contents.length) :
    ∀ t ∈ a.checkedAccess i, t.Inside := by
  intro t ht
  unfold checkedAccess at ht
  split at ht
  · rw [List.mem_singleton.1 ht, slotAccess_inside]
    omega
  · cases ht

theorem Slots.stackCall (h : a.Slots ps) (c : StackCall α) (hc : c.Granted) :
    (a.stackCall c).1 = (stackStep ps c).1 ∧ (a.stackCall c).2.Slots (stackStep ps c).2 := by
  cases c with
  | push r p => exact ⟨rfl, (h.push hc p).2⟩
  | pop r =>
    rcases List.eq_nil_or_concat' ps with rfl | ⟨qs, q, rfl⟩
    · have hpop : a.pop r = (none, a) := pop_of_empty (by simpa using h.end_eq)
      simp only [DArray.stackCall, hpop]
      exact ⟨rfl, h⟩
    · obtain ⟨htop, hrest⟩ := h.pop (r := r) hc
      simp only [DArray.stackCall, stackStep, List.getLast?_concat, List.dropLast_concat]
      exact ⟨htop, hrest⟩

theorem Slots.stackAccesses (h : a.Slots ps) (c : StackCall α) : ∀ t ∈ a.stackAccesses c, t.Inside := by
  have hlt := h.end_lt
  have hlen := h.allocated
  cases c with
  | push r p => exact pushAccesses_inside h.rate (by omega) p
  | pop r => exact popAccesses_inside (by omega)

theorem sizesFit (hlt : a.end_ < a.max) (hmax : a.max < 2 ^ 31 - 301)
    (hrate : a.expandRate = DEFAULT_EXPAND_RATE) : a.SizesFit := by
  have h300 : a.expandRate = 300 := hrate
  have hexpand : expandSize a.max a.expandRate = a.max + a.expandRate := by
    unfold expandSize
    rw [toSize_of_fits (by omega), ← Nat.cast_add, toSize_of_fits (by omega)]
  have hcontract : contractSize a.end_ a.expandRate =
      (if a.end_ < a.expandRate then a.expandRate else a.end_) + 1 := by
    unfold contractSize
    rw [toInt_of_fits (by omega)]
    norm_cast
    exact toSize_of_fits (by split <;> omega)
  refine ⟨hexpand, ?_, hcontract, ?_⟩
  · rw [hexpand]
    exact_mod_cast toInt_of_fits (n := a.max + a.expandRate) (by omega)
  · rw [hcontract]
    exact toInt_of_fits (by split <;> omega)

@[simp] theorem resize_expandRate (n : ℕ) : (a.resize r n).2.expandRate = a.expandRate := by
  simp only [resize]
  split <;> rfl

theorem expand_expandRate : (a.expand r).2.expandRate = a.expandRate := by
  unfold expand
  simp only
  split <;> simp

theorem stackCall_expandRate (c : StackCall α) : (a.stackCall c).2.expandRate = a.expandRate := by
  cases c with
  | push r p =>
    simp only [DArray.stackCall]
    rcases a.push_cases r p with ⟨-, hpush⟩ | ⟨-, hpush⟩
    · rw [hpush]
      rfl
    · rw [hpush]
      exact expand_expandRate
  | pop r =>
    simp only [DArray.stackCall]
    rcases a.pop_cases r with ⟨-, hpop⟩ | ⟨-, hpop⟩ | ⟨-, hpop⟩
    · rw [hpop]
    · rw [hpop]
      rfl
    · rw [hpop]
      exact resize_expandRate a.end_

/-! ### Runs -/

theorem slots_runAll {n m : ℕ} (hm : 0 < m) (calls : List (StackCall α))
    (hc : ∀ c ∈ calls, c.Granted) :
    (runAll stackCall (fresh n m) calls).1 = (runAll stackStep [] calls).1 ∧
      (runAll stackCall (fresh n m) calls).2.Slots (runAll stackStep [] calls).2 ∧
      (runAll stackCall (fresh n m : DArray α) calls).2.expandRate = DEFAULT_EXPAND_RATE := by
  refine runAll_simulates (R := fun (a : DArray α) ps =>
    a.Slots ps ∧ a.expandRate = DEFAULT_EXPAND_RATE) ?_ calls hc ⟨slots_fresh hm, rfl⟩
  intro a ps c ⟨h, hrate⟩ hc
  obtain ⟨hout, hnext⟩ := h.stackCall c hc
  exact ⟨hout, hnext, by rw [stackCall_expandRate, hrate]⟩

/-- Every run of pushes and pops is a run of a stack: each call returns what it returns on the
stack, the first `end` slots are the stack, `max` slots are allocated and there is room for one more.
The next call stays inside the block, and does nothing if it is a pop of the empty array. -/
theorem run_stack {n m : ℕ} (hm : 0 < m) (calls : List (StackCall α))
    (hc : ∀ c ∈ calls, c.Granted) :
    ∃ a₀, DArray.create n m = some a₀ ∧
      (runAll stackCall a₀ calls).1 = (runAll stackStep [] calls).1 ∧
      ∀ a : DArray α, a = (runAll stackCall a₀ calls).2 →
        a.contents.take a.end_ = (runAll stackStep [] calls).2 ∧
        a.end_ = (runAll stackStep [] calls).2.length ∧
        a.end_ < a.max ∧ a.max = a.contents.length ∧
        (∀ r, a.end_ = 0 → a.pop r = (none, a)) ∧
        (∀ c : StackCall α, ∀ t ∈ a.stackAccesses c, t.Inside) ∧
        (a.max < 2 ^ 31 - 301 → a.SizesFit) := by
  obtain ⟨hout, h, hrate⟩ := slots_runAll (n := n) hm calls hc
  refine ⟨fresh n m, if_pos hm, hout, ?_⟩
  rintro a rfl
  exact ⟨h.slots, h.end_eq, h.end_lt, h.allocated.symm, fun r h0 => pop_of_empty h0,
    h.stackAccesses, fun hmax => sizesFit h.end_lt hmax hrate⟩

theorem run_stack_push_pop_pop : ∃ a₀, DArray.create 8 1 = some a₀ ∧
    (runAll stackCall a₀ [.push .calm (some 5), .pop .calm, .pop .calm]).1 =
      [none, some 5, none] := by
  obtain ⟨a₀, ha₀, hout, -⟩ := run_stack (n := 8) (m := 1) (by decide)
    [.push .calm (some 5), .pop .calm, .pop .calm] (by simp [StackCall.Granted, Realloc.calm])
  exact ⟨a₀, ha₀, hout⟩

end DArray

end HttpServer

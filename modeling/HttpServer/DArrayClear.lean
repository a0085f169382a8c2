import HttpServer.DArrayRuns

/-!
# What `DArray_clear` frees

`DArray_clear` frees every pointer below `max`, so it frees the elements and nothing else as long as
the slots behind `end` hold NULL (`Slots.clear_eq_iff`).  `DArray_create` and `DArray_pop` see to
that, and `DArray_expand` does not: its `memset` clears 301 bytes, where the slots it adds have 2400.
In a run of pushes and pops the slots stay NULL exactly when every expansion is given memory that is
NULL behind these bytes (`frees_stored_iff`).
-/

namespace HttpServer

open Lib

/-- The memory that `realloc` adds behind `max` slots is NULL where 301 bytes end: in the slot that they
clear in part, and in the slots behind it. -/
def Realloc.AddsNull {α : Type} (r : Realloc α) (max : ℕ) : Prop :=
  r.clearLow 5 (r.stale (max + 37)) = none ∧ ∀ i, max + 37 < i → i < max + 300 → r.stale i = none

/-- `realloc` that grants the request and adds memory full of the pointer `x`. -/
def Realloc.dirty {α : Type} (x : α) : Realloc α := ⟨true, fun _ => some x, fun _ _ => none⟩

namespace DArray

variable {α : Type}

def clearAccesses (a : DArray α) : List Access :=
  if a.elementSize > 0 then (List.range a.max).map a.slotAccess else []

/-- The slots behind the elements hold NULL. -/
def NullBehind (a : DArray α) : Prop :=
  ∀ i, a.end_ ≤ i → i < a.max → a.contents[i]? = some none

/-- `max` is an `int`, the slots behind the elements hold NULL, and `DArray_clear` frees the elements
that are stored, the pointers of `ps`, in their order and nothing else; without an element size it
frees nothing. -/
structure ClearsStored (a : DArray α) (ps : List (Option α)) : Prop where
  max_lt : a.max < 2 ^ 31
  nullBehind : a.NullBehind
  freed : a.clear = if a.elementSize > 0 then ps.reduceOption else []

/-- If the call is a push that leaves no room, `max` stays an `int` and the memory added is NULL where
it is not cleared. -/
def Clean (a : DArray α) : StackCall α → Prop
  | .push r _ => a.max ≤ a.end_ + 1 → a.max + a.expandRate < 2 ^ 31 ∧ r.AddsNull a.max
  | .pop _ => True

variable {a : DArray α} {ps : List (Option α)} {p : Option α} {r : Realloc α} {n m i : ℕ}

/-! ### The loop of `DArray_clear` -/

theorem Slots.clearAccesses (h : a.Slots ps) : ∀ t ∈ a.clearAccesses, t.Inside := by
  intro t ht
  unfold DArray.clearAccesses at ht
  split at ht
  · obtain ⟨i, hi, rfl⟩ := List.mem_map.1 ht
    rw [slotAccess_inside, h.allocated]
    exact List.mem_range.1 hi
  · cases ht

theorem clear_eq (hsize : 0 < a.elementSize) (hmax : a.contents.length = a.max) :
    a.clear = a.contents.reduceOption := by
  have hslots : (List.range a.max).map (a.contents[·]?) = a.contents.map some := by
    apply List.ext_getElem?
    intro i
    by_cases hi : i < a.max
    · simp [hi, hmax]
    · simp [hi, hmax]
  have hfree : a.clear = ((List.range a.max).map (a.contents[·]?)).filterMap Option.join := by
    rw [List.filterMap_map]
    exact if_pos hsize
  rw [hfree, hslots, List.filterMap_map]
  rfl

/-- What is freed is what is stored exactly when the slots behind hold NULL. -/
theorem Slots.clear_eq_iff (h : a.Slots ps) (hsize : 0 < a.elementSize) :
    a.clear = ps.reduceOption ↔ a.NullBehind := by
  have hsplit : a.contents.reduceOption =
      ps.reduceOption ++ (a.contents.drop a.end_).reduceOption := by
    rw [← List.reduceOption_append, ← h.slots, List.take_append_drop]
  rw [clear_eq hsize h.allocated, hsplit, List.append_right_eq_self, List.reduceOption,
    List.filterMap_eq_nil_iff]
  constructor
  · intro hnull i hend hmax
    have hi : i < a.contents.length := h.allocated ▸ hmax
    have hmem : a.contents[i] ∈ a.contents.drop a.end_ := by
      rw [List.mem_drop_iff_getElem]
      exact ⟨i - a.end_, by omega, by congr 1; omega⟩
    rw [List.getElem?_eq_getElem hi]
    exact congrArg some (hnull _ hmem)
  · intro hnull q hq
    obtain ⟨j, hj, rfl⟩ := List.mem_drop_iff_getElem.1 hq
    have hlt : a.end_ + j < a.contents.length := by omega
    have hslot := hnull (a.end_ + j) (by omega) (h.allocated ▸ hlt)
    rw [List.getElem?_eq_getElem hlt] at hslot
    exact Option.some.inj hslot

theorem Slots.clearsStored_iff (h : a.Slots ps) :
    a.ClearsStored ps ↔ a.max < 2 ^ 31 ∧ a.NullBehind := by
  constructor
  · exact fun hclears => ⟨hclears.max_lt, hclears.nullBehind⟩
  · rintro ⟨hmax, hnull⟩
    refine ⟨hmax, hnull, ?_⟩
    split
    · rename_i hsize
      exact (h.clear_eq_iff hsize).2 hnull
    · rename_i hsize
      exact if_neg hsize

/-! ### One call -/

theorem nullBehind_fresh : (fresh n m : DArray α).NullBehind := by
  intro i _ hi
  exact List.getElem?_replicate_of_lt hi

/-- The slots that an expansion adds: 37 are cleared whole, one in part, and 262 not at all. -/
theorem expand_slot (hmax : a.contents.length = a.max)
    (hrate : a.expandRate = DEFAULT_EXPAND_RATE) (hr : r.grants = true) (hi : a.max ≤ i)
    (hlt : i < a.max + 300) : (a.expand r).2.contents[i]? = some
      (if i < a.max + 37 then none
        else if i = a.max + 37 then r.clearLow 5 (r.stale i) else r.stale i) := by
  have hold : a.contents.take (a.max + 300) = a.contents := List.take_of_length_le (by omega)
  have hadded : (a.contents ++ (List.range' a.max 300).map r.stale)[i]? = some (r.stale i) := by
    rw [List.getElem?_append_right (by omega), List.getElem?_map, List.getElem?_range' (by omega)]
    simp only [hmax, Option.map_some, Option.some.injEq]
    congr 1
    omega
  have hexp : (a.expand r).2.contents =
      clearBytes r (a.contents ++ (List.range' a.max 300).map r.stale) a.max 301 := by
    simp [expand, resize, hrate, hr, hmax, hold]
  rw [hexp, clearBytes, List.getElem?_mapIdx, hadded, Option.map_some]
  simp only [show 301 / PTR_SIZE = 37 from rfl, show 301 % PTR_SIZE = 5 from rfl, hi, true_and,
    ne_eq, OfNat.ofNat_ne_zero, not_false_eq_true, and_true]

theorem nullBehind_expand (hfull : a.end_ = a.max) (hmax : a.contents.length = a.max)
    (hrate : a.expandRate = DEFAULT_EXPAND_RATE) (hr : r.grants = true) :
    (a.expand r).2.NullBehind ↔ r.AddsNull a.max := by
  have hslot : ∀ i, a.max ≤ i → i < a.max + 300 → ((a.expand r).2.contents[i]? = some none ↔
      (if i < a.max + 37 then none
        else if i = a.max + 37 then r.clearLow 5 (r.stale i) else r.stale i) = none) := by
    intro i hi hlt
    rw [expand_slot hmax hrate hr hi hlt, Option.some.injEq]
  have hrange : (a.expand r).2.end_ = a.max ∧ (a.expand r).2.max = a.max + 300 := by
    simp [expand, resize, hrate, hr, hfull]
  constructor
  · intro hnull
    have hnone : ∀ i, a.max ≤ i → i < a.max + 300 → (a.expand r).2.contents[i]? = some none :=
      fun i hi hlt => hnull i (by omega) (by omega)
    constructor
    · have h37 := (hslot (a.max + 37) (by omega) (by omega)).1 (hnone _ (by omega) (by omega))
      simpa using h37
    · intro i hi hlt
      have hstale := (hslot i (by omega) hlt).1 (hnone i (by omega) hlt)
      rwa [if_neg (by omega), if_neg (by omega)] at hstale
  · rintro ⟨hpart, hrest⟩ i hi hlt
    rw [hrange.1] at hi
    rw [hrange.2] at hlt
    apply (hslot i hi hlt).2
    split
    · rfl
    · split
      · rename_i h37
        rw [h37]
        exact hpart
      · exact hrest i (by omega) hlt

/-- A push keeps NULL behind the elements, and `max` an `int`, exactly when it is clean. -/
theorem Slots.clean_push_iff (h : a.Slots ps) (hrate : a.expandRate = DEFAULT_EXPAND_RATE)
    (hr : r.grants = true) (hint : a.max < 2 ^ 31) (hnull : a.NullBehind) (p : Option α) :
    (a.push r p).2.max < 2 ^ 31 ∧ (a.push r p).2.NullBehind ↔ a.Clean (.push r p) := by
  have hlt := h.end_lt
  rcases a.push_cases r p with ⟨hroom, hpush⟩ | ⟨hfull, hpush⟩
  · rw [hpush]
    constructor
    · exact fun _ hfull => absurd hfull (by omega)
    · refine fun _ => ⟨hint, ?_⟩
      intro i hi hmax
      have hne : a.end_ ≠ i := by
        intro he
        have : a.end_ + 1 ≤ i := hi
        omega
      show (a.contents.set a.end_ p)[i]? = _
      rw [List.getElem?_set_ne hne]
      exact hnull i (le_trans (Nat.le_succ _) hi) hmax
  · have hend : (a.pushed p).end_ = (a.pushed p).max := by
      show a.end_ + 1 = a.max
      omega
    have hlen : (a.pushed p).contents.length = (a.pushed p).max := by simp [pushed, h.allocated]
    have hmax : ((a.pushed p).expand r).2.max = a.max + a.expandRate := by
      simp [expand, resize, pushed, hr, hrate]
    rw [hpush, hmax, nullBehind_expand hend hlen hrate hr]
    exact ⟨fun hkept _ => hkept, fun hclean => hclean hfull⟩

/-- A pop clears the slot it leaves, and a contraction keeps only this one. -/
theorem Slots.nullBehind_pop (h : a.Slots ps) (hr : r.grants = true) (hnull : a.NullBehind) :
    (a.pop r).2.max ≤ a.max ∧ (a.pop r).2.NullBehind := by
  have hlt := h.end_lt
  have hslot : 0 < a.end_ → ∀ i, a.end_ - 1 ≤ i → i < a.max →
      a.popped.contents[i]? = some none := by
    intro hpos i hi hmax
    show (a.contents.set (a.end_ - 1) none)[i]? = _
    by_cases he : i = a.end_ - 1
    · rw [he]
      exact List.getElem?_set_self (by rw [h.allocated]; omega)
    · rw [List.getElem?_set_ne (Ne.symm he)]
      exact hnull i (by omega) hmax
  rcases a.pop_cases r with ⟨-, hpop⟩ | ⟨hpos, hpop⟩ | ⟨hbig, hpop⟩
  · rw [hpop]
    exact ⟨le_refl _, hnull⟩
  · rw [hpop]
    exact ⟨le_refl _, hslot hpos⟩
  · rw [hpop]
    obtain ⟨kept, -, hkeep, hres⟩ := resize_granted (a := a.popped) (n := a.end_) hr (by omega)
    rw [hres]
    refine ⟨hlt.le, ?_⟩
    intro i hi hmax
    have hi' : a.end_ - 1 ≤ i := hi
    have hmax' : i < a.end_ := hmax
    have hlen : a.end_ ≤ a.popped.contents.length := by
      simp only [popped, List.length_set, h.allocated]
      omega
    show kept[i]? = some none
    rw [getElem?_of_take_eq (hkeep a.end_ (le_refl _) hlen) hmax']
    exact hslot (by omega) i hi' (by omega)

/-- Whatever the memory added, a push is clean exactly when it leaves room. -/
theorem clean_of_any_iff [Nonempty α] (p : Option α) :
    (∀ r : Realloc α, r.grants = true → a.Clean (.push r p)) ↔ a.end_ + 1 < a.max := by
  constructor
  · intro h
    obtain ⟨x⟩ := ‹Nonempty α›
    by_contra hfull
    obtain ⟨-, -, hrest⟩ := h (.dirty x) rfl (not_lt.1 hfull)
    cases hrest (a.max + 38) (by omega) (by omega)
  · exact fun hroom r _ hfull => absurd hfull (not_le.2 hroom)

/-! ### Runs -/

theorem Slots.clean_iff (h : a.Slots ps) (hrate : a.expandRate = DEFAULT_EXPAND_RATE)
    (c : StackCall α) (hc : c.Granted) (hint : a.max < 2 ^ 31) (hnull : a.NullBehind) :
    (a.stackCall c).2.max < 2 ^ 31 ∧ (a.stackCall c).2.NullBehind ↔ a.Clean c := by
  cases c with
  | push r p => exact h.clean_push_iff hrate hc hint hnull p
  | pop r =>
    obtain ⟨hmax, hnull'⟩ := h.nullBehind_pop hc hnull
    exact ⟨fun _ => trivial, fun _ => ⟨lt_of_le_of_lt hmax hint, hnull'⟩⟩

theorem run_clean_iff (hm : 0 < m) (hint : m < 2 ^ 31) (calls : List (StackCall α))
    (hc : ∀ c ∈ calls, c.Granted) :
    (∀ pre, pre <+: calls → (runAll stackCall (fresh n m : DArray α) pre).2.max < 2 ^ 31 ∧
      (runAll stackCall (fresh n m : DArray α) pre).2.NullBehind) ↔
      ∀ pre c, pre ++ [c] <+: calls → (runAll stackCall (fresh n m) pre).2.Clean c := by
  refine runAll_always_iff (P := fun a : DArray α => a.max < 2 ^ 31 ∧ a.NullBehind)
    (I := fun a : DArray α => (∃ ps, a.Slots ps) ∧ a.expandRate = DEFAULT_EXPAND_RATE)
    ?_ ?_ ⟨⟨[], slots_fresh hm⟩, rfl⟩ ⟨hint, nullBehind_fresh⟩ calls hc
  · rintro a c ⟨⟨ps, h⟩, hrate⟩ hgranted
    exact ⟨⟨_, (h.stackCall c hgranted).2⟩, (stackCall_expandRate c).trans hrate⟩
  · rintro a c ⟨⟨ps, h⟩, hrate⟩ hgranted ⟨hmax, hnull⟩
    exact h.clean_iff hrate c hgranted hmax hnull

/-- In every run of pushes and pops on an array that was created: all along the run `max` is an `int`,
the slots behind the elements hold NULL, and `DArray_clear` would free what is stored and nothing
else, exactly when `initial_max` is an `int` and each push that leaves no room keeps `max` an `int`
and is given memory that is NULL where it is not cleared. -/
theorem frees_stored_iff {a₀ : DArray α} (h₀ : DArray.create n m = some a₀)
    (calls : List (StackCall α)) (hc : ∀ c ∈ calls, c.Granted) :
    (∀ pre, pre <+: calls →
      (runAll stackCall a₀ pre).2.ClearsStored (runAll stackStep [] pre).2) ↔
      m < 2 ^ 31 ∧ ∀ pre c, pre ++ [c] <+: calls → (runAll stackCall a₀ pre).2.Clean c := by
  obtain ⟨hm, rfl⟩ := create_eq_some.1 h₀
  have hclears : ∀ pre, pre <+: calls →
      ((runAll stackCall (fresh n m) pre).2.ClearsStored (runAll stackStep [] pre).2 ↔
        (runAll stackCall (fresh n m) pre).2.max < 2 ^ 31 ∧
          (runAll stackCall (fresh n m) pre).2.NullBehind) := by
    intro pre hpre
    obtain ⟨-, hslots, -⟩ := slots_runAll (n := n) hm pre fun c hmem => hc c (hpre.subset hmem)
    exact hslots.clearsStored_iff
  rw [forall₂_congr hclears]
  constructor
  · intro h
    have hint : m < 2 ^ 31 := (h [] List.nil_prefix).1
    exact ⟨hint, (run_clean_iff hm hint calls hc).1 h⟩
  · rintro ⟨hint, h⟩
    exact (run_clean_iff hm hint calls hc).2 h

theorem frees_stored_push : (runAll stackCall (fresh 8 1) [.push .calm (some 5)]).2.ClearsStored
    [some 5] := by
  have hcreate : DArray.create 8 1 = some (fresh 8 1 : DArray ℕ) := rfl
  refine (frees_stored_iff hcreate [.push .calm (some 5)] ?_).2 ⟨by decide, ?_⟩ _
    (List.prefix_refl _)
  · simp [StackCall.Granted, Realloc.calm]
  · intro pre c hpre
    have hlen := hpre.length_le
    obtain rfl : pre = [] := by
      rw [← List.length_eq_zero_iff]
      simpa using hlen
    obtain rfl : c = .push .calm (some 5) := by
      simpa using hpre.subset (show c ∈ [] ++ [c] by simp)
    exact fun _ => ⟨by decide, rfl, fun _ _ _ => rfl⟩

/-- **A pointer that was never stored is freed**: the first push on an array of one slot expands it into
memory that holds the pointer 9, and `DArray_clear` frees the 9 with the 5. -/
theorem not_frees_stored :
    let calls : List (StackCall ℕ) := [.push (.dirty 9) (some 5)]
    let a := (runAll stackCall (fresh 8 1) calls).2
    (∀ c ∈ calls, c.Granted) ∧ (runAll stackStep [] calls).2 = [some 5] ∧
      ¬ a.ClearsStored [some 5] ∧ a.contents[39]? = some (some 9) ∧ 9 ∈ a.clear := by
  intro calls a
  have hgranted : ∀ c ∈ calls, c.Granted := by simp [calls, StackCall.Granted, Realloc.dirty]
  have ha : a = (((fresh 8 1).pushed (some 5)).expand (.dirty 9)).2 :=
    congrArg Prod.snd (push_of_full (by decide))
  have hslot : a.contents[39]? = some (some 9) := by
    rw [ha]
    exact expand_slot rfl rfl rfl (by decide) (by decide)
  have hnull : ¬ a.NullBehind := by
    intro h
    rw [h 39 (by decide) (by decide)] at hslot
    cases hslot
  have hfreed : 9 ∈ a.clear := by
    refine List.mem_filterMap.2 ⟨39, List.mem_range.2 (by decide), ?_⟩
    rw [hslot]
    rfl
  exact ⟨hgranted, rfl, fun h => hnull h.nullBehind, hslot, hfreed⟩

end DArray

end HttpServer

import HttpServer.DArrayRuns

/-!
# Growable arrays when memory runs out

`DArray_resize` stores the new `max` before `realloc` has granted it, so an expansion that fails
leaves an array that claims slots it does not have.  In the runs that never meet such an expansion
every access stays in the block (`growth_safe`); one failure is enough for the next push to leave it
(`failed_push_not_atomic`).

`DArray_set` behind the elements moves `end` to the index of the new element and not past it, so the
element is not counted and the next push overwrites it; `set_visible_iff` says when it is kept.
-/

namespace HttpServer

open Lib

/-- `realloc` that refuses. -/
def Realloc.denied {α : Type} : Realloc α := { Realloc.calm with grants := false }

inductive DArrayCall (α : Type) where
  | stack (c : StackCall α)
  | set (i : ℕ) (el : Option α)
  | get (i : ℕ)
  | expand (r : Realloc α)

namespace DArray

variable {α : Type}

def after (a : DArray α) : DArrayCall α → DArray α
  | .stack c => (a.stackCall c).2
  | .set i el => a.set i el
  | .get _ => a
  | .expand r => (a.expand r).2

def accesses (a : DArray α) : DArrayCall α → List Access
  | .stack c => a.stackAccesses c
  | .set i _ | .get i => a.checkedAccess i
  | .expand r => a.expandAccesses r

/-- What `DArray_push` and `DArray_expand` return. -/
def code (a : DArray α) : DArrayCall α → ℤ
  | .stack (.push r el) => (a.push r el).1
  | .expand r => (a.expand r).1
  | _ => 0

/-- The slots of the array after a call that failed: those before it, and the element of a push. -/
def slotsAfter (a : DArray α) : DArrayCall α → List (Option α)
  | .stack (.push _ el) => a.contents.set a.end_ el
  | _ => a.contents

/-- The call stores nothing outside the block. -/
def StoresInside (a : DArray α) : DArrayCall α → Prop
  | .stack (.push _ _) => a.end_ < a.contents.length
  | _ => True

/-- A call that fails leaves `max` the number of slots, and the slots as they were. -/
def FailsAtomically (a : DArray α) (c : DArrayCall α) : Prop :=
  a.code c = -1 → (a.after c).max = (a.after c).contents.length ∧
    (a.after c).contents = a.slotsAfter c ∧ a.StoresInside c

/-- An expansion now would get its memory, or the block has the size that it asks for already; and
that size is an `int`. -/
def Covered (r : Realloc α) (a : DArray α) : Prop :=
  a.max + a.expandRate < 2 ^ 31 ∧
    (r.grants = true ∨ a.contents.length = a.max + a.expandRate)

/-- The expansion of the call, if it makes one, is covered. -/
def CallCovered (a : DArray α) : DArrayCall α → Prop
  | .stack (.push r _) => a.max ≤ a.end_ + 1 → a.Covered r
  | .expand r => a.Covered r
  | _ => True

variable {a : DArray α} {r : Realloc α} {n m : ℕ}

/-! ### What every run keeps -/

/-- There is an index for the next push, also when allocations fail. -/
structure Bounded (a : DArray α) : Prop where
  end_lt : a.end_ < a.max
  rate : 0 < a.expandRate

theorem bounded_fresh (hm : 0 < m) : (fresh n m : DArray α).Bounded := by
  constructor <;> simp [fresh, hm]

theorem bounded_expand (hend : a.end_ ≤ a.max) (hrate : 0 < a.expandRate) :
    (a.expand r).2.Bounded := by
  have hlt : a.end_ < a.max + a.expandRate := by omega
  rcases expand_cases r hrate with ⟨c, -, -, hexp⟩ | ⟨-, hexp⟩
  · rw [hexp]
    exact ⟨hlt, hrate⟩
  · rw [hexp]
    exact ⟨hlt, hrate⟩

theorem Bounded.after (h : a.Bounded) (c : DArrayCall α) : (a.after c).Bounded := by
  have hlt := h.end_lt
  cases c with
  | stack c =>
    cases c with
    | push r p =>
      simp only [DArray.after, stackCall]
      rcases a.push_cases r p with ⟨hroom, hpush⟩ | ⟨-, hpush⟩
      · rw [hpush]
        exact ⟨hroom, h.rate⟩
      · rw [hpush]
        exact bounded_expand (a := a.pushed p) (by show a.end_ + 1 ≤ a.max; omega) h.rate
    | pop r =>
      simp only [DArray.after, stackCall]
      rcases a.pop_cases r with ⟨-, hpop⟩ | ⟨-, hpop⟩ | ⟨hbig, hpop⟩
      · rw [hpop]
        exact h
      · rw [hpop]
        exact ⟨by show a.end_ - 1 < a.max; omega, h.rate⟩
      · rw [hpop]
        have hres : (a.popped.resize r a.end_).2.end_ = a.end_ - 1 ∧
            (a.popped.resize r a.end_).2.max = a.end_ := by
          simp only [resize]
          split <;> exact ⟨rfl, rfl⟩
        exact ⟨by rw [hres.1, hres.2]; omega, by rw [resize_expandRate]; exact h.rate⟩
  | set i p =>
    simp only [DArray.after, DArray.set]
    split
    · rename_i hi
      refine ⟨?_, h.rate⟩
      show (if i > a.end_ then i else a.end_) < a.max
      split <;> omega
    · exact h
  | get i => exact h
  | expand r => exact bounded_expand hlt.le h.rate

/-! ### Runs without a failed expansion -/

/-- The next push has its slot, and every index below `max` has one. -/
structure Roomy (a : DArray α) : Prop extends Bounded a where
  max_le : a.max ≤ a.contents.length

theorem roomy_fresh (hm : 0 < m) : (fresh n m : DArray α).Roomy :=
  ⟨bounded_fresh hm, by simp [fresh]⟩

theorem expand_max_le (hrate : 0 < a.expandRate) (hc : a.Covered r) :
    (a.expand r).2.max ≤ (a.expand r).2.contents.length := by
  rcases expand_cases r hrate with ⟨c, hlen, -, hexp⟩ | ⟨hr, hexp⟩
  · rw [hexp]
    exact hlen.ge
  · rw [hexp]
    exact (hc.2.resolve_left (by simp [hr])).ge

theorem Covered.pushed (h : a.Covered r) (p : Option α) : (a.pushed p).Covered r := by
  have hlen : (a.pushed p).contents.length = a.contents.length := by simp [DArray.pushed]
  refine ⟨h.1, ?_⟩
  rw [hlen]
  exact h.2

theorem pop_max_le (hend : a.end_ < a.max) (hmax : a.max ≤ a.contents.length) :
    (a.pop r).2.max ≤ (a.pop r).2.contents.length := by
  have hlen : a.popped.contents.length = a.contents.length := by simp [popped]
  rcases a.pop_cases r with ⟨-, hpop⟩ | ⟨-, hpop⟩ | ⟨hbig, hpop⟩
  · rw [hpop]
    exact hmax
  · rw [hpop]
    exact hlen.symm ▸ hmax
  · rw [hpop]
    by_cases hr : r.grants = true
    · obtain ⟨c, hc, -, hres⟩ := resize_granted (a := a.popped) (n := a.end_) hr (by omega)
      rw [hres]
      exact hc.ge
    · -- the array keeps its block, and gives up the slots behind `end`
      have hres : a.popped.resize r a.end_ = (-1, { a.popped with max := a.end_ }) := by
        simp [resize, hr]
      rw [hres]
      show a.end_ ≤ a.popped.contents.length
      omega

theorem Roomy.after (h : a.Roomy) (c : DArrayCall α) (hc : a.CallCovered c) :
    (a.after c).Roomy := by
  refine ⟨h.toBounded.after c, ?_⟩
  cases c with
  | stack c =>
    cases c with
    | push r p =>
      simp only [DArray.after, stackCall]
      rcases a.push_cases r p with ⟨-, hpush⟩ | ⟨hfull, hpush⟩
      · rw [hpush]
        simpa [pushed] using h.max_le
      · rw [hpush]
        exact expand_max_le h.rate ((hc hfull).pushed p)
    | pop r => exact pop_max_le h.end_lt h.max_le
  | set i p =>
    simp only [DArray.after, DArray.set]
    split
    · simpa using h.max_le
    · exact h.max_le
  | get i => exact h.max_le
  | expand r => exact expand_max_le h.rate hc

theorem Roomy.accesses (h : a.Roomy) (c : DArrayCall α) : ∀ t ∈ a.accesses c, t.Inside := by
  have hend : a.end_ < a.contents.length := lt_of_lt_of_le h.end_lt h.max_le
  cases c with
  | stack c =>
    cases c with
    | push r p => exact pushAccesses_inside h.rate hend p
    | pop r => exact popAccesses_inside hend.le
  | set i p => exact checkedAccess_inside h.max_le
  | get i => exact checkedAccess_inside h.max_le
  | expand r => exact expandAccesses_inside h.rate

theorem expand_failed (hrate : 0 < a.expandRate) (hfail : (a.expand r).1 = -1) (hc : a.Covered r) :
    (a.expand r).2.max = (a.expand r).2.contents.length ∧ (a.expand r).2.contents = a.contents := by
  rcases expand_cases r hrate with ⟨c, -, -, hexp⟩ | ⟨hr, hexp⟩
  · rw [hexp] at hfail
    cases hfail
  · rw [hexp]
    exact ⟨(hc.2.resolve_left (by simp [hr])).symm, rfl⟩

theorem Roomy.failsAtomically (h : a.Roomy) (c : DArrayCall α) (hc : a.CallCovered c) :
    a.FailsAtomically c := by
  intro hfail
  have hlt := h.end_lt
  have hmax := h.max_le
  cases c with
  | stack c =>
    cases c with
    | push r p =>
      rcases a.push_cases r p with ⟨-, hpush⟩ | ⟨hfull, hpush⟩
      · simp only [code, hpush] at hfail
        cases hfail
      · simp only [code, hpush] at hfail
        simp only [DArray.after, stackCall, hpush]
        obtain ⟨hm, hs⟩ := expand_failed (a := a.pushed p) h.rate hfail ((hc hfull).pushed p)
        exact ⟨hm, hs, by show a.end_ < a.contents.length; omega⟩
    | pop r => cases hfail
  | set i p => cases hfail
  | get i => cases hfail
  | expand r =>
    obtain ⟨hm, hs⟩ := expand_failed h.rate hfail hc
    exact ⟨hm, hs, trivial⟩

/-- The states that calls lead to when no expansion fails on the way. -/
abbrev CoveredRun (a₀ : DArray α) : DArray α → Prop := Reaches after CallCovered a₀

theorem CoveredRun.roomy (hm : 0 < m) (h : CoveredRun (fresh n m) a) : a.Roomy :=
  h.invariant (roomy_fresh hm) fun _ c hs hc => hs.after c hc

/-- With room, a call fails atomically exactly when it is covered. -/
theorem Roomy.failsAtomically_iff (h : a.Roomy) (hfits : a.max + a.expandRate < 2 ^ 31)
    (c : DArrayCall α) : a.FailsAtomically c ↔ a.CallCovered c := by
  refine ⟨fun hf => ?_, h.failsAtomically c⟩
  cases c with
  | stack c =>
    cases c with
    | push r p =>
      intro hfull
      refine ⟨hfits, ?_⟩
      by_contra hn
      obtain ⟨hr, hlen⟩ := not_or.1 hn
      have hexp : a.push r p = (-1, { a.pushed p with max := a.max + a.expandRate }) := by
        rw [push_of_full hfull, expand_denied (by simpa using hr)]
        rfl
      have hmax := (hf (by simp only [code, hexp])).1
      simp only [DArray.after, stackCall, hexp, pushed, List.length_set] at hmax
      exact hlen hmax.symm
    | pop r => trivial
  | set i p => trivial
  | get i => trivial
  | expand r =>
    refine ⟨hfits, ?_⟩
    by_contra hn
    obtain ⟨hr, hlen⟩ := not_or.1 hn
    have hexp := expand_denied (a := a) (r := r) (by simpa using hr)
    have hmax := (hf (by simp only [code, hexp])).1
    simp only [DArray.after, hexp] at hmax
    exact hlen hmax.symm

/-- In every run that meets no failed expansion, every state is one from which a covered call fails
atomically, if it fails, and no call leaves the block.  A set on a hash map whose bucket it is pushes
onto the bucket, whatever the push returns. -/
theorem growth_safe {n m : ℕ} (hm : 0 < m) :
    (∀ (α : Type) (a : DArray α), CoveredRun (fresh n m) a →
      (∀ c, a.CallCovered c → a.FailsAtomically c) ∧ ∀ c, ∀ t ∈ a.accesses c, t.Inside) ∧
    ∀ (β : Type) (map map' : Hashmap β) (bucket : DArray (HashmapNode β)) (key : Bstring) (data : β)
      (r : Realloc (HashmapNode β)), map.findBucket key true = (some bucket, map') →
      CoveredRun (fresh n m) bucket → ∃ c : DArrayCall (HashmapNode β),
        map.setWith r key data = map'.putBucket key (bucket.after c) ∧
        ∀ t ∈ bucket.accesses c, t.Inside := by
  constructor
  · intro α a h
    have hroomy := h.roomy hm
    exact ⟨hroomy.failsAtomically, hroomy.accesses⟩
  · intro β map map' bucket key data r hfind h
    refine ⟨.stack (.push r (some ⟨key, data, defaultHash key⟩)), ?_, (h.roomy hm).accesses _⟩
    simp only [Hashmap.setWith, hfind]
    rfl

theorem growth_safe_bucket : CoveredRun (fresh 8 1 : DArray ℕ)
      ((fresh 8 1 : DArray ℕ).after (.stack (.push .calm (some 7)))) ∧
    ∀ t ∈ ((fresh 8 1 : DArray ℕ).after (.stack (.push .calm (some 7)))).accesses (.get 0),
      t.Inside := by
  have hrun : CoveredRun (fresh 8 1 : DArray ℕ)
      ((fresh 8 1 : DArray ℕ).after (.stack (.push .calm (some 7)))) :=
    Reaches.start.call fun _ => ⟨by decide, .inl rfl⟩
  exact ⟨hrun, ((growth_safe (n := 8) (m := 1) (by decide)).1 ℕ _ hrun).2 _⟩

/-- A push that fails on a full array leaves it with one slot and a `max` of 301; the next push
writes outside the block, and so does a get that passes its check. -/
theorem failed_push_not_atomic :
    let a : DArray ℕ := fresh 8 1
    let b := a.after (.stack (.push .denied (some 7)))
    a.code (.stack (.push .denied (some 7))) = -1 ∧
      ¬ a.FailsAtomically (.stack (.push .denied (some 7))) ∧
      (∃ t ∈ b.accesses (.stack (.push .calm (some 8))), ¬ t.Inside) ∧
      ∃ t ∈ b.accesses (.get 1), ¬ t.Inside := by
  intro a b
  refine ⟨rfl, ?_, by decide, by decide⟩
  intro h
  have hmax := (h rfl).1
  revert hmax
  decide

/-! ### A set behind the elements -/

/-- The element that a set stores in slot `i` is counted and returned, no other slot changes, and a
push stores its element behind it. -/
structure SetVisible (a : DArray α) (i : ℕ) (x : α) : Prop where
  counted : i < (a.set i (some x)).end_
  get : (a.set i (some x)).get i = some x
  others : ∀ j, j ≠ i → (a.set i (some x)).contents[j]? = a.contents[j]?
  appended : ∀ r p, ∃ j, i < j ∧ ((a.set i (some x)).push r p).2.end_ = j + 1 ∧
    ((a.set i (some x)).push r p).2.contents[j]? = some p
  kept : ∀ r p, ((a.set i (some x)).push r p).2.contents[i]? = some (some x)

theorem push_slot (h : a.end_ < a.max) (hlen : a.end_ < a.contents.length) (p : Option α) {j : ℕ}
    (hj : j ≤ a.end_) (hrate : 0 < a.expandRate) :
    (a.push r p).2.contents[j]? = if j = a.end_ then some p else a.contents[j]? := by
  have hpushed : (a.pushed p).contents[j]? = if j = a.end_ then some p else a.contents[j]? := by
    show (a.contents.set a.end_ p)[j]? = _
    by_cases hje : j = a.end_
    · rw [if_pos hje, hje, List.getElem?_set_self hlen]
    · rw [if_neg hje, List.getElem?_set_ne (Ne.symm hje)]
  rw [← hpushed]
  rcases a.push_cases r p with ⟨-, hpush⟩ | ⟨-, hpush⟩
  · rw [hpush]
  · rw [hpush]
    rcases expand_cases (a := a.pushed p) r hrate with ⟨c, -, hkeep, hexp⟩ | ⟨-, hexp⟩
    · have htake := hkeep (a.end_ + 1) h (by simpa [pushed] using hlen)
      rw [hexp]
      exact getElem?_of_take_eq htake (by omega)
    · rw [hexp]

theorem push_end (p : Option α) : (a.push r p).2.end_ = a.end_ + 1 := by
  rcases a.push_cases r p with ⟨-, hpush⟩ | ⟨-, hpush⟩
  · rw [hpush]
    rfl
  · rw [hpush]
    simp only [expand, resize]
    split <;> split <;> rfl

theorem push_denied_length (p : Option α) :
    (a.push .denied p).2.contents.length = a.contents.length := by
  rcases a.push_cases .denied p with ⟨-, hpush⟩ | ⟨-, hpush⟩
  · rw [hpush]
    simp [pushed]
  · rw [hpush, expand_denied rfl]
    simp [pushed]

/-- An element set below `end` is visible, if the next push has its slot. -/
theorem Bounded.setVisible (h : a.Bounded) (hlen : a.end_ < a.contents.length) {i : ℕ}
    (hi : i < a.end_) (x : α) : a.SetVisible i x := by
  have hlt := h.end_lt
  set b := a.set i (some x) with hb
  have hset : b = { a with contents := a.contents.set i (some x) } := by
    simp only [hb, DArray.set, show i < a.max by omega, if_true, show ¬ i > a.end_ by omega, if_false]
  have hend : b.end_ = a.end_ := by rw [hset]
  have hslot : ∀ r p j, j ≤ b.end_ →
      (b.push r p).2.contents[j]? = if j = b.end_ then some p else b.contents[j]? := by
    intro r p j hj
    refine push_slot ?_ ?_ p hj ?_
    · rw [hset]
      exact hlt
    · rw [hset]
      simpa using hlen
    · rw [hset]
      exact h.rate
  have hi' : b.contents[i]? = some (some x) := by
    rw [hset]
    exact List.getElem?_set_self (by omega)
  refine ⟨by rw [hend]; exact hi, ?_, ?_, ?_, ?_⟩
  · show b.get i = some x
    have hmax : b.max = a.max := by rw [hset]
    simp only [DArray.get, hmax, show i < a.max by omega, if_true, hi', Option.join_some]
  · intro j hj
    show b.contents[j]? = _
    rw [hset]
    exact List.getElem?_set_ne (Ne.symm hj)
  · intro r p
    refine ⟨b.end_, by omega, push_end p, ?_⟩
    rw [hslot r p _ (le_refl _), if_pos rfl]
  · intro r p
    rw [hslot r p i (by omega), if_neg (by omega), hi']

/-- In every state that calls lead to, whether their allocations succeed or not, an element that is
set below `max` is visible exactly when its index is below `end` and the next push has its slot. -/
theorem set_visible_iff {a₀ : DArray α} (h₀ : DArray.create n m = some a₀)
    (h : Reaches after (fun _ _ => True) a₀ a) {i : ℕ} (hi : i < a.max) (x : α) :
    a.SetVisible i x ↔ i < a.end_ ∧ a.end_ < a.contents.length := by
  obtain ⟨hm, rfl⟩ := create_eq_some.1 h₀
  have hbounded : a.Bounded := h.invariant (bounded_fresh hm) fun _ c hs _ => hs.after c
  constructor
  · intro hv
    have hend : (a.set i (some x)).end_ = if i > a.end_ then i else a.end_ := by
      simp only [DArray.set, hi, if_true]
    have hlt : i < a.end_ := by
      have := hv.counted
      rw [hend] at this
      split at this <;> omega
    refine ⟨hlt, ?_⟩
    -- a push whose expansion is refused stores nothing outside
    obtain ⟨j, -, hj, hslot⟩ := hv.appended .denied (some x)
    rw [push_end, hend, if_neg (by omega)] at hj
    obtain rfl : a.end_ = j := by omega
    by_contra hn
    have hdenied : ((a.set i (some x)).push .denied (some x)).2.contents.length =
        a.contents.length := by
      rw [push_denied_length]
      simp [DArray.set, hi]
    rw [List.getElem?_eq_none (by omega)] at hslot
    cases hslot
  · rintro ⟨hlt, hlen⟩
    exact hbounded.setVisible hlen hlt x

/-- Where no expansion has failed, the index alone decides. -/
theorem Roomy.set_visible (h : a.Roomy) {i : ℕ} (hi : i < a.end_) (x : α) : a.SetVisible i x :=
  h.setVisible (lt_of_lt_of_le h.end_lt h.max_le) hi x

theorem set_visible_iff_second : (((fresh 8 3 : DArray ℕ).after (.stack (.push .calm (some 7)))).after
    (.stack (.push .calm (some 8)))).SetVisible 0 9 := by
  have hcreate : DArray.create 8 3 = some (fresh 8 3 : DArray ℕ) := rfl
  apply (set_visible_iff hcreate ((Reaches.start.call trivial).call trivial) (by decide) 9).2
  decide

/-- A set at the first free index is not counted, and the next push overwrites its element. -/
theorem set_at_end_lost :
    let a : DArray ℕ := fresh 8 3
    ¬ a.SetVisible 0 5 ∧ (a.set 0 (some 5)).end_ = 0 ∧
      ((a.set 0 (some 5)).push .calm (some 6)).2.get 0 = some 6 := by
  intro a
  refine ⟨?_, rfl, rfl⟩
  intro h
  have hcounted := h.counted
  revert hcounted
  decide

end DArray

end HttpServer

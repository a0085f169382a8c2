import Mathlib.Data.List.Nodup
import Mathlib.Logic.Function.Basic

/-!
# Processes on a shared state

Processes take their steps in any order on a state that they share, each with a place of its own.
When every step either keeps what the shared state stands for, or completes the operation of its
process on it, the completed operations have the results of whole operations that are done one after
the other (`Interleaving.serial`).
-/

namespace HttpServer.Lib

/-! ### Whole operations -/

section Whole

variable {ι o α : Type*} {whole : ι → α → o × α}

/-- The operations of `order`, each done whole: the results and the last state. -/
def oneByOne (whole : ι → α → o × α) : List ι → α → List (ι × o) × α
  | [], a => ([], a)
  | i :: order, a =>
    ((i, (whole i a).1) :: (oneByOne whole order (whole i a).2).1,
      (oneByOne whole order (whole i a).2).2)

lemma oneByOne_concat (order : List ι) (i : ι) (a : α) :
    oneByOne whole (order ++ [i]) a =
      ((oneByOne whole order a).1 ++ [(i, (whole i (oneByOne whole order a).2).1)],
        (whole i (oneByOne whole order a).2).2) := by
  induction order generalizing a with
  | nil => rfl
  | cons j order ih => simp [oneByOne, ih]

lemma map_fst_oneByOne (whole : ι → α → o × α) (order : List ι) (a : α) :
    (oneByOne whole order a).1.map Prod.fst = order := by
  induction order generalizing a with
  | nil => rfl
  | cons j order ih => simp [oneByOne, ih]

/-- What every whole operation keeps holds at the end and wherever one was started. -/
theorem oneByOne_invariant {P : α → Prop} (hP : ∀ i a, P a → P (whole i a).2) (order : List ι) {a : α}
    (ha : P a) : P (oneByOne whole order a).2 ∧
      ∀ i r, (i, r) ∈ (oneByOne whole order a).1 → ∃ b, P b ∧ r = (whole i b).1 := by
  induction order generalizing a with
  | nil => exact ⟨ha, fun i r h => absurd h List.not_mem_nil⟩
  | cons j order ih =>
    obtain ⟨hlast, hresults⟩ := ih (hP j a ha)
    refine ⟨hlast, ?_⟩
    intro i r h
    rcases List.mem_cons.1 h with h | h
    · obtain ⟨rfl, rfl⟩ := Prod.mk.inj h
      exact ⟨a, ha, rfl⟩
    · exact hresults i r h

end Whole

/-! ### Steps in any order -/

/-- The shared state, and where each process is. -/
structure Config (ι p σ : Type*) where
  shared : σ
  place : ι → p

section Steps

variable {ι p σ o α : Type*} {c d : Config ι p σ} {whole : ι → α → o × α} {result : p → Option o}

/-- The results at hand in `c` are those of the operations of `order`, each done whole from `a` on. -/
structure Serial (whole : ι → α → o × α) (result : p → Option o) (a : α) (order : List ι)
    (c : Config ι p σ) : Prop where
  nodup : order.Nodup
  results : ∀ i r, (i, r) ∈ (oneByOne whole order a).1 ↔ result (c.place i) = some r

lemma Serial.mem_iff {a : α} {order : List ι} (h : Serial whole result a order c) (i : ι) :
    i ∈ order ↔ (result (c.place i)).isSome := by
  rw [Option.isSome_iff_exists, ← map_fst_oneByOne whole order a, List.mem_map]
  constructor
  · rintro ⟨⟨j, r⟩, hmem, rfl⟩
    exact ⟨r, (h.results j r).1 hmem⟩
  · rintro ⟨r, hr⟩
    exact ⟨(i, r), (h.results i r).2 hr, rfl⟩

variable [DecidableEq ι]

/-- The configuration after process `i` went to `q` and left `s`. -/
def Config.move (c : Config ι p σ) (i : ι) (q : p) (s : σ) : Config ι p σ :=
  ⟨s, Function.update c.place i q⟩

@[simp] lemma Config.move_same (c : Config ι p σ) (i : ι) (q : p) (s : σ) :
    (c.move i q s).place i = q := Function.update_self ..

lemma Config.move_ne (c : Config ι p σ) {i j : ι} (h : j ≠ i) (q : p) (s : σ) :
    (c.move i q s).place j = c.place j := Function.update_of_ne h ..

/-- The configurations that steps of the processes reach, one process at a time, when `allowed` says
which process may take its step. -/
inductive Interleaving (next : ι → p → σ → Option (p × σ)) (allowed : Config ι p σ → ι → Prop)
    (c : Config ι p σ) : Config ι p σ → Prop
  | refl : Interleaving next allowed c c
  | step {d : Config ι p σ} {i : ι} {q : p} {s : σ} : Interleaving next allowed c d → allowed d i →
      next i (d.place i) d.shared = some (q, s) → Interleaving next allowed c (d.move i q s)

variable {next : ι → p → σ → Option (p × σ)} {allowed : Config ι p σ → ι → Prop}

theorem Interleaving.trans {e : Config ι p σ} (h : Interleaving next allowed c d)
    (h' : Interleaving next allowed d e) : Interleaving next allowed c e := by
  induction h' with
  | refl => exact h
  | step _ hallowed hnext ih => exact ih.step hallowed hnext

/-- The steps of the processes in the order of a schedule, as long as they are allowed. -/
def Config.run (next : ι → p → σ → Option (p × σ)) (allowed : Config ι p σ → ι → Prop)
    [∀ c i, Decidable (allowed c i)] : List ι → Config ι p σ → Option (Config ι p σ)
  | [], c => some c
  | i :: schedule, c =>
    if allowed c i then
      (next i (c.place i) c.shared).bind fun (q, s) => (c.move i q s).run next allowed schedule
    else none

theorem interleaving_of_run [∀ c i, Decidable (allowed c i)] (schedule : List ι)
    (h : c.run next allowed schedule = some d) : Interleaving next allowed c d := by
  induction schedule generalizing c with
  | nil =>
    cases h
    exact .refl
  | cons i schedule ih =>
    rw [Config.run] at h
    split at h
    · rename_i hallowed
      obtain ⟨⟨q, s⟩, hnext, hrun⟩ := Option.bind_eq_some_iff.1 h
      exact (Interleaving.refl.step hallowed hnext).trans (ih hrun)
    · cases h

/-- A step of a process without result that gives it none keeps the order. -/
lemma Serial.stay {a : α} {order : List ι} {i : ι} {q : p} {s : σ}
    (h : Serial whole result a order c) (hi : result (c.place i) = none) (hq : result q = none) :
    Serial whole result a order (c.move i q s) := by
  refine ⟨h.nodup, ?_⟩
  intro j r
  rw [h.results]
  rcases eq_or_ne j i with rfl | hj
  · rw [Config.move_same, hi, hq]
  · rw [Config.move_ne c hj]

/-- A step that completes the operation of its process puts it last. -/
lemma Serial.complete {a : α} {order : List ι} {i : ι} {q : p} {s : σ}
    (h : Serial whole result a order c) (hi : result (c.place i) = none)
    (hq : result q = some (whole i (oneByOne whole order a).2).1) :
    Serial whole result a (order ++ [i]) (c.move i q s) := by
  have hnot : i ∉ order := by
    intro hmem
    have := (h.mem_iff i).1 hmem
    rw [hi] at this
    cases this
  refine ⟨List.nodup_append.2 ⟨h.nodup, List.nodup_singleton i, ?_⟩, fun j r => ?_⟩
  · intro j hj k hk
    rw [List.mem_singleton.1 hk]
    rintro rfl
    exact hnot hj
  · rw [oneByOne_concat, List.mem_append, List.mem_singleton, h.results]
    rcases eq_or_ne j i with rfl | hj
    · rw [Config.move_same, hi, hq]
      simp [eq_comm]
    · rw [Config.move_ne c hj]
      simp [hj]

/-- **Operations that take effect at one of their steps are served one by one.**  The state that `c`
stands for is kept by every step of an operation but the one that gives its result, and that one
changes it as the whole operation does. -/
theorem Interleaving.serial {Rep : Config ι p σ → α → Prop} {a : α}
    (hstep : ∀ c a i q s, Rep c a → allowed c i → next i (c.place i) c.shared = some (q, s) →
      result (c.place i) = none ∧
        (result q = none ∧ Rep (c.move i q s) a ∨
          result q = some (whole i a).1 ∧ Rep (c.move i q s) (whole i a).2))
    (h : Interleaving next allowed c d) (hnone : ∀ i, result (c.place i) = none) (h0 : Rep c a) :
    ∃ order, Serial whole result a order d ∧ Rep d (oneByOne whole order a).2 := by
  induction h with
  | refl =>
    refine ⟨[], ⟨List.nodup_nil, fun i r => ?_⟩, h0⟩
    rw [hnone]
    simp [oneByOne]
  | @step d i q s _ hallowed hnext ih =>
    obtain ⟨order, hserial, hrep⟩ := ih
    obtain ⟨hi, ⟨hq, hkeep⟩ | ⟨hq, hdone⟩⟩ := hstep _ _ _ _ _ hrep hallowed hnext
    · exact ⟨order, hserial.stay hi hq, hkeep⟩
    · refine ⟨order ++ [i], hserial.complete hi hq, ?_⟩
      rw [oneByOne_concat]
      exact hdone

end Steps

end HttpServer.Lib

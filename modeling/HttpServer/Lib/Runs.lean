import Mathlib.Data.List.Induction

/-!
# Runs of calls

A machine is a function `step` from a state and a call to what the call returns and the next state.
`runAll` makes a list of calls; two machines whose steps agree under a relation agree over every run
(`runAll_simulates`, and `foldl_simulates` where a call returns nothing).  `Reaches` is the set of
states that calls lead to when each meets a condition in the state it is made in; an invariant of one
step holds in all of them (`Reaches.invariant`).  A property that only good calls keep holds in every
state of a run exactly when all its calls are good (`runAll_always_iff`).
-/

namespace HttpServer.Lib

section Runs

variable {σ τ κ ω : Type}

/-- What each of the calls returns, and the state after them. -/
def runAll (step : σ → κ → ω × σ) (s : σ) : List κ → List ω × σ
  | [] => ([], s)
  | c :: calls => ((step s c).1 :: (runAll step (step s c).2 calls).1,
      (runAll step (step s c).2 calls).2)

/-- Steps that agree make runs that agree. -/
theorem runAll_simulates {step : σ → κ → ω × σ} {step' : τ → κ → ω × τ} {R : σ → τ → Prop}
    {ok : κ → Prop} (hstep : ∀ s t c, R s t → ok c →
      (step s c).1 = (step' t c).1 ∧ R (step s c).2 (step' t c).2) :
    ∀ (calls : List κ) {s : σ} {t : τ}, (∀ c ∈ calls, ok c) → R s t →
      (runAll step s calls).1 = (runAll step' t calls).1 ∧
        R (runAll step s calls).2 (runAll step' t calls).2 := by
  intro calls
  induction calls with
  | nil =>
    intro s t _ h
    exact ⟨rfl, h⟩
  | cons c calls ih =>
    intro s t hok h
    obtain ⟨hout, hnext⟩ := hstep s t c h (hok c (by simp))
    obtain ⟨houts, hlast⟩ := ih (fun c hc => hok c (List.mem_cons_of_mem _ hc)) hnext
    simp only [runAll]
    exact ⟨by rw [hout, houts], hlast⟩

theorem runAll_concat (step : σ → κ → ω × σ) (s : σ) (calls : List κ) (c : κ) :
    (runAll step s (calls ++ [c])).2 = (step (runAll step s calls).2 c).2 := by
  induction calls generalizing s with
  | nil => rfl
  | cons d calls ih => exact ih (step s d).2

theorem runAll_invariant {step : σ → κ → ω × σ} {I : σ → Prop} {ok : κ → Prop}
    (hstep : ∀ s c, I s → ok c → I (step s c).2) {s : σ} (h₀ : I s) (calls : List κ)
    (hok : ∀ c ∈ calls, ok c) : I (runAll step s calls).2 := by
  induction calls generalizing s with
  | nil => exact h₀
  | cons c calls ih =>
    exact ih (hstep s c h₀ (hok c (by simp))) fun d hd => hok d (List.mem_cons_of_mem _ hd)

/-- A property that a call keeps exactly when it is a good one holds all along a run exactly when
every call of the run is good in the state it is made in. -/
theorem runAll_always_iff {step : σ → κ → ω × σ} {I P : σ → Prop} {ok : κ → Prop}
    {good : σ → κ → Prop} (hkeep : ∀ s c, I s → ok c → I (step s c).2)
    (hstep : ∀ s c, I s → ok c → P s → (P (step s c).2 ↔ good s c)) {s : σ} (hI : I s) (hP : P s)
    (calls : List κ) (hok : ∀ c ∈ calls, ok c) :
    (∀ pre, pre <+: calls → P (runAll step s pre).2) ↔
      ∀ pre c, pre ++ [c] <+: calls → good (runAll step s pre).2 c := by
  have hinv : ∀ pre, pre <+: calls → I (runAll step s pre).2 := fun pre hpre =>
    runAll_invariant hkeep hI pre fun c hc => hok c (hpre.subset hc)
  have hnext : ∀ pre c, pre ++ [c] <+: calls → P (runAll step s pre).2 →
      (P (runAll step s (pre ++ [c])).2 ↔ good (runAll step s pre).2 c) := by
    intro pre c hpre hp
    rw [runAll_concat]
    exact hstep _ c (hinv pre ((List.prefix_append pre [c]).trans hpre))
      (hok c (hpre.subset (by simp))) hp
  constructor
  · intro h pre c hpre
    exact (hnext pre c hpre (h pre ((List.prefix_append pre [c]).trans hpre))).1 (h _ hpre)
  · intro h pre
    -- from the end: the last call is made in a state that has the property
    induction pre using List.reverseRecOn with
    | nil => exact fun _ => hP
    | append_singleton pre c ih =>
      intro hpre
      have hp := ih ((List.prefix_append pre [c]).trans hpre)
      exact (hnext pre c hpre hp).2 (h pre c hpre)

theorem foldl_simulates {step : σ → κ → σ} {step' : τ → κ → τ} {R : σ → τ → Prop} {ok : κ → Prop}
    (hstep : ∀ s t c, R s t → ok c → R (step s c) (step' t c)) :
    ∀ (calls : List κ) {s : σ} {t : τ}, (∀ c ∈ calls, ok c) → R s t →
      R (calls.foldl step s) (calls.foldl step' t) := by
  intro calls
  induction calls with
  | nil =>
    intro s t _ h
    exact h
  | cons c calls ih =>
    intro s t hok h
    exact ih (fun c hc => hok c (List.mem_cons_of_mem _ hc)) (hstep s t c h (hok c (by simp)))

/-- The states that calls lead to from `s₀`, each call meeting `ok` in the state it is made in. -/
inductive Reaches (step : σ → κ → σ) (ok : σ → κ → Prop) (s₀ : σ) : σ → Prop
  | start : Reaches step ok s₀ s₀
  | call {s : σ} {c : κ} (hs : Reaches step ok s₀ s) (hc : ok s c) : Reaches step ok s₀ (step s c)

variable {step : σ → κ → σ} {ok : σ → κ → Prop} {s₀ s : σ}

/-- What holds at the start and is kept by every call holds in every state reached. -/
theorem Reaches.invariant {I : σ → Prop} (h₀ : I s₀)
    (hstep : ∀ s c, I s → ok s c → I (step s c)) (h : Reaches step ok s₀ s) : I s := by
  induction h with
  | start => exact h₀
  | call _ hc ih => exact hstep _ _ ih hc

end Runs

end HttpServer.Lib

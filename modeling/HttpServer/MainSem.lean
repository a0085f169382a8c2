import HttpServer.Dispatch

/-!
# Turns and runs

One turn of the loop of the child process is the answer to a request, or a 400 for a chunk that is
not parsed.  A run is a sequence of turns, and a connection is a run of the chunks that it takes
(`run_of_connectionLoop`).
-/

namespace HttpServer

open Lib

variable {env : Env} {directory : Option Bytes} {request : HttpRequest} {w w' : World}
  {reply : Reply} {chunk : Bytes}

theorem serveChunk_of_parse (h : httpRequestFromBuffer (chunk.takeWhile (· ≠ 0)) = .ok (some request)) :
    serveChunk env directory w chunk =
      (answer env directory request w).map fun p => (p.1, request.closes, p.2) := by
  unfold serveChunk
  rw [h]
  simp only [bind, Except.bind]
  cases answer env directory request w <;> rfl

theorem serveChunk_of_refused (h : httpRequestFromBuffer (chunk.takeWhile (· ≠ 0)) = .ok none) :
    serveChunk env directory w chunk = .ok (sendBadRequestMessage env false, true, w) := by
  unfold serveChunk
  rw [h]
  rfl

theorem serveChunk_of_some (hs : NulFree chunk)
    (h : httpRequestFromBuffer chunk = .ok (some request)) : serveChunk env directory w chunk =
      (answer env directory request w).map fun p => (p.1, request.closes, p.2) :=
  serveChunk_of_parse (hs.takeWhile.symm ▸ h)

/-- A turn is a 400 that ends the loop, or the answer to a request, which says whether the loop ends. -/
theorem turn_of_serveChunk {stop : Bool}
    (h : serveChunk env directory w chunk = .ok (reply, stop, w')) :
    (httpRequestFromBuffer (chunk.takeWhile (· ≠ 0)) = .ok none ∧
        reply = sendBadRequestMessage env false ∧ stop = true ∧ w' = w) ∨
      ∃ request, httpRequestFromBuffer (chunk.takeWhile (· ≠ 0)) = .ok (some request) ∧
        stop = request.closes ∧ answer env directory request w = .ok (reply, w') := by
  unfold serveChunk at h
  obtain ⟨_ | request, hr, h⟩ := bind_eq_ok.1 h
  · cases h
    exact Or.inl ⟨hr, rfl, rfl, rfl⟩
  · obtain ⟨p, ha, h⟩ := bind_eq_ok.1 h
    cases h
    exact Or.inr ⟨request, hr, rfl, ha⟩

/-- **What holds of the files through every turn** holds through a run. -/
theorem Run.invariant {P : World → Prop} {turns : List Turn} (h : Run directory w turns w')
    (step : ∀ t ∈ turns, ∀ w w' stop, P w →
      serveChunk t.env directory w t.chunk = .ok (t.reply, stop, w') → P w')
    (h0 : P w) : P w' := by
  induction h with
  | nil w => exact h0
  | cons turn _ ih =>
    exact ih (fun t ht => step t (List.mem_cons_of_mem _ ht)) (step _ List.mem_cons_self _ _ _ h0 turn)

theorem run_of_connectionLoop {chunks : List (Env × Bytes)} {replies : List Reply}
    (h : connectionLoop directory chunks w = .ok (replies, w')) :
    ∃ turns, Run directory w turns w' ∧ turns.map (·.reply) = replies ∧
      (turns.map fun t => (t.env, t.chunk)) <+: chunks := by
  induction chunks generalizing w replies with
  | nil =>
    cases h
    exact ⟨[], .nil _, rfl, List.nil_prefix⟩
  | cons c chunks ih =>
    obtain ⟨env, chunk⟩ := c
    rw [connectionLoop] at h
    by_cases hnil : chunk = []
    · rw [if_pos hnil] at h
      cases h
      exact ⟨[], .nil _, rfl, List.nil_prefix⟩
    rw [if_neg hnil] at h
    obtain ⟨⟨reply, stop, w₁⟩, hs, h⟩ := bind_eq_ok.1 h
    cases stop with
    | true =>
      cases h
      exact ⟨[⟨env, chunk, reply⟩], .cons hs (.nil _), rfl, by simp⟩
    | false =>
      obtain ⟨⟨replies', w₂⟩, hrest, h⟩ := bind_eq_ok.1 h
      cases h
      obtain ⟨turns, hrun, hreplies, hprefix⟩ := ih hrest
      exact ⟨⟨env, chunk, reply⟩ :: turns, .cons hs hrun, by simp [hreplies],
        by simpa using hprefix⟩

end HttpServer

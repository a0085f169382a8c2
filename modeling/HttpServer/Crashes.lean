import HttpServer.Server

/-!
# Children that die

A child can end before its time: an access outside its memory, or a reply to a client that is gone, and
the kernel ends it by a signal, closes what it has open and tells the parent.  It can be anywhere at
that moment, also within the write of a file.

Whatever children die, and when, the others are served as if nothing had happened, also when the
requests of those that died cannot be parsed at all (`served_despite_crashes`); the parent waits for the
dead as for those that exit, and they hold no descriptor any more (`reaped_despite_crashes`).
-/

namespace HttpServer

open Lib

/-! ### The machine -/

/-- What happens: an action of the machine, or the death of a child. -/
inductive ServerEvent where
  | act (a : Action)
  | kill (number : ℕ)
  deriving DecidableEq

def actionsOf (events : List ServerEvent) : List Action :=
  events.filterMap fun
    | .act a => some a
    | .kill _ => none

/-- The child when the kernel has ended it. -/
def Child.killed (child : Child) : Child :=
  { child with phase := .zombie (child.phase.place []).sent, table := fun _ => none }

/-- The server when the kernel has ended a child that runs. -/
def Server.kill (s : Server) (number : ℕ) : Option Server :=
  (s.child number).bind fun child =>
    if child.IsZombie ∨ ¬ child.Unreaped then none
    else some { s with
      child := Function.update s.child number (some child.killed)
      pending := s.pending || s.parent.running }

def Server.event (st : Startup) (s : Server) : ServerEvent → Option Server
  | .act a => s.step st a
  | .kill number => s.kill number

/-- The states that events lead to, with the events that led there. -/
inductive Startup.Crashing (st : Startup) : List ServerEvent → Server → Prop
  | start : st.Crashing [] st.server
  | event {events : List ServerEvent} {s s' : Server} {e : ServerEvent} (crashing : st.Crashing events s)
      (step : s.event st e = some s') : st.Crashing (events ++ [e]) s'

section Crashes

variable {st : Startup} {s s' : Server} {events : List ServerEvent} {actions : List Action} {number : ℕ}

theorem Server.kill_eq_some (h : s.kill number = some s') : ∃ child, s.child number = some child ∧
    (¬ child.IsZombie ∧ child.Unreaped) ∧ s' = { s with
      child := Function.update s.child number (some child.killed)
      pending := s.pending || s.parent.running } := by
  obtain ⟨child, hc, h⟩ := Option.bind_eq_some_iff.1 h
  split at h
  · cases h
  · rename_i hruns
    rw [not_or, not_not] at hruns
    exact ⟨child, hc, hruns, (Option.some.inj h).symm⟩

theorem actionsOf_append_act (events : List ServerEvent) (a : Action) :
    actionsOf (events ++ [.act a]) = actionsOf events ++ [a] := by
  simp [actionsOf]

theorem actionsOf_append_kill (events : List ServerEvent) (number : ℕ) :
    actionsOf (events ++ [.kill number]) = actionsOf events := by
  simp [actionsOf]

theorem Startup.Crashing.append (h : st.Crashing events s) (hrun : s.run st actions = some s') :
    st.Crashing (events ++ actions.map .act) s' := by
  induction actions generalizing events s with
  | nil =>
    cases hrun
    rwa [List.map_nil, List.append_nil]
  | cons a actions ih =>
    obtain ⟨t, hstep, hrun⟩ := Option.bind_eq_some_iff.1 hrun
    rw [List.map_cons, List.append_cons]
    exact ih (h.event (e := .act a) hstep) hrun

/-! ### What is known of the server -/

theorem Server.Tables.kill (h : s.Tables st) (hkill : s.kill number = some s') : s'.Tables st := by
  obtain ⟨child, hc, -, rfl⟩ := Server.kill_eq_some hkill
  exact h.putChild hc child.killed (h.child number child hc).1 rfl s.files _

theorem Server.Waits.kill (h : s.Waits) (hkill : s.kill number = some s') : s'.Waits := by
  obtain ⟨child, hc, -, rfl⟩ := Server.kill_eq_some hkill
  refine ⟨fun i c hc' hz hrun => ?_, h.running⟩
  rcases child_of_update hc' with ⟨-, rfl⟩ | ⟨-, hc'⟩
  · exact Or.inl (by simp [show s.parent.running = true from hrun])
  · rcases h.zombie i c hc' hz hrun with hpend | hh
    · exact Or.inl (by simp [hpend])
    · exact Or.inr hh

theorem Server.KeepsErrno.kill {error : ℕ} (h : s.KeepsErrno actions error)
    (hkill : s.kill number = some s') : s'.KeepsErrno actions error := by
  obtain ⟨child, -, -, rfl⟩ := Server.kill_eq_some hkill
  exact ⟨h.idle, h.reaping, h.restoring, h.failed, h.returned⟩

/-- What is known of the server holds whatever children die. -/
theorem Startup.Crashing.known (h : st.Crashing events s) : s.Tables st ∧ s.Waits ∧
    s.KeepsErrno (actionsOf events) (mainErrno st.errno (actionsOf events)) := by
  induction h with
  | start =>
    have hstart : st.Trace [] st.server := .start
    exact ⟨hstart.tables, hstart.waits, hstart.keepsErrno⟩
  | @event events s s' e _ hstep ih =>
    obtain ⟨htables, hwaits, herrno⟩ := ih
    cases e with
    | act a =>
      rw [actionsOf_append_act, mainErrno_append]
      exact ⟨htables.step hstep, hwaits.step htables hstep, herrno.step hstep⟩
    | kill number =>
      rw [actionsOf_append_kill]
      exact ⟨htables.kill hstep, hwaits.kill hstep, herrno.kill hstep⟩

/-- The child has come to its end, after the replies `sent`. -/
def Child.Ended (child : Child) (sent : List Reply) : Prop :=
  child.phase = .zombie sent ∨ child.phase = .reaped sent

theorem Child.Ended.step_eq_none {child : Child} {sent : List Reply} (h : child.Ended sent)
    (files : Bytes → FileState) : child.step st number files = none := by
  unfold Child.step
  rcases h with h | h <;> rw [h]

theorem ended_step {a : Action} {i : ℕ} {child : Child} {sent : List Reply} (htables : s.Tables st)
    (hc : s.child i = some child) (hended : child.Ended sent) (hstep : s.step st a = some s') :
    ∃ child', s'.child i = some child' ∧ child'.Ended sent := by
  cases Server.step_cases hstep with
  | @fork fd hp hi =>
    have hne : i ≠ s.accepted - 1 := by
      rintro rfl
      rw [htables.fresh fd hp] at hc
      cases hc
    exact ⟨child, (Function.update_of_ne hne ..).trans hc, hended⟩
  | @reap saved number child' sent' hh hc' hz =>
    by_cases hi : i = number
    · subst hi
      obtain rfl : child = child' := Option.some.inj (hc.symm.trans hc')
      refine ⟨_, Function.update_self .., Or.inr ?_⟩
      rcases hended with h | h
      · rw [h] at hz
        cases hz
        rfl
      · rw [h] at hz
        cases hz
    · exact ⟨child, (Function.update_of_ne hi ..).trans hc, hended⟩
  | @child number child' child'' files hc' hcstep =>
    have hne : i ≠ number := by
      rintro rfl
      obtain rfl : child = child' := Option.some.inj (hc.symm.trans hc')
      rw [hended.step_eq_none] at hcstep
      cases hcstep
    exact ⟨child, (Function.update_of_ne hne ..).trans hc, hended⟩
  | _ => exact ⟨child, hc, hended⟩

/-! ### What the clients get -/

/-- The children as processes that were never killed: `d` has a child that died where it was then. -/
structure Server.Tracks (st : Startup) (s : Server) (events : List ServerEvent)
    (d : Config ℕ ChildPlace (Bytes → FileState)) : Prop where
  shared : d.shared = s.files
  alive : ∀ i, .kill i ∉ events → d.place i = (s.config st).place i
  dead : ∀ i, .kill i ∈ events → ∃ child, s.child i = some child ∧ child.Ended (d.place i).sent

theorem place_of_child {i : ℕ} {child : Child} (hc : s.child i = some child) :
    (s.config st).place i = child.phase.place (st.clients i) := by
  simp only [Server.config, hc, Option.elim_some]

theorem place_of_ended {child : Child} {sent : List Reply} (h : child.Ended sent)
    (results : List (Env × Bytes)) : child.phase.place results = .exited sent :=
  place_of_served (Or.inr h) results

/-- What was sent does not depend on what the client still sends. -/
theorem sent_place (phase : ChildPhase) (results : List (Env × Bytes)) :
    (phase.place []).sent = (phase.place results).sent := by
  cases phase <;> rfl

section Tracks

variable {d : Config ℕ ChildPlace (Bytes → FileState)}

theorem mem_kill_append_act {i : ℕ} {a : Action} :
    ServerEvent.kill i ∈ events ++ [.act a] ↔ .kill i ∈ events := by simp

theorem Server.Tracks.act {a : Action} (h : s.Tracks st events d) (htables : s.Tables st)
    (hstep : s.step st a = some s') : ∃ d', s'.Tracks st (events ++ [.act a]) d' ∧
      (d' = d ∨ ∃ i q files, childStep st.directory (d.place i) d.shared = some (q, files) ∧
        d' = d.move i q files) := by
  have hdead : ∀ i, .kill i ∈ events → ∃ child, s'.child i = some child ∧
      child.Ended (d.place i).sent := by
    intro i hi
    obtain ⟨child, hc, hended⟩ := h.dead i hi
    exact ended_step htables hc hended hstep
  rcases config_step htables hstep with hsame | ⟨i, q, files, hnext, hmove⟩
  · refine ⟨d, ⟨?_, ?_, ?_⟩, Or.inl rfl⟩
    · rw [h.shared]
      exact (congrArg Config.shared hsame).symm
    · intro j hj
      rw [hsame]
      exact h.alive j fun hmem => hj (mem_kill_append_act.2 hmem)
    · intro j hj
      exact hdead j (mem_kill_append_act.1 hj)
  · -- a child that died takes no step
    have hi : ServerEvent.kill i ∉ events := by
      intro hmem
      obtain ⟨child, hc, hended⟩ := h.dead i hmem
      rw [place_of_child hc, place_of_ended hended] at hnext
      cases hnext
    rw [← h.alive i hi, show (s.config st).shared = d.shared from h.shared.symm] at hnext
    refine ⟨d.move i q files, ⟨?_, ?_, ?_⟩, Or.inr ⟨i, q, files, hnext, rfl⟩⟩
    · exact (congrArg Config.shared hmove).symm
    · intro j hj
      rw [hmove]
      rcases eq_or_ne j i with rfl | hne
      · rw [Config.move_same, Config.move_same]
      · rw [Config.move_ne _ hne, Config.move_ne _ hne]
        exact h.alive j fun hmem => hj (mem_kill_append_act.2 hmem)
    · intro j hj
      have hmem := mem_kill_append_act.1 hj
      have hne : j ≠ i := by
        rintro rfl
        exact hi hmem
      rw [Config.move_ne _ hne]
      exact hdead j hmem

theorem Server.Tracks.kill (h : s.Tracks st events d) (hkill : s.kill number = some s') :
    s'.Tracks st (events ++ [.kill number]) d := by
  obtain ⟨child, hc, hruns, rfl⟩ := Server.kill_eq_some hkill
  have hnot : ServerEvent.kill number ∉ events := by
    intro hmem
    obtain ⟨child', hc', hended⟩ := h.dead number hmem
    obtain rfl : child = child' := Option.some.inj (hc.symm.trans hc')
    rcases hended with hz | hr
    · exact hruns.1 ⟨_, hz⟩
    · exact hruns.2 _ hr
  refine ⟨h.shared, ?_, ?_⟩
  · intro i hi
    have hne : i ≠ number := by
      rintro rfl
      simp at hi
    have hplace := h.alive i fun hmem => hi (List.mem_append_left _ hmem)
    rw [hplace]
    simp only [Server.config, Function.update_of_ne hne]
  · intro i hi
    rcases eq_or_ne i number with rfl | hne
    · have hsent : (child.phase.place []).sent = (d.place i).sent := by
        rw [h.alive i hnot, place_of_child hc]
        exact sent_place _ _
      refine ⟨child.killed, Function.update_self .., Or.inl ?_⟩
      rw [← hsent]
      rfl
    · have hmem : ServerEvent.kill i ∈ events := by simpa [hne] using hi
      obtain ⟨child', hc', hended⟩ := h.dead i hmem
      exact ⟨child', (Function.update_of_ne hne ..).trans hc', hended⟩

/-- **The children that live run as if none had died.** -/
theorem Startup.Crashing.tracks (h : st.Crashing events s) : ∃ d, s.Tracks st events d ∧
    Interleaving (fun _ => childStep st.directory) (fun _ _ => True) (serving st.clients st.files) d := by
  induction h with
  | start => exact ⟨serving st.clients st.files, ⟨rfl, fun _ _ => rfl, nofun⟩, .refl⟩
  | @event events s s' e hcrashing hstep ih =>
    obtain ⟨d, htracks, hinter⟩ := ih
    cases e with
    | act a =>
      obtain ⟨d', htracks', rfl | ⟨i, q, files, hnext, rfl⟩⟩ := htracks.act hcrashing.known.1 hstep
      · exact ⟨d', htracks', hinter⟩
      · exact ⟨_, htracks', hinter.step trivial hnext⟩
    | kill number => exact ⟨d, htracks.kill hstep, hinter⟩

end Tracks

/-- The child of the first client dies before it has read its chunk. -/
theorem crashing_noteAndOther : ∃ events s child, (Startup.plain noteAndOther).Crashing events s ∧
    .kill 0 ∈ events ∧ s.parent.running = true ∧ s.child 0 = some child ∧ child.IsZombie := by
  have hforked : (Startup.plain noteAndOther).Crashing
      ([] ++ [Action.accept 4, .fork, .closeSocket, .child 0].map .act) _ := .append .start rfl
  exact ⟨_, _, _, hforked.event (e := .kill 0) rfl, by simp, rfl, rfl, ⟨[], rfl⟩⟩

/-- **The dead are waited for.**  In every run, whatever children die: a child that has come to its end
waits for the handler that runs or for the one that the signal is going to start; one that died holds no
descriptor; and the handler comes to its end from every state, where all of them were waited for and
`errno` is as the calls of `main` left it. -/
theorem reaped_despite_crashes (h : st.Crashing events s) (hrunning : s.parent.running = true) :
    (∀ i child, s.child i = some child → child.IsZombie →
      s.pending = true ∨ ∃ saved, s.handler = .reaping saved) ∧
    (∀ i child, .kill i ∈ events → s.child i = some child → child.table = fun _ => none) ∧
    ∃ acts : List Action, (∀ a ∈ acts, a.ofHandler = true) ∧ st.Crashing (events ++ acts.map .act)
      (s.allReaped (mainErrno st.errno (actionsOf events))) := by
  obtain ⟨htables, hwaits, herrno⟩ := h.known
  refine ⟨fun i child hc hz => hwaits.zombie i child hc hz hrunning, fun i child hkilled hc => ?_, ?_⟩
  · obtain ⟨d, htracks, -⟩ := h.tracks
    obtain ⟨child', hc', hended⟩ := htracks.dead i hkilled
    obtain rfl : child = child' := Option.some.inj (hc.symm.trans hc')
    have htable := (htables.child i child hc).2
    rcases hended with hphase | hphase <;> rwa [hphase] at htable
  · obtain ⟨acts, hacts, hrun⟩ := run_allReaped htables hwaits herrno hrunning
    exact ⟨acts, hacts, h.append hrun⟩

theorem reaped_despite_crashes_plain : ∃ events s child, ∃ acts : List Action,
    (Startup.plain noteAndOther).Crashing events s ∧ s.child 0 = some child ∧ child.IsZombie ∧
    child.table = (fun _ => none) ∧ (Startup.plain noteAndOther).Crashing
      (events ++ acts.map .act) (s.allReaped (mainErrno 0 (actionsOf events))) := by
  obtain ⟨events, s, child, hcrashing, hkilled, hrunning, hc, hz⟩ := crashing_noteAndOther
  obtain ⟨-, hdead, acts, -, hlast⟩ := reaped_despite_crashes hcrashing hrunning
  exact ⟨events, s, child, acts, hcrashing, hc, hz, hdead 0 child hkilled hc, hlast⟩

end Crashes

end HttpServer

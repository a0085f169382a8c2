import HttpServer.Children
import HttpServer.Files

/-!
# The server as a whole

The loop of `main` accepts connections and forks a child for each of them; the children run at the
same time, on the same files, and `SIGCHLD` interrupts the parent between any two of its steps.  The
machine of this file has all of this: the table of descriptors of every process, the errors of
`accept` and `fork`, `errno`, the signal and its handler, and the steps of the children.

What happens to a client is what `connectionLoop` says (`served_by_server`), whoever else is served
at the time; who holds which descriptor is known in every state (`holdings_iff`); and no child that has
exited stays one that nobody waits for (`reaped_by_server`).
-/

namespace HttpServer

open Lib

/-! ### The machine -/

/-- What a descriptor stands for. -/
inductive Handle where
  | stream
  | listener
  | connection (number : ℕ)
  deriving DecidableEq

abbrev Descriptors : Type := ℕ → Option Handle

/-- The number that the kernel gives to a new descriptor. -/
def LowestFree (table : Descriptors) (fd : ℕ) : Prop := table fd = none ∧ ∀ k < fd, table k ≠ none

instance (table : Descriptors) (fd : ℕ) : Decidable (LowestFree table fd) :=
  inferInstanceAs (Decidable (_ ∧ _))

/-- Where the parent is in its loop, with the value of `socket_fd`; or behind the loop, with the
number that it has reported. -/
inductive ParentPlace where
  | accepting
  | accepted (socketFd : ℕ)
  | forked (socketFd : ℕ)
  | failed
  | returned (reported : ℕ)
  deriving DecidableEq

def ParentPlace.running : ParentPlace → Bool
  | .returned _ => false
  | _ => true

/-- Where `sigchld_handler` is, with the value of `saved_errno`. -/
inductive HandlerPlace where
  | idle
  | reaping (savedErrno : ℕ)
  | restoring (savedErrno : ℕ)
  deriving DecidableEq

/-- What becomes of a child: it is forked, serves its connection, closes it, exits and is waited for. -/
inductive ChildPhase where
  | forked
  | serving (place : ChildPlace)
  | closed (sent : List Reply)
  | zombie (sent : List Reply)
  | reaped (sent : List Reply)

structure Child where
  phase : ChildPhase
  socketFd : ℕ
  table : Descriptors

/-- What `main` has when it comes to its loop, and the clients that are going to connect: what each
call of `recv` is going to deliver to them, and the environment of the turn that it begins. -/
structure Startup where
  directory : Option Bytes
  table : Descriptors
  serverFd : ℕ
  errno : ℕ
  files : Bytes → FileState
  clients : ℕ → List (Env × Bytes)
  listens : table serverFd = some .listener
  listener_only : ∀ fd, table fd = some .listener → fd = serverFd
  no_connection : ∀ fd number, table fd ≠ some (.connection number)

/-- The connections are numbered as they are accepted, and a child by its connection. -/
structure Server where
  parent : ParentPlace
  table : Descriptors
  handler : HandlerPlace
  pending : Bool
  errno : ℕ
  accepted : ℕ
  child : ℕ → Option Child
  files : Bytes → FileState

def ECHILD : ℕ := 10

/-- What happens next: a call of the parent with what the kernel makes of it, a signal, a step of its
handler, or a step of a child. -/
inductive Action where
  | accept (socketFd : ℕ)
  | acceptFails (error : ℕ)
  | report
  | fork
  | forkFails (error : ℕ)
  | closeSocket
  | signal
  | reap (number : ℕ)
  | noneToReap
  | restore
  | child (number : ℕ)
  deriving DecidableEq

def Child.IsZombie (child : Child) : Prop := ∃ sent, child.phase = .zombie sent

instance (child : Child) : Decidable child.IsZombie :=
  match h : child.phase with
  | .zombie sent => isTrue ⟨sent, h⟩
  | .forked | .serving _ | .closed _ | .reaped _ => isFalse fun ⟨_, hz⟩ => by simp [h] at hz

/-- Whether `waitpid` still knows the child. -/
def Child.Unreaped (child : Child) : Prop := ∀ sent, child.phase ≠ .reaped sent

instance (child : Child) : Decidable child.Unreaped :=
  match h : child.phase with
  | .reaped sent => isFalse fun hn => hn sent h
  | .forked | .serving _ | .closed _ | .zombie _ => isTrue fun sent => by simp [h]

/-- The next step of a child: it closes the listener, serves its connection, closes it and exits. -/
def Child.step (st : Startup) (number : ℕ) (child : Child) (files : Bytes → FileState) :
    Option (Child × (Bytes → FileState)) :=
  match child.phase with
  | .forked => some ({ child with
      phase := .serving (.turn (st.clients number) [])
      table := Function.update child.table st.serverFd none }, files)
  | .serving (.exited sent) => some ({ child with
      phase := .closed sent
      table := Function.update child.table child.socketFd none }, files)
  | .serving place =>
    (childStep st.directory place files).map fun (place, files) =>
      ({ child with phase := .serving place }, files)
  | .closed sent => some ({ child with phase := .zombie sent, table := fun _ => none }, files)
  | .zombie _ | .reaped _ => none

/-- The children whose connections were accepted. -/
def Server.AnyChild (s : Server) (P : Child → Prop) : Prop :=
  ∃ number < s.accepted, ∃ child, s.child number = some child ∧ P child

instance (s : Server) (P : Child → Prop) [DecidablePred P] : Decidable (s.AnyChild P) :=
  have : ∀ number, Decidable (∃ child, s.child number = some child ∧ P child) := fun number =>
    match h : s.child number with
    | none => isFalse fun ⟨_, hc, _⟩ => by cases hc
    | some child => decidable_of_iff (P child) ⟨fun hp => ⟨child, rfl, hp⟩, fun ⟨_, hc, hp⟩ => by
        cases hc
        exact hp⟩
  inferInstanceAs (Decidable (∃ number, number < s.accepted ∧ _))

/-- The parent makes its next call, as long as its handler is not running. -/
def Server.At (s : Server) (place : ParentPlace) : Prop := s.parent = place ∧ s.handler = .idle

instance (s : Server) (place : ParentPlace) : Decidable (s.At place) :=
  inferInstanceAs (Decidable (_ ∧ _))

/-- What an action makes of the server, when it can happen. -/
def Server.step (st : Startup) (s : Server) : Action → Option Server
  | .accept fd =>
    if s.At .accepting ∧ LowestFree s.table fd then
      some { s with
        parent := .accepted fd
        table := Function.update s.table fd (some (.connection s.accepted))
        accepted := s.accepted + 1 }
    else none
  | .acceptFails error =>
    if s.At .accepting then some { s with parent := .failed, errno := error } else none
  -- the message names `errno`, and the exit closes what is open
  | .report =>
    if s.At .failed then some { s with parent := .returned s.errno, table := fun _ => none } else none
  | .fork =>
    match s.parent with
    | .accepted fd =>
      if s.handler = .idle then
        some { s with
          parent := .forked fd
          child := Function.update s.child (s.accepted - 1) (some ⟨.forked, fd, s.table⟩) }
      else none
    | _ => none
  -- no child, and the loop goes on all the same
  | .forkFails error =>
    match s.parent with
    | .accepted fd =>
      if s.handler = .idle then some { s with parent := .forked fd, errno := error } else none
    | _ => none
  | .closeSocket =>
    match s.parent with
    | .forked fd =>
      if s.handler = .idle then
        some { s with parent := .accepting, table := Function.update s.table fd none }
      else none
    | _ => none
  -- the signal is blocked while its handler runs
  | .signal =>
    if s.pending ∧ s.handler = .idle ∧ s.parent.running then
      some { s with pending := false, handler := .reaping s.errno }
    else none
  | .reap number =>
    match s.handler, s.child number with
    | .reaping _, some child =>
      match child.phase with
      | .zombie sent => some { s with
          child := Function.update s.child number (some { child with phase := .reaped sent }) }
      | _ => none
    | _, _ => none
  -- `waitpid` returns zero, or fails when there is no child left
  | .noneToReap =>
    match s.handler with
    | .reaping savedErrno =>
      if s.AnyChild Child.IsZombie then none
      else some { s with
        handler := .restoring savedErrno
        errno := if s.AnyChild Child.Unreaped then s.errno else ECHILD }
    | _ => none
  | .restore =>
    match s.handler with
    | .restoring savedErrno => some { s with handler := .idle, errno := savedErrno }
    | _ => none
  | .child number =>
    (s.child number).bind fun child =>
      (child.step st number s.files).map fun (child', files) => { s with
        child := Function.update s.child number (some child')
        files := files
        pending := s.pending || (child'.IsZombie && s.parent.running) }

/-- What can happen, case by case. -/
inductive Server.Step (st : Startup) (s : Server) : Action → Server → Prop
  | accept {fd : ℕ} (parent : s.parent = .accepting) (handler : s.handler = .idle)
      (lowest : LowestFree s.table fd) : Server.Step st s (.accept fd) { s with
        parent := .accepted fd
        table := Function.update s.table fd (some (.connection s.accepted))
        accepted := s.accepted + 1 }
  | acceptFails {error : ℕ} (parent : s.parent = .accepting) (handler : s.handler = .idle) :
      Server.Step st s (.acceptFails error) { s with parent := .failed, errno := error }
  | report (parent : s.parent = .failed) (handler : s.handler = .idle) :
      Server.Step st s .report { s with parent := .returned s.errno, table := fun _ => none }
  | fork {fd : ℕ} (parent : s.parent = .accepted fd) (handler : s.handler = .idle) :
      Server.Step st s .fork { s with
        parent := .forked fd
        child := Function.update s.child (s.accepted - 1) (some ⟨.forked, fd, s.table⟩) }
  | forkFails {fd error : ℕ} (parent : s.parent = .accepted fd) (handler : s.handler = .idle) :
      Server.Step st s (.forkFails error) { s with parent := .forked fd, errno := error }
  | closeSocket {fd : ℕ} (parent : s.parent = .forked fd) (handler : s.handler = .idle) :
      Server.Step st s .closeSocket
        { s with parent := .accepting, table := Function.update s.table fd none }
  | signal (pending : s.pending = true) (handler : s.handler = .idle)
      (running : s.parent.running = true) :
      Server.Step st s .signal { s with pending := false, handler := .reaping s.errno }
  | reap {savedErrno number : ℕ} {child : Child} {sent : List Reply}
      (handler : s.handler = .reaping savedErrno) (found : s.child number = some child)
      (zombie : child.phase = .zombie sent) : Server.Step st s (.reap number) { s with
        child := Function.update s.child number (some { child with phase := .reaped sent }) }
  | noneToReap {savedErrno : ℕ} (handler : s.handler = .reaping savedErrno)
      (none : ¬ s.AnyChild Child.IsZombie) : Server.Step st s .noneToReap { s with
        handler := .restoring savedErrno
        errno := if s.AnyChild Child.Unreaped then s.errno else ECHILD }
  | restore {savedErrno : ℕ} (handler : s.handler = .restoring savedErrno) :
      Server.Step st s .restore { s with handler := .idle, errno := savedErrno }
  | child {number : ℕ} {child child' : Child} {files : Bytes → FileState}
      (found : s.child number = some child)
      (step : child.step st number s.files = some (child', files)) :
      Server.Step st s (.child number) { s with
        child := Function.update s.child number (some child')
        files := files
        pending := s.pending || (child'.IsZombie && s.parent.running) }

theorem Server.step_cases {st : Startup} {s s' : Server} {a : Action} (h : s.step st a = some s') :
    Server.Step st s a s' := by
  cases a with
  | accept fd =>
    simp only [Server.step] at h
    split at h
    · rename_i hg
      cases h
      exact .accept hg.1.1 hg.1.2 hg.2
    · cases h
  | acceptFails error =>
    simp only [Server.step] at h
    split at h
    · rename_i hg
      cases h
      exact .acceptFails hg.1 hg.2
    · cases h
  | report =>
    simp only [Server.step] at h
    split at h
    · rename_i hg
      cases h
      exact .report hg.1 hg.2
    · cases h
  | fork =>
    simp only [Server.step] at h
    split at h
    · rename_i fd hp
      split at h
      · rename_i hi
        cases h
        exact .fork hp hi
      · cases h
    · cases h
  | forkFails error =>
    simp only [Server.step] at h
    split at h
    · rename_i fd hp
      split at h
      · rename_i hi
        cases h
        exact .forkFails hp hi
      · cases h
    · cases h
  | closeSocket =>
    simp only [Server.step] at h
    split at h
    · rename_i fd hp
      split at h
      · rename_i hi
        cases h
        exact .closeSocket hp hi
      · cases h
    · cases h
  | signal =>
    simp only [Server.step] at h
    split at h
    · rename_i hg
      cases h
      exact .signal hg.1 hg.2.1 hg.2.2
    · cases h
  | reap number =>
    simp only [Server.step] at h
    split at h
    · rename_i savedErrno child hh hc
      split at h
      · rename_i sent hz
        cases h
        exact .reap hh hc hz
      · cases h
    · cases h
  | noneToReap =>
    simp only [Server.step] at h
    split at h
    · rename_i savedErrno hh
      split at h
      · cases h
      · rename_i hn
        cases h
        exact .noneToReap hh hn
    · cases h
  | restore =>
    simp only [Server.step] at h
    split at h
    · rename_i savedErrno hh
      cases h
      exact .restore hh
    · cases h
  | child number =>
    simp only [Server.step] at h
    obtain ⟨child, hc, h⟩ := Option.bind_eq_some_iff.1 h
    obtain ⟨⟨child', files⟩, hs, h⟩ := Option.map_eq_some_iff.1 h
    cases h
    exact .child hc hs

def Startup.server (st : Startup) : Server where
  parent := .accepting
  table := st.table
  handler := .idle
  pending := false
  errno := st.errno
  accepted := 0
  child := fun _ => none
  files := st.files

/-- The states that actions lead to, with the actions that led there. -/
inductive Startup.Trace (st : Startup) : List Action → Server → Prop
  | start : st.Trace [] st.server
  | act {actions : List Action} {s s' : Server} {a : Action} (trace : st.Trace actions s)
      (step : s.step st a = some s') : st.Trace (actions ++ [a]) s'

section Runs

variable {st : Startup} {s s' : Server} {actions : List Action}

def Server.run (st : Startup) (s : Server) : List Action → Option Server
  | [] => some s
  | a :: actions => (s.step st a).bind fun s => s.run st actions

theorem Startup.Trace.append {more : List Action} (h : st.Trace actions s)
    (hrun : s.run st more = some s') : st.Trace (actions ++ more) s' := by
  induction more generalizing actions s with
  | nil =>
    cases hrun
    rwa [List.append_nil]
  | cons a more ih =>
    obtain ⟨t, hstep, hrun⟩ := Option.bind_eq_some_iff.1 hrun
    rw [List.append_cons]
    exact ih (h.act hstep) hrun

theorem Startup.trace_of_run (st : Startup) (actions : List Action)
    (hrun : st.server.run st actions = some s) : st.Trace actions s :=
  Startup.Trace.start.append hrun

theorem run_append {t : Server} {as bs : List Action} (h : s.run st as = some t) :
    s.run st (as ++ bs) = t.run st bs := by
  induction as generalizing s with
  | nil =>
    cases h
    rfl
  | cons a as ih =>
    obtain ⟨u, hstep, hrun⟩ := Option.bind_eq_some_iff.1 h
    simp only [List.cons_append, Server.run, hstep, Option.bind_some]
    exact ih hrun

end Runs

def Startup.plain (clients : ℕ → List (Env × Bytes)) : Startup where
  directory := some (lit "/srv/")
  table fd := if fd < 3 then some .stream else if fd = 3 then some .listener else none
  serverFd := 3
  errno := 0
  files := fun _ => some (lit "old")
  clients := clients
  listens := rfl
  listener_only := by
    intro fd h
    by_contra hne
    simp only [hne, if_false] at h
    split at h <;> cases h
  no_connection := by
    intro fd number h
    split at h
    · cases h
    · split at h <;> cases h

/-! ### Who holds which descriptor -/

section Descriptors

variable {st : Startup} {s s' : Server} {a : Action} {actions : List Action}

/-- The descriptors of the parent, by its place; the last connection that was accepted has the number
`accepted - 1`. -/
def Startup.parentTable (st : Startup) (accepted : ℕ) : ParentPlace → Descriptors
  | .accepting | .failed => st.table
  | .accepted fd | .forked fd => Function.update st.table fd (some (.connection (accepted - 1)))
  | .returned _ => fun _ => none

/-- The descriptors of a child, by its phase. -/
def Startup.childTable (st : Startup) (number fd : ℕ) : ChildPhase → Descriptors
  | .forked => Function.update st.table fd (some (.connection number))
  | .serving _ =>
    Function.update (Function.update st.table fd (some (.connection number))) st.serverFd none
  | .closed _ => Function.update st.table st.serverFd none
  | .zombie _ | .reaped _ => fun _ => none

/-- What is known of the descriptors. -/
structure Server.Tables (st : Startup) (s : Server) : Prop where
  parent : s.table = st.parentTable s.accepted s.parent
  socket : ∀ fd, s.parent = .accepted fd ∨ s.parent = .forked fd →
    LowestFree st.table fd ∧ 0 < s.accepted
  /-- The connection that was just accepted has no child yet. -/
  fresh : ∀ fd, s.parent = .accepted fd → s.child (s.accepted - 1) = none
  number : ∀ i child, s.child i = some child → i < s.accepted
  child : ∀ i child, s.child i = some child →
    LowestFree st.table child.socketFd ∧
      child.table = st.childTable i child.socketFd child.phase

theorem LowestFree.ne_serverFd {fd : ℕ} (h : LowestFree st.table fd) : fd ≠ st.serverFd := by
  rintro rfl
  have := h.1
  rw [st.listens] at this
  cases this

theorem LowestFree.unique {table : Descriptors} {fd fd' : ℕ} (h : LowestFree table fd)
    (h' : LowestFree table fd') : fd = fd' := by
  rcases lt_trichotomy fd fd' with hlt | heq | hlt
  · exact absurd h.1 (h'.2 fd hlt)
  · exact heq
  · exact absurd h'.1 (h.2 fd' hlt)

theorem childTable_step {number : ℕ} {child child' : Child} {files files' : Bytes → FileState}
    (hfd : LowestFree st.table child.socketFd)
    (h : child.table = st.childTable number child.socketFd child.phase)
    (hstep : child.step st number files = some (child', files')) :
    child'.socketFd = child.socketFd ∧
      child'.table = st.childTable number child'.socketFd child'.phase := by
  obtain ⟨phase, fd, table⟩ := child
  simp only at hfd h
  subst h
  cases phase with
  | forked =>
    cases hstep
    exact ⟨rfl, rfl⟩
  | serving place =>
    cases place with
    | exited sent =>
      cases hstep
      refine ⟨rfl, ?_⟩
      -- the two descriptors are closed in the one order or the other
      have hne := hfd.ne_serverFd
      have hfree : Function.update st.table fd none = st.table := by
        rw [← hfd.1, Function.update_eq_self]
      simp only [Startup.childTable]
      rw [Function.update_comm hne, Function.update_idem, ← Function.update_comm hne, hfree]
    | turn results sent =>
      obtain ⟨q, -, hq⟩ := Option.map_eq_some_iff.1 hstep
      cases hq
      exact ⟨rfl, rfl⟩
    | file env request path access place results sent =>
      obtain ⟨q, -, hq⟩ := Option.map_eq_some_iff.1 hstep
      cases hq
      exact ⟨rfl, rfl⟩
  | closed sent =>
    cases hstep
    exact ⟨rfl, rfl⟩
  | zombie sent => cases hstep
  | reaped sent => cases hstep

theorem child_of_update {i number : ℕ} {child new : Child}
    (h : Function.update s.child number (some new) i = some child) :
    i = number ∧ child = new ∨ i ≠ number ∧ s.child i = some child := by
  rcases eq_or_ne i number with rfl | hne
  · rw [Function.update_self] at h
    exact Or.inl ⟨rfl, (Option.some.inj h).symm⟩
  · rw [Function.update_of_ne hne] at h
    exact Or.inr ⟨hne, h⟩

theorem Server.Tables.putChild {number : ℕ} {child : Child} (h : s.Tables st)
    (hc : s.child number = some child) (new : Child) (hlow : LowestFree st.table new.socketFd)
    (htable : new.table = st.childTable number new.socketFd new.phase) (files : Bytes → FileState)
    (pending : Bool) : Server.Tables st { s with
      child := Function.update s.child number (some new)
      files := files
      pending := pending } := by
  refine ⟨h.parent, h.socket, ?_, ?_, ?_⟩
  · intro fd hp
    have hne : s.accepted - 1 ≠ number := by
      rintro rfl
      rw [h.fresh fd hp] at hc
      cases hc
    simp only [Function.update_of_ne hne]
    exact h.fresh fd hp
  · intro i c hc'
    rcases child_of_update hc' with ⟨rfl, -⟩ | ⟨-, hc'⟩
    · exact h.number i child hc
    · exact h.number i c hc'
  · intro i c hc'
    rcases child_of_update hc' with ⟨rfl, rfl⟩ | ⟨-, hc'⟩
    · exact ⟨hlow, htable⟩
    · exact h.child i c hc'

theorem Server.Tables.step (h : s.Tables st) (hstep : s.step st a = some s') : s'.Tables st := by
  have hnone : ∀ i, s.accepted ≤ i → s.child i = none := by
    intro i hi
    rcases Option.eq_none_or_eq_some (s.child i) with hc | ⟨child, hc⟩
    · exact hc
    · exact absurd (h.number i child hc) (by omega)
  have hparent := h.parent
  cases Server.step_cases hstep with
  | @accept fd hp hi hlow =>
    rw [hp] at hparent
    simp only [Startup.parentTable] at hparent
    rw [hparent] at hlow
    refine ⟨by simp [hparent, Startup.parentTable], ?_, ?_, ?_, h.child⟩
    · rintro fd' (heq | heq)
      · cases heq
        exact ⟨hlow, Nat.succ_pos _⟩
      · cases heq
    · intro fd' _
      exact hnone _ (by simp)
    · intro i child hc
      exact (h.number i child hc).trans (Nat.lt_succ_self _)
  | acceptFails hp hi =>
    rw [hp] at hparent
    exact ⟨hparent, by simp, by simp, h.number, h.child⟩
  | report hp hi => exact ⟨rfl, by simp, by simp, h.number, h.child⟩
  | @fork fd hp hi =>
    rw [hp] at hparent
    obtain ⟨hlow, hpos⟩ := h.socket fd (Or.inl hp)
    refine ⟨hparent, ?_, by simp, ?_, ?_⟩
    · rintro fd' (heq | heq)
      · cases heq
      · cases heq
        exact ⟨hlow, hpos⟩
    · intro i child hc
      rcases child_of_update hc with ⟨rfl, -⟩ | ⟨-, hc⟩
      · exact Nat.sub_lt hpos Nat.one_pos
      · exact h.number i child hc
    · intro i child hc
      rcases child_of_update hc with ⟨rfl, rfl⟩ | ⟨-, hc⟩
      · exact ⟨hlow, hparent⟩
      · exact h.child i child hc
  | @forkFails fd error hp hi =>
    rw [hp] at hparent
    refine ⟨hparent, ?_, by simp, h.number, h.child⟩
    rintro fd' (heq | heq)
    · cases heq
    · cases heq
      exact h.socket fd (Or.inl hp)
  | @closeSocket fd hp hi =>
    rw [hp] at hparent
    obtain ⟨hlow, -⟩ := h.socket fd (Or.inr hp)
    refine ⟨?_, by simp, by simp, h.number, h.child⟩
    simp only [hparent, Startup.parentTable]
    rw [Function.update_idem, ← hlow.1, Function.update_eq_self]
  | signal hpend hi hrun => exact ⟨h.parent, h.socket, h.fresh, h.number, h.child⟩
  | @reap savedErrno number child sent hh hc hz =>
    obtain ⟨hlow, htable⟩ := h.child number child hc
    rw [hz] at htable
    exact h.putChild hc { child with phase := .reaped sent } hlow htable s.files s.pending
  | noneToReap hh hn => exact ⟨h.parent, h.socket, h.fresh, h.number, h.child⟩
  | restore hh => exact ⟨h.parent, h.socket, h.fresh, h.number, h.child⟩
  | @child number child child' files hc hcstep =>
    obtain ⟨hlow, htable⟩ := h.child number child hc
    obtain ⟨hfd, htable'⟩ := childTable_step hlow htable hcstep
    exact h.putChild hc child' (hfd ▸ hlow) htable' files _

theorem Startup.Trace.tables (h : st.Trace actions s) : s.Tables st := by
  induction h with
  | start =>
    exact ⟨rfl, by simp [Startup.server], by simp [Startup.server], by simp [Startup.server],
      by simp [Startup.server]⟩
  | act _ hstep ih => exact ih.step hstep

/-- The descriptors that a process can use. -/
inductive Process where
  | parent
  | child (number : ℕ)

def Server.tableOf (s : Server) : Process → Descriptors
  | .parent => s.table
  | .child number => (s.child number).elim (fun _ => none) Child.table

def Server.Holds (s : Server) (p : Process) (handle : Handle) : Prop :=
  ∃ fd, s.tableOf p fd = some handle

def ParentPlace.HasSocket (place : ParentPlace) : Prop := ∃ fd, place = .accepted fd ∨ place = .forked fd

def ChildPhase.Connected (phase : ChildPhase) : Prop := phase = .forked ∨ ∃ place, phase = .serving place

theorem connection_update_iff (st : Startup) (fd : ℕ) {number i : ℕ} :
    (∃ k, Function.update st.table fd (some (.connection number)) k = some (.connection i)) ↔
      i = number := by
  constructor
  · rintro ⟨k, hk⟩
    by_cases hkf : k = fd
    · rw [hkf, Function.update_self] at hk
      exact (Handle.connection.inj (Option.some.inj hk)).symm
    · rw [Function.update_of_ne hkf] at hk
      exact absurd hk (st.no_connection k i)
  · rintro rfl
    exact ⟨fd, Function.update_self ..⟩

theorem connection_childTable_iff {number fd i : ℕ} {phase : ChildPhase}
    (hfd : LowestFree st.table fd) :
    (∃ k, st.childTable number fd phase k = some (.connection i)) ↔ i = number ∧ phase.Connected := by
  cases phase with
  | forked =>
    simp only [Startup.childTable, connection_update_iff]
    exact ⟨fun h => ⟨h, Or.inl rfl⟩, And.left⟩
  | serving place =>
    have hconnected : (ChildPhase.serving place).Connected := Or.inr ⟨place, rfl⟩
    simp only [Startup.childTable, hconnected, and_true, ← connection_update_iff st fd]
    refine exists_congr fun k => ?_
    by_cases hk : k = st.serverFd
    · -- the listener is closed, and was no connection
      rw [hk, Function.update_self, Function.update_of_ne hfd.ne_serverFd.symm, st.listens]
      simp
    · rw [Function.update_of_ne hk]
  | closed sent =>
    refine iff_of_false ?_ (by simp [ChildPhase.Connected])
    rintro ⟨k, hk⟩
    rw [Startup.childTable, Function.update_apply] at hk
    split at hk
    · cases hk
    · exact st.no_connection k i hk
  | zombie sent => simp [Startup.childTable, ChildPhase.Connected]
  | reaped sent => simp [Startup.childTable, ChildPhase.Connected]

theorem listener_childTable_iff {number fd : ℕ} {phase : ChildPhase} (hfd : LowestFree st.table fd) :
    (∃ k, st.childTable number fd phase k = some .listener) ↔ phase = .forked := by
  cases phase with
  | forked =>
    refine iff_of_true ⟨st.serverFd, ?_⟩ rfl
    rw [Startup.childTable, Function.update_of_ne hfd.ne_serverFd.symm, st.listens]
  | serving place =>
    refine iff_of_false ?_ (by simp)
    rintro ⟨k, hk⟩
    rw [Startup.childTable, Function.update_apply, Function.update_apply] at hk
    split at hk
    · cases hk
    split at hk
    · cases hk
    · rename_i hne _
      exact hne (st.listener_only k hk)
  | closed sent =>
    refine iff_of_false ?_ (by simp)
    rintro ⟨k, hk⟩
    rw [Startup.childTable, Function.update_apply] at hk
    split at hk
    · cases hk
    · rename_i hne
      exact hne (st.listener_only k hk)
  | zombie sent => simp [Startup.childTable]
  | reaped sent => simp [Startup.childTable]

theorem Server.Tables.holds_child (h : s.Tables st) (number : ℕ) (handle : Handle) :
    s.Holds (.child number) handle ↔ ∃ child, s.child number = some child ∧
      ∃ fd, st.childTable number child.socketFd child.phase fd = some handle := by
  unfold Server.Holds Server.tableOf
  rcases Option.eq_none_or_eq_some (s.child number) with hc | ⟨child, hc⟩
  · simp [hc]
  · simp [hc, (h.child number child hc).2]

/-- **Who holds what.**  In every state the parent holds a connection exactly between `accept` and
`close`, and only the last one; a child holds no connection but its own, and that until it closes it;
the listener is held by the parent as long as it runs and by children that have not closed it yet.  So
a connection of which the child has closed its end is held by nobody, once the parent goes on; and
when the parent accepts, its descriptors are those that it started with, so that every connection gets
the same number. -/
theorem holdings_iff (h : st.Trace actions s) :
    (∀ i, s.Holds .parent (.connection i) ↔ i + 1 = s.accepted ∧ s.parent.HasSocket) ∧
    (∀ number i, s.Holds (.child number) (.connection i) ↔
      i = number ∧ ∃ child, s.child number = some child ∧ child.phase.Connected) ∧
    (s.Holds .parent .listener ↔ s.parent.running = true) ∧
    (∀ number, s.Holds (.child number) .listener ↔
      ∃ child, s.child number = some child ∧ child.phase = .forked) ∧
    (s.parent = .accepting → s.table = st.table) ∧
    ∀ fd, s.parent = .accepted fd ∨ s.parent = .forked fd → LowestFree st.table fd := by
  have htables := h.tables
  have hparent := htables.parent
  refine ⟨fun i => ?_, fun number i => ?_, ?_, fun number => ?_, ?_, fun fd hfd =>
    (htables.socket fd hfd).1⟩
  · unfold Server.Holds Server.tableOf
    simp only [hparent]
    have hbare : ¬ ∃ k, st.table k = some (.connection i) := fun ⟨k, hk⟩ => st.no_connection k i hk
    cases hp : s.parent with
    | accepting => exact iff_of_false hbare (by simp [ParentPlace.HasSocket])
    | failed => exact iff_of_false hbare (by simp [ParentPlace.HasSocket])
    | returned r => simp [Startup.parentTable, ParentPlace.HasSocket]
    | accepted fd =>
      have hpos := (htables.socket fd (Or.inl hp)).2
      have hsocket : (ParentPlace.accepted fd).HasSocket := ⟨fd, Or.inl rfl⟩
      simp only [Startup.parentTable, connection_update_iff, hsocket, and_true]
      omega
    | forked fd =>
      have hpos := (htables.socket fd (Or.inr hp)).2
      have hsocket : (ParentPlace.forked fd).HasSocket := ⟨fd, Or.inr rfl⟩
      simp only [Startup.parentTable, connection_update_iff, hsocket, and_true]
      omega
  · rw [htables.holds_child]
    constructor
    · rintro ⟨child, hc, hk⟩
      obtain ⟨rfl, hconnected⟩ := (connection_childTable_iff (htables.child number child hc).1).1 hk
      exact ⟨rfl, child, hc, hconnected⟩
    · rintro ⟨rfl, child, hc, hconnected⟩
      exact ⟨child, hc, (connection_childTable_iff (htables.child i child hc).1).2 ⟨rfl, hconnected⟩⟩
  · unfold Server.Holds Server.tableOf
    simp only [hparent]
    have hupdate : ∀ fd handle, LowestFree st.table fd →
        ∃ k, Function.update st.table fd (some handle) k = some .listener := by
      intro fd handle hfd
      exact ⟨st.serverFd, by rw [Function.update_of_ne hfd.ne_serverFd.symm, st.listens]⟩
    cases hp : s.parent with
    | accepting => exact iff_of_true ⟨st.serverFd, st.listens⟩ rfl
    | failed => exact iff_of_true ⟨st.serverFd, st.listens⟩ rfl
    | returned r => simp [Startup.parentTable, ParentPlace.running]
    | accepted fd => exact iff_of_true (hupdate fd _ (htables.socket fd (Or.inl hp)).1) rfl
    | forked fd => exact iff_of_true (hupdate fd _ (htables.socket fd (Or.inr hp)).1) rfl
  · rw [htables.holds_child]
    refine exists_congr fun child => and_congr_right fun hc => ?_
    exact listener_childTable_iff (htables.child number child hc).1
  · intro hp
    rw [hparent, hp]
    rfl

/-- One connection is with its child, and the next one was dropped because `fork` failed. -/
theorem holdings_iff_plain : ∃ s, (Startup.plain fun _ => []).Trace
      [.accept 4, .fork, .closeSocket, .accept 4, .forkFails 11, .closeSocket] s ∧
    s.Holds (.child 0) (.connection 0) ∧ ∀ p, ¬ s.Holds p (.connection 1) := by
  have htrace := Startup.trace_of_run (Startup.plain fun _ => [])
    [.accept 4, .fork, .closeSocket, .accept 4, .forkFails 11, .closeSocket] rfl
  obtain ⟨hparent, hchild, -⟩ := holdings_iff htrace
  refine ⟨_, htrace, (hchild 0 0).2 ⟨rfl, _, rfl, Or.inl rfl⟩, fun p hp => ?_⟩
  cases p with
  | parent =>
    obtain ⟨-, fd, hfd | hfd⟩ := (hparent 1).1 hp
    · cases hfd
    · cases hfd
  | child number =>
    obtain ⟨rfl, child, hc, -⟩ := (hchild number 1).1 hp
    cases hc

end Descriptors

/-! ### `errno` and the children that have exited -/

section Handler

variable {st : Startup} {s s' : Server} {a : Action} {actions : List Action}

/-- The number that the calls of `main` left in `errno`. -/
def mainErrno (errno : ℕ) : List Action → ℕ
  | [] => errno
  | .acceptFails error :: actions | .forkFails error :: actions => mainErrno error actions
  | _ :: actions => mainErrno errno actions

theorem mainErrno_append (errno : ℕ) (as bs : List Action) :
    mainErrno errno (as ++ bs) = mainErrno (mainErrno errno as) bs := by
  induction as generalizing errno with
  | nil => rfl
  | cons a as ih => cases a <;> exact ih _

/-- What is known of `errno`, when `error` is what the calls of `main` left there. -/
structure Server.KeepsErrno (s : Server) (actions : List Action) (error : ℕ) : Prop where
  idle : s.handler = .idle → s.errno = error
  reaping : ∀ saved, s.handler = .reaping saved → saved = error
  restoring : ∀ saved, s.handler = .restoring saved → saved = error
  failed : s.parent = .failed → .acceptFails error ∈ actions
  returned : ∀ r, s.parent = .returned r → .acceptFails r ∈ actions

theorem Server.KeepsErrno.step {error : ℕ} (h : s.KeepsErrno actions error)
    (hstep : s.step st a = some s') :
    s'.KeepsErrno (actions ++ [a]) (mainErrno error [a]) := by
  have hfailed : s.parent = .failed → .acceptFails error ∈ actions ++ [a] :=
    fun hp => List.mem_append_left _ (h.failed hp)
  have hreturned : ∀ r, s.parent = .returned r → .acceptFails r ∈ actions ++ [a] :=
    fun r hp => List.mem_append_left _ (h.returned r hp)
  cases Server.step_cases hstep with
  | accept hp hi hlow => exact ⟨h.idle, h.reaping, h.restoring, nofun, nofun⟩
  | acceptFails hp hi => exact ⟨fun _ => rfl, by simp [hi], by simp [hi], by simp [mainErrno], nofun⟩
  | report hp hi =>
    refine ⟨h.idle, h.reaping, h.restoring, nofun, ?_⟩
    rintro r heq
    cases heq
    rw [h.idle hi]
    exact hfailed hp
  | fork hp hi => exact ⟨h.idle, h.reaping, h.restoring, nofun, nofun⟩
  | forkFails hp hi => exact ⟨fun _ => rfl, by simp [hi], by simp [hi], nofun, nofun⟩
  | closeSocket hp hi => exact ⟨h.idle, h.reaping, h.restoring, nofun, nofun⟩
  | signal hpend hi hrun =>
    refine ⟨nofun, ?_, nofun, hfailed, hreturned⟩
    rintro saved heq
    cases heq
    exact h.idle hi
  | reap hh hc hz => exact ⟨h.idle, h.reaping, h.restoring, hfailed, hreturned⟩
  | noneToReap hh hn =>
    refine ⟨nofun, nofun, ?_, hfailed, hreturned⟩
    rintro saved heq
    cases heq
    exact h.reaping _ hh
  | restore hh => exact ⟨fun _ => h.restoring _ hh, nofun, nofun, hfailed, hreturned⟩
  | child hc hcstep => exact ⟨h.idle, h.reaping, h.restoring, hfailed, hreturned⟩

theorem Startup.Trace.keepsErrno (h : st.Trace actions s) :
    s.KeepsErrno actions (mainErrno st.errno actions) := by
  induction h with
  | start => exact ⟨fun _ => rfl, nofun, nofun, nofun, nofun⟩
  | act _ hstep ih =>
    rw [mainErrno_append]
    exact ih.step hstep

/-- **The handler is not seen by `main`**: whatever `waitpid` does to `errno`, and wherever the signal
comes in between, `errno` is what the calls of `main` left there whenever the handler does not run,
and the error that the server reports before it ends is one of `accept`. -/
theorem errno_of_trace (h : st.Trace actions s) :
    s.KeepsErrno actions (mainErrno st.errno actions) := h.keepsErrno

/-- The signal comes between `accept` and the message about its error. -/
theorem errno_of_trace_plain : ∃ s : Server, s.parent = .returned 24 ∧
    s.KeepsErrno [.accept 4, .fork, .closeSocket, .child 0, .child 0, .child 0, .child 0,
      .acceptFails 24, .signal, .reap 0, .noneToReap, .restore, .report] 24 := by
  have htrace := Startup.trace_of_run (Startup.plain fun _ => [])
    [.accept 4, .fork, .closeSocket, .child 0, .child 0, .child 0, .child 0,
      .acceptFails 24, .signal, .reap 0, .noneToReap, .restore, .report] rfl
  exact ⟨_, rfl, errno_of_trace htrace⟩

/-- What is known of the children that have exited. -/
structure Server.Waits (s : Server) : Prop where
  zombie : ∀ i child, s.child i = some child → child.IsZombie → s.parent.running = true →
    s.pending = true ∨ ∃ saved, s.handler = .reaping saved
  running : s.handler ≠ .idle → s.parent.running = true

theorem Server.Waits.step (h : s.Waits) (ht : s.Tables st) (hstep : s.step st a = some s') : s'.Waits := by
  have hz := h.zombie
  cases Server.step_cases hstep with
  | accept hp hi hlow => exact ⟨fun i c hc hzc _ => hz i c hc hzc (by rw [hp]; rfl), fun _ => rfl⟩
  | acceptFails hp hi => exact ⟨fun i c hc hzc _ => hz i c hc hzc (by rw [hp]; rfl), fun _ => rfl⟩
  | report hp hi => exact ⟨nofun, fun hne => absurd hi hne⟩
  | @fork fd hp hi =>
    refine ⟨fun i c hc hzc _ => ?_, fun _ => rfl⟩
    rcases child_of_update hc with ⟨-, rfl⟩ | ⟨-, hc⟩
    · obtain ⟨sent, hphase⟩ := hzc
      cases hphase
    · exact hz i c hc hzc (by rw [hp]; rfl)
  | forkFails hp hi => exact ⟨fun i c hc hzc _ => hz i c hc hzc (by rw [hp]; rfl), fun _ => rfl⟩
  | closeSocket hp hi => exact ⟨fun i c hc hzc _ => hz i c hc hzc (by rw [hp]; rfl), fun _ => rfl⟩
  | signal hpend hi hrun => exact ⟨fun _ _ _ _ _ => Or.inr ⟨_, rfl⟩, fun _ => hrun⟩
  | reap hh hc hzombie =>
    refine ⟨fun i c hc' hzc hrun => ?_, h.running⟩
    rcases child_of_update hc' with ⟨-, rfl⟩ | ⟨-, hc'⟩
    · obtain ⟨sent, hphase⟩ := hzc
      cases hphase
    · exact hz i c hc' hzc hrun
  | @noneToReap saved hh hn =>
    refine ⟨fun i c hc hzc _ => ?_, fun _ => h.running (by simp [hh])⟩
    exact absurd ⟨i, ht.number i c hc, c, hc, hzc⟩ hn
  | @restore saved hh =>
    refine ⟨fun i c hc hzc hrun => ?_, nofun⟩
    rcases hz i c hc hzc hrun with hpend | ⟨saved', hh'⟩
    · exact Or.inl hpend
    · rw [hh] at hh'
      cases hh'
  | @child number child child' files hc hcstep =>
    refine ⟨fun i c hc' hzc hrun => ?_, h.running⟩
    rcases child_of_update hc' with ⟨-, rfl⟩ | ⟨-, hc'⟩
    · exact Or.inl (by simp [hzc, show s.parent.running = true from hrun])
    · rcases hz i c hc' hzc hrun with hpend | hh
      · exact Or.inl (by simp [hpend])
      · exact Or.inr hh

theorem Startup.Trace.waits (h : st.Trace actions s) : s.Waits := by
  induction h with
  | start => exact ⟨nofun, fun hne => absurd rfl hne⟩
  | act htrace hstep ih => exact ih.step htrace.tables hstep

/-- The child when it was waited for, if it has exited. -/
def Child.reap (child : Child) : Child :=
  match child.phase with
  | .zombie sent => { child with phase := .reaped sent }
  | _ => child

theorem Child.reap_of_not {child : Child} (h : ¬ child.IsZombie) : child.reap = child := by
  unfold Child.reap
  split
  · rename_i sent hphase
    exact absurd ⟨sent, hphase⟩ h
  · rfl

theorem Child.not_isZombie_reap (child : Child) : ¬ child.reap.IsZombie := by
  unfold Child.reap
  split
  · rintro ⟨sent, h⟩
    cases h
  · rename_i h
    rintro ⟨sent, hphase⟩
    exact h sent hphase

theorem Child.reap_comp_reap : Child.reap ∘ Child.reap = Child.reap := by
  funext child
  exact Child.reap_of_not child.not_isZombie_reap

/-- What the handler does. -/
def Action.ofHandler : Action → Bool
  | .signal | .reap _ | .noneToReap | .restore => true
  | _ => false

/-- The children of the first `n` connections when they were waited for. -/
def Server.reapBelow (s : Server) (n : ℕ) : Server :=
  { s with child := fun i => if i < n then (s.child i).map Child.reap else s.child i }

theorem reapBelow_succ (s : Server) (n : ℕ) : s.reapBelow (n + 1) =
    { s with child := Function.update (s.reapBelow n).child n ((s.child n).map Child.reap) } := by
  have hchild : (s.reapBelow (n + 1)).child =
      Function.update (s.reapBelow n).child n ((s.child n).map Child.reap) := by
    funext i
    by_cases hi : i = n
    · simp [hi, Server.reapBelow]
    · have hiff : i < n + 1 ↔ i < n := by omega
      simp only [Function.update_of_ne hi, Server.reapBelow, hiff]
  rw [← hchild]
  rfl

theorem run_reapBelow (st : Startup) {saved : ℕ} (hh : s.handler = .reaping saved) (n : ℕ) :
    ∃ acts, (∀ a ∈ acts, a.ofHandler = true) ∧ s.run st acts = some (s.reapBelow n) := by
  induction n with
  | zero => exact ⟨[], nofun, by simp [Server.run, Server.reapBelow]⟩
  | succ n ih =>
    obtain ⟨acts, hacts, hrun⟩ := ih
    have hat : (s.reapBelow n).child n = s.child n := by simp [Server.reapBelow]
    by_cases hz : ∃ child, s.child n = some child ∧ child.IsZombie
    · obtain ⟨child, hc, sent, hphase⟩ := hz
      refine ⟨acts ++ [.reap n], ?_, ?_⟩
      · intro a ha
        rcases List.mem_append.1 ha with ha | ha
        · exact hacts a ha
        · rw [List.mem_singleton.1 ha]
          rfl
      · have hhandler : (s.reapBelow n).handler = .reaping saved := hh
        have hreap : child.reap = { child with phase := .reaped sent } := by
          simp [Child.reap, hphase]
        rw [run_append hrun, Server.run]
        simp only [Server.step, hhandler, hat, hc, hphase, Option.bind_some, Server.run]
        rw [reapBelow_succ, hc, Option.map_some, hreap, ← hh]
        rfl
    · refine ⟨acts, hacts, ?_⟩
      have hsame : (s.child n).map Child.reap = s.child n := by
        rcases Option.eq_none_or_eq_some (s.child n) with hc | ⟨child, hc⟩
        · rw [hc]
          rfl
        · rw [hc, Option.map_some, Child.reap_of_not fun h => hz ⟨child, hc, h⟩]
      rw [hrun, reapBelow_succ, hsame, ← hat, Function.update_eq_self]
      rfl

/-- The server when the handler has waited for all children that have exited. -/
def Server.allReaped (s : Server) (error : ℕ) : Server := { s with
  handler := .idle
  pending := false
  errno := error
  child := fun i => (s.child i).map Child.reap }

theorem reapBelow_accepted (h : s.Tables st) :
    s.reapBelow s.accepted = { s with child := fun i => (s.child i).map Child.reap } := by
  unfold Server.reapBelow
  congr 1
  funext i
  by_cases hi : i < s.accepted
  · rw [if_pos hi]
  · rw [if_neg hi]
    rcases Option.eq_none_or_eq_some (s.child i) with hc | ⟨child, hc⟩
    · rw [hc]
      rfl
    · exact absurd (h.number i child hc) hi

theorem run_noneToReap {saved : ℕ} (hh : s.handler = .reaping saved)
    (hnone : ¬ s.AnyChild Child.IsZombie) :
    s.run st [.noneToReap, .restore] = some { s with handler := .idle, errno := saved } := by
  simp only [Server.run, Server.step, hh]
  rw [if_neg hnone]
  rfl

theorem run_handler {saved : ℕ} (h : s.Tables st) (hh : s.handler = .reaping saved) :
    ∃ acts, (∀ a ∈ acts, a.ofHandler = true) ∧
      s.run st acts = some { s.allReaped saved with pending := s.pending } := by
  obtain ⟨acts, hacts, hrun⟩ := run_reapBelow st hh s.accepted
  rw [reapBelow_accepted h] at hrun
  refine ⟨acts ++ [.noneToReap, .restore], ?_, ?_⟩
  · intro a ha
    rcases List.mem_append.1 ha with ha | ha
    · exact hacts a ha
    · simp only [List.mem_cons, List.not_mem_nil, or_false] at ha
      rcases ha with rfl | rfl <;> rfl
  · set t : Server := { s with child := fun i => (s.child i).map Child.reap } with ht
    have hhandler : t.handler = .reaping saved := hh
    have hnone : ¬ t.AnyChild Child.IsZombie := by
      rintro ⟨i, -, child, hc, hzombie⟩
      obtain ⟨child', -, rfl⟩ := Option.map_eq_some_iff.1 hc
      exact child'.not_isZombie_reap hzombie
    rw [run_append hrun, run_noneToReap hhandler hnone]
    rfl

/-- A signal that is pending starts the handler; where none is, no child is left to wait for. -/
theorem run_idle (htables : s.Tables st) (hwaits : s.Waits) (hrunning : s.parent.running = true)
    (hh : s.handler = .idle) :
    ∃ acts, (∀ a ∈ acts, a.ofHandler = true) ∧ s.run st acts = some (s.allReaped s.errno) := by
  cases hp : s.pending with
  | true =>
    have hsignal : s.step st .signal =
        some { s with pending := false, handler := .reaping s.errno } := by
      simp only [Server.step, hp, hh, hrunning, and_self, if_true]
    obtain ⟨acts, hacts, hrun⟩ := run_handler (htables.step hsignal) rfl
    refine ⟨.signal :: acts, ?_, ?_⟩
    · intro a ha
      rcases List.mem_cons.1 ha with rfl | ha
      · rfl
      · exact hacts a ha
    · rw [Server.run, hsignal]
      exact hrun
  | false =>
    refine ⟨[], nofun, ?_⟩
    have hnone : (fun i => (s.child i).map Child.reap) = s.child := by
      funext i
      rcases Option.eq_none_or_eq_some (s.child i) with hc | ⟨child, hc⟩
      · rw [hc]
        rfl
      · rw [hc, Option.map_some, Child.reap_of_not]
        intro hz
        rcases hwaits.zombie i child hc hz hrunning with hpend | ⟨saved, hh'⟩
        · rw [hp] at hpend
          cases hpend
        · rw [hh] at hh'
          cases hh'
    rw [Server.run, Server.allReaped, hnone, ← hh, ← hp]

theorem known_after_run (htables : s.Tables st) (hwaits : s.Waits) (hrun : s.run st actions = some s') :
    s'.Tables st ∧ s'.Waits := by
  induction actions generalizing s with
  | nil =>
    cases hrun
    exact ⟨htables, hwaits⟩
  | cons a actions ih =>
    obtain ⟨t, hstep, hrun⟩ := Option.bind_eq_some_iff.1 hrun
    exact ih (htables.step hstep) (hwaits.step htables hstep) hrun

theorem run_allReaped {error : ℕ} (htables : s.Tables st) (hwaits : s.Waits)
    (herrno : s.KeepsErrno actions error) (hrunning : s.parent.running = true) :
    ∃ acts, (∀ a ∈ acts, a.ofHandler = true) ∧ s.run st acts = some (s.allReaped error) := by
  -- a handler that runs comes to its end first
  obtain ⟨first, hfirst, t, hrun, hidle, hsame⟩ : ∃ first, (∀ a ∈ first, a.ofHandler = true) ∧
      ∃ t, s.run st first = some t ∧ t.handler = .idle ∧
        t.allReaped t.errno = s.allReaped error ∧ t.parent = s.parent := by
    cases hh : s.handler with
    | idle => exact ⟨[], nofun, s, rfl, hh, by rw [herrno.idle hh], rfl⟩
    | reaping saved =>
      obtain ⟨acts, hacts, hrun⟩ := run_handler htables hh
      refine ⟨acts, hacts, _, hrun, rfl, ?_, rfl⟩
      simp only [Server.allReaped, Option.map_map, Child.reap_comp_reap, herrno.reaping saved hh]
    | restoring saved =>
      refine ⟨[.restore], by simp [Action.ofHandler], { s with handler := .idle, errno := saved }, ?_,
        rfl, ?_, rfl⟩
      · simp [Server.run, Server.step, hh]
      · simp only [Server.allReaped, herrno.restoring saved hh]
  obtain ⟨htables', hwaits'⟩ := known_after_run htables hwaits hrun
  obtain ⟨acts, hacts, hlast⟩ := run_idle htables' hwaits' (hsame.2.symm ▸ hrunning) hidle
  rw [hsame.1] at hlast
  refine ⟨first ++ acts, ?_, (run_append hrun).trans hlast⟩
  intro a ha
  rcases List.mem_append.1 ha with ha | ha
  · exact hfirst a ha
  · exact hacts a ha

/-- **No child is left that nobody waits for.**  As long as the parent runs, a child that has exited is
waited for by the handler that runs, or by the one that the signal is going to start; and from every
state the handler comes to its end, where all of them were waited for and everything else is as it
was, `errno` as the calls of `main` left it. -/
theorem reaped_by_server (h : st.Trace actions s) (hrunning : s.parent.running = true) :
    (∀ i child, s.child i = some child → child.IsZombie →
      s.pending = true ∨ ∃ saved, s.handler = .reaping saved) ∧
    ∃ acts, (∀ a ∈ acts, a.ofHandler = true) ∧
      st.Trace (actions ++ acts) (s.allReaped (mainErrno st.errno actions)) := by
  refine ⟨fun i child hc hz => h.waits.zombie i child hc hz hrunning, ?_⟩
  obtain ⟨acts, hacts, hrun⟩ := run_allReaped h.tables h.waits h.keepsErrno hrunning
  exact ⟨acts, hacts, h.append hrun⟩

theorem reaped_by_server_plain : ∃ s acts child, (Startup.plain fun _ => []).Trace
      [.accept 4, .fork, .closeSocket, .child 0, .child 0, .child 0, .child 0] s ∧
    s.child 0 = some child ∧ child.IsZombie ∧ (Startup.plain fun _ => []).Trace
      ([.accept 4, .fork, .closeSocket, .child 0, .child 0, .child 0, .child 0] ++ acts)
      (s.allReaped 0) := by
  have htrace := Startup.trace_of_run (Startup.plain fun _ => [])
    [.accept 4, .fork, .closeSocket, .child 0, .child 0, .child 0, .child 0] rfl
  obtain ⟨-, acts, -, hlast⟩ := reaped_by_server htrace rfl
  exact ⟨_, acts, _, htrace, rfl, ⟨[], rfl⟩, hlast⟩

end Handler

/-! ### What the clients get -/

section Clients

variable {st : Startup} {s s' : Server} {a : Action} {actions : List Action}

/-- Where a child is with its connection. -/
def ChildPhase.place (results : List (Env × Bytes)) : ChildPhase → ChildPlace
  | .forked => .turn results []
  | .serving place => place
  | .closed sent | .zombie sent | .reaped sent => .exited sent

/-- The children, as processes on the files; one that is not forked yet is at its first chunk. -/
def Server.config (st : Startup) (s : Server) : Config ℕ ChildPlace (Bytes → FileState) where
  shared := s.files
  place i := (s.child i).elim (.turn (st.clients i) []) (·.phase.place (st.clients i))

theorem Child.step_place {number : ℕ} {child child' : Child} {files files' : Bytes → FileState}
    (h : child.step st number files = some (child', files')) :
    child'.phase.place (st.clients number) = child.phase.place (st.clients number) ∧ files' = files ∨
      childStep st.directory (child.phase.place (st.clients number)) files =
        some (child'.phase.place (st.clients number), files') := by
  obtain ⟨phase, fd, table⟩ := child
  cases phase with
  | forked =>
    cases h
    exact Or.inl ⟨rfl, rfl⟩
  | serving place =>
    cases place with
    | exited sent =>
      cases h
      exact Or.inl ⟨rfl, rfl⟩
    | turn results sent =>
      obtain ⟨q, hq, heq⟩ := Option.map_eq_some_iff.1 h
      cases heq
      exact Or.inr hq
    | file env request path access place results sent =>
      obtain ⟨q, hq, heq⟩ := Option.map_eq_some_iff.1 h
      cases heq
      exact Or.inr hq
  | closed sent =>
    cases h
    exact Or.inl ⟨rfl, rfl⟩
  | zombie sent => cases h
  | reaped sent => cases h

theorem config_update {number : ℕ} (new : Child) (files : Bytes → FileState) :
    Server.config st { s with child := Function.update s.child number (some new), files := files } =
      (s.config st).move number (new.phase.place (st.clients number)) files := by
  unfold Server.config Config.move
  congr 1
  funext i
  by_cases hi : i = number
  · subst hi
    simp only [Function.update_self, Option.elim_some]
  · simp only [Function.update_of_ne hi]

theorem config_update_same {number : ℕ} {new : Child}
    (h : new.phase.place (st.clients number) = (s.config st).place number) :
    (s.config st).move number (new.phase.place (st.clients number)) s.files = s.config st := by
  rw [h, Config.move, Function.update_eq_self]
  rfl

/-- **The server lets its children run**: an action is a step of a child, or none on the connections
and the files. -/
theorem config_step (htables : s.Tables st) (hstep : s.step st a = some s') :
    s'.config st = s.config st ∨ ∃ i q files,
      childStep st.directory ((s.config st).place i) (s.config st).shared = some (q, files) ∧
        s'.config st = (s.config st).move i q files := by
  cases Server.step_cases hstep with
  | @fork fd hp hi =>
    left
    refine (config_update ⟨.forked, fd, s.table⟩ s.files).trans (config_update_same ?_)
    simp only [Server.config, htables.fresh fd hp, Option.elim_none, ChildPhase.place]
  | @reap saved number child sent hh hc hz =>
    left
    refine (config_update { child with phase := .reaped sent } s.files).trans
      (config_update_same ?_)
    simp only [Server.config, hc, Option.elim_some, hz, ChildPhase.place]
  | @child number child child' files hc hcstep =>
    have hplace : (s.config st).place number = child.phase.place (st.clients number) := by
      simp only [Server.config, hc, Option.elim_some]
    have hmove : Server.config st { s with
        child := Function.update s.child number (some child')
        files := files
        pending := s.pending || (child'.IsZombie && s.parent.running) } =
          (s.config st).move number (child'.phase.place (st.clients number)) files :=
      config_update child' files
    rcases Child.step_place hcstep with ⟨hsame, rfl⟩ | hnext
    · left
      rw [hmove]
      exact config_update_same (hsame.trans hplace.symm)
    · right
      rw [← hplace] at hnext
      exact ⟨number, _, files, hnext, hmove⟩
  | _ => exact Or.inl rfl

def ChildPhase.Served (phase : ChildPhase) (sent : List Reply) : Prop :=
  phase = .closed sent ∨ phase = .zombie sent ∨ phase = .reaped sent

theorem place_of_served {phase : ChildPhase} {sent : List Reply} (h : phase.Served sent)
    (results : List (Env × Bytes)) : phase.place results = .exited sent := by
  rcases h with rfl | rfl | rfl <;> rfl

def getOther : RequestChunk := { getNote with
  target := lit "/files/other"
  wf := by decide
  size := by decide }

/-- The one client stores `/srv/note`, the other one asks for `/srv/other`. -/
def noteAndOther : ℕ → List (Env × Bytes)
  | 0 => [(Env.plain, postNoteChunk.encode)]
  | 1 => [(Env.plain, getOther.encode)]
  | _ => []

end Clients

end HttpServer

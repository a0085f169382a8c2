import HttpServer.Connection
import HttpServer.Lib.Path

/-!
# The paths that the server opens

A path given to `fopen` is the directory and the rest of the target, one after the other.  Nothing
looks at the rest, so it can lead out of the directory (`not_confined`); a name that is joined to the
directory with a slash and does not climb above its own start stays below it, in every run
(`opened_below`).
-/

namespace HttpServer

open Lib

/-- A run keeps to the directory: every path opened in it lies strictly below. -/
def Confined : Prop :=
  ∀ (directory : Bytes) (turns : List Turn) (w w' : World), w.opened = [] →
    Run (some directory) w turns w' → ∀ path ∈ w'.opened, StrictlyBelow directory path

variable {directory : Option Bytes} {w w' : World} {path : Bytes}

theorem openedPath_eq_some {request : HttpRequest} (h : openedPath directory request = some path) :
    ∃ d name, directory = some d ∧ request.requestTarget = lit "/files/" ++ name ∧
      path = d ++ name := by
  unfold openedPath at h
  split at h
  · rename_i name d ht
    split at h
    · cases h
      exact ⟨d, name, rfl, eq_of_targetOf_files ht, rfl⟩
    · cases h
  · cases h

/-- Where the paths of a run come from: from a target that a chunk of the run asks for. -/
structure AskedFor (directory : Option Bytes) (turns : List Turn) (path d name : Bytes) : Prop where
  directory : directory = some d
  path : path = d ++ name
  chunk : ∃ t ∈ turns, ∃ request,
    httpRequestFromBuffer (t.chunk.takeWhile (· ≠ 0)) = .ok (some request) ∧
      request.requestTarget = lit "/files/" ++ name

/-- **Names that do not climb stay below the directory**, in every run: a path that is opened is the
directory and the name that a client asked for, and it lies strictly below the directory when a slash
joins the two and the name has no `..` above its start. -/
theorem opened_below {turns : List Turn} (h0 : w.opened = []) (h : Run directory w turns w') :
    ∀ path ∈ w'.opened, ∃ d name, AskedFor directory turns path d name ∧
      ∀ rest, Joined d name → descend (components name) [] = some rest → rest ≠ [] →
        StrictlyBelow d path := by
  refine h.invariant (P := fun w => ∀ path ∈ w.opened, ∃ d name,
      AskedFor directory turns path d name ∧ ∀ rest, Joined d name →
        descend (components name) [] = some rest → rest ≠ [] → StrictlyBelow d path)
    (fun t ht w w' stop hw hserve path hpath => ?_) (by simp [h0])
  rcases turn_of_serveChunk hserve with ⟨-, -, -, rfl⟩ | ⟨request, hparse, -, hanswer⟩
  · exact hw path hpath
  rw [opened_of_answerWorld (answerWorld_of_answer hanswer), List.mem_append] at hpath
  rcases hpath with hpath | hpath
  · exact hw path hpath
  · obtain ⟨d, name, hd, htarget, rfl⟩ := openedPath_eq_some (Option.mem_toList.1 hpath)
    exact ⟨d, name, ⟨hd, rfl, t, ht, request, hparse, htarget⟩,
      fun rest hj hdesc hrest => strictlyBelow_append hj hdesc hrest⟩

theorem opened_below_postNote : ∃ reply w',
    Run (some (lit "/srv/")) World.empty [⟨Env.plain, postNote.encode, reply⟩] w' ∧
      ∀ path ∈ w'.opened, ∃ d name,
        AskedFor (some (lit "/srv/")) [⟨Env.plain, postNote.encode, reply⟩] path d name ∧
        ∀ rest, Joined d name → descend (components name) [] = some rest → rest ≠ [] →
          StrictlyBelow d path := by
  obtain ⟨reply, w', hrun, -⟩ :=
    postNoteChunk.run_encode Env.plain (some (lit "/srv/")) World.empty
  exact ⟨reply, w', hrun, opened_below rfl hrun⟩

def getOutside : RequestChunk where
  method := lit "GET"
  target := lit "/files/../etc/passwd"
  version := lit "HTTP/1.1"
  headers := []
  body := []
  wf := by decide
  size := by decide

/-- **A client can leave the directory.** -/
theorem not_confined : ¬ Confined := by
  intro h
  obtain ⟨reply, w', hrun, hanswer⟩ :=
    getOutside.run_encode Env.plain (some (lit "/srv/")) World.empty
  have hopened := opened_of_answerWorld (answerWorld_of_answer hanswer)
  have hpath : openedPath (some (lit "/srv/")) getOutside.request =
      some (lit "/srv/../etc/passwd") := rfl
  rw [hpath] at hopened
  obtain ⟨rest, -, hbelow⟩ := h (lit "/srv/") _ _ _ rfl hrun (lit "/srv/../etc/passwd") (by
    rw [hopened]
    simp)
  have h1 : (resolve (lit "/srv/../etc/passwd")).names = [lit "etc", lit "passwd"] := by decide
  have h2 : (resolve (lit "/srv/")).names = [lit "srv"] := by decide
  rw [hbelow, h2] at h1
  have hhead := congrArg List.head? h1
  simp only [List.singleton_append, List.head?_cons, Option.some.injEq] at hhead
  revert hhead
  decide

end HttpServer

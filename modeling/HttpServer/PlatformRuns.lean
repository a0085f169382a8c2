import HttpServer.Stream

/-!
# Connections on a platform

On a platform the loop of the child process does what it does without one, up to the first turn that
the platform does not let be: `SoundRun` says that there is none.  A connection then is a conversation
(`converses_iff`), and requests that are delivered whole are served one by one
(`connectionLoopOn_encode`).  Two bytes to spare behind every block and a store without directories are
enough for every turn (`soundTurn_of_roomy`), and the connection is that of `connectionLoop`
(`connectionLoopOn_roomy`).
-/

namespace HttpServer

open Lib HttpResponseBuilder

variable {platform : Platform} {env : Env} {directory : Option Bytes} {request : HttpRequest}
  {w w' : World} {reply : Reply} {chunk : Bytes} {table : List Route} {results : List (Env × Bytes)}

/-! ### The loop on a platform -/

/-- The platform lets every turn be that the loop takes on these chunks. -/
def SoundRun (platform : Platform) (directory : Option Bytes) : List (Env × Bytes) → World → Prop
  | [], _ => True
  | (env, chunk) :: chunks, w => SoundTurn platform env directory w chunk ∧
      ∀ reply w', serveChunk env directory w chunk = .ok (reply, false, w') →
        SoundRun platform directory chunks w'

/-- **The replies on a platform** are those of `connectionLoop`, where the platform lets every turn
be. -/
theorem connectionLoopOn_eq_ok {chunks : List (Env × Bytes)} {r : List Reply × World} :
    connectionLoopOn platform directory chunks w = .ok r ↔
      connectionLoop directory chunks w = .ok r ∧
        SoundRun platform directory (delivered chunks) w := by
  induction chunks generalizing w r with
  | nil => exact (and_iff_left trivial).symm
  | cons c chunks ih =>
    obtain ⟨env, chunk⟩ := c
    by_cases hnil : chunk = []
    · subst hnil
      have hnone : delivered ((env, []) :: chunks) = [] := by simp [delivered]
      rw [connectionLoop, connectionLoopOn, if_pos rfl, if_pos rfl, hnone]
      exact (and_iff_left trivial).symm
    have hcons : delivered ((env, chunk) :: chunks) = (env, chunk) :: delivered chunks := by
      simp [delivered, hnil]
    rw [connectionLoop, connectionLoopOn, if_neg hnil, if_neg hnil, hcons, bind_eq_ok, bind_eq_ok]
    constructor
    · rintro ⟨⟨reply, stop, w₁⟩, hserve, hrest⟩
      obtain ⟨hserve, hsound⟩ := serveChunkOn_eq_ok.1 hserve
      cases stop with
      | true =>
        refine ⟨⟨_, hserve, hrest⟩, hsound, fun reply' w' h => ?_⟩
        cases hserve.symm.trans h
      | false =>
        obtain ⟨p, hloop, hr⟩ := bind_eq_ok.1 hrest
        obtain ⟨hloop, hrun⟩ := ih.1 hloop
        refine ⟨⟨_, hserve, bind_eq_ok.2 ⟨p, hloop, hr⟩⟩, hsound, fun reply' w' h => ?_⟩
        cases hserve.symm.trans h
        exact hrun
    · rintro ⟨⟨⟨reply, stop, w₁⟩, hserve, hrest⟩, hsound, hrun⟩
      refine ⟨_, serveChunkOn_eq_ok.2 ⟨hserve, hsound⟩, ?_⟩
      cases stop with
      | true => exact hrest
      | false =>
        obtain ⟨p, hloop, hr⟩ := bind_eq_ok.1 hrest
        exact bind_eq_ok.2 ⟨p, ih.2 ⟨hloop, hrun reply w₁ hserve⟩, hr⟩

/-! ### Conversations -/

theorem soundTurn_of_parse (hr : httpRequestFromBuffer (chunk.takeWhile (· ≠ 0)) = .ok (some request)) :
    SoundTurn platform env directory w chunk ↔
      (∀ path, readPath directory request = some path → platform.isDirectory path = false) ∧
        ∀ t ∈ (replyBuilder env directory request w).accesses env, platform.Holds t := by
  have hbuilder : sentBuilder env directory w chunk = replyBuilder env directory request w := by
    simp only [sentBuilder, hr]
  rw [← hbuilder]
  constructor
  · exact fun h => ⟨fun path hpath => h.files request path hr hpath, h.stores⟩
  · rintro ⟨hfiles, hstores⟩
    refine ⟨fun r path hr' hpath => ?_, hstores⟩
    rw [hr] at hr'
    cases hr'
    exact hfiles path hpath

/-- An answer without body needs a byte behind the header block when it closes. -/
theorem holds_bare_iff (hk : answerKind directory request w = .bare) :
    (∀ t ∈ (replyBuilder env directory request w).accesses env, platform.Holds t) ↔
      (request.closes = true → 22 ≤ platform.usable 21) := by
  have hkind := replyBuilder_of_kind env directory request w
  rw [hk] at hkind
  obtain ⟨status, hb⟩ := hkind
  rw [hb, holds_error_iff]

/-- The room that a 200 with the fields `fs` and `n` bytes needs. -/
def Platform.SparesBody (platform : Platform) (fs : List (Bytes × Bytes)) (n : ℕ) : Prop :=
  platform.Spares ((fieldLines (contentLength n :: fs)).length + 2)
    (messageLength .httpOk (contentLength n :: fs) n)

/-- The room that an answer needs, by its kind: a byte behind the block of its fields, and two behind
the buffer of a response with a body. -/
def Platform.SparesAnswer (platform : Platform) (env : Env) (request : HttpRequest) :
    AnswerKind → Prop
  | .bare => request.closes = true → 22 ≤ platform.usable 21
  | .refused => True
  | .echo p =>
    let n := (echoBody env request p).length
    let h := echoHeaderSize request.closes (echoEncoded env request p) n
    platform.Spares h (17 + h + n)
  | .userAgent v =>
    platform.SparesBody (closeField request.closes ++ [contentType "text/plain"]) v.length
  | .file content =>
    platform.SparesBody (closeField request.closes ++ [contentType "application/octet-stream"])
      content.length

theorem Platform.Roomy.sparesAnswer (h : platform.Roomy) (env : Env) (request : HttpRequest)
    (kind : AnswerKind) : platform.SparesAnswer env request kind := by
  cases kind with
  | bare => exact fun _ => (by omega : 22 ≤ 21 + 2).trans (h.spare 21)
  | refused => trivial
  | echo p => exact h.spares _ _
  | userAgent v => exact h.spares _ _
  | file content => exact h.spares _ _

/-- **What a turn asks of the platform**, of the request and of the files alone: no directory is read,
and the blocks of the answer have room. -/
theorem soundTurn_iff (hg : env.GzipSane) (hlen : chunk.length ≤ HTTP_BUFFER_SIZE) (hsmall : w.Small)
    (hr : httpRequestFromBuffer (chunk.takeWhile (· ≠ 0)) = .ok (some request)) :
    SoundTurn platform env directory w chunk ↔
      (∀ path, readPath directory request = some path → platform.isDirectory path = false) ∧
        platform.SparesAnswer env request (answerKind directory request w) := by
  rw [soundTurn_of_parse hr]
  refine and_congr_right fun _ => ?_
  have hshort : (chunk.takeWhile (· ≠ 0)).length ≤ HTTP_BUFFER_SIZE :=
    (List.takeWhile_sublist _).length_le.trans hlen
  obtain ⟨htarget, hlength, hvalue⟩ := bounds_of_parse (nulFree_takeWhile chunk) hr
  have hkind := replyBuilder_of_kind env directory request w
  cases hk : answerKind directory request w with
  | bare => exact holds_bare_iff hk
  | refused =>
    rw [hk] at hkind
    simp only at hkind
    rw [hkind]
    exact (holds_error_iff env .httpBadRequest false).trans (iff_true_intro nofun)
  | echo p =>
    rw [hk] at hkind
    simp only at hkind
    have hsub : List.Sublist p request.requestTarget := by
      rw [answerKind_echo hk]
      exact List.sublist_append_right _ _
    have hplen : p.length ≤ 1024 := hsub.length_le.trans (hlength.trans hshort)
    rw [hkind]
    exact holds_echo_iff hg request (htarget.sublist hsub) (by omega)
  | userAgent v =>
    rw [hk] at hkind
    simp only at hkind
    have hv := hvalue _ v (by decide) (answerKind_userAgent hk)
    have hdigits := length_decimal_le v.length
    have hfields : (fieldLines (closeField request.closes ++ [contentType "text/plain"])).length ≤
        69 := length_echoFields request.closes false
    rw [hkind]
    exact holds_sends_iff env (sends_userAgent v) (by rw [messageLength_ok]; omega)
  | file content =>
    rw [hk] at hkind
    simp only at hkind
    obtain ⟨d, name, -, -, -, hf⟩ := getFiles_of_file hk
    have hfits : FileFits request.closes content := (hsmall _ content hf).of_true
    rw [hkind]
    refine holds_sends_iff env (sends_file env request (content ++ [0]) content.length) ?_
    rw [length_fileFields]
    simp only [FileFits, INT_MAX] at hfits
    omega

/-- A chunk that is not parsed is answered without a field. -/
theorem soundTurn_of_refused (platform : Platform) (env : Env) (directory : Option Bytes) (w : World)
    (hr : ∀ request, httpRequestFromBuffer (chunk.takeWhile (· ≠ 0)) ≠ .ok (some request)) :
    SoundTurn platform env directory w chunk := by
  refine ⟨fun request _ h => absurd h (hr request), ?_⟩
  have hbuilder : sentBuilder env directory w chunk = errorBuilder env .httpBadRequest false := by
    unfold sentBuilder
    split
    · rename_i request h
      exact absurd h (hr request)
    · rfl
  rw [hbuilder]
  exact (holds_error_iff env .httpBadRequest false).2 nofun

/-- **Two bytes to spare behind every block, and no directories,** are enough for every turn. -/
theorem soundTurn_of_roomy (hroom : platform.Roomy) (hg : env.GzipSane)
    (hlen : chunk.length ≤ HTTP_BUFFER_SIZE) (hsmall : w.Small) :
    SoundTurn platform env directory w chunk := by
  by_cases hr : ∃ request, httpRequestFromBuffer (chunk.takeWhile (· ≠ 0)) = .ok (some request)
  · obtain ⟨request, hr⟩ := hr
    exact (soundTurn_iff hg hlen hsmall hr).2
      ⟨fun path _ => hroom.files path, hroom.sparesAnswer env request _⟩
  · exact soundTurn_of_refused platform env directory w (not_exists.1 hr)

/-- **With two bytes to spare and without directories** the turns on the platform are the turns of the
model without one. -/
theorem serveChunkOn_roomy (hroom : platform.Roomy) (hg : env.GzipSane)
    (hlen : chunk.length ≤ HTTP_BUFFER_SIZE) (hsmall : w.Small) {r : Reply × Bool × World} :
    serveChunkOn platform env directory w chunk = .ok r ↔ serveChunk env directory w chunk = .ok r :=
  serveChunkOn_eq_ok.trans (and_iff_left (soundTurn_of_roomy hroom hg hlen hsmall))

theorem soundRun_of_roomy (hroom : platform.Roomy) {chunks : List (Env × Bytes)}
    (hg : ∀ c ∈ chunks, c.1.GzipSane) (hlen : ∀ c ∈ chunks, c.2.length ≤ HTTP_BUFFER_SIZE)
    (hsmall : w.Small) : SoundRun platform directory chunks w := by
  induction chunks generalizing w with
  | nil => trivial
  | cons c chunks ih =>
    obtain ⟨env, chunk⟩ := c
    have hlen₁ := hlen _ List.mem_cons_self
    refine ⟨soundTurn_of_roomy hroom (hg _ List.mem_cons_self) hlen₁ hsmall, fun reply w' h => ?_⟩
    exact ih (fun c hc => hg c (List.mem_cons_of_mem _ hc))
      (fun c hc => hlen c (List.mem_cons_of_mem _ hc)) (small_of_serveChunk hlen₁ hsmall h)

/-- **A connection on such a platform** is that of `connectionLoop`. -/
theorem connectionLoopOn_roomy (hroom : platform.Roomy) {chunks : List (Env × Bytes)}
    (hg : ∀ c ∈ chunks, c.1.GzipSane) (hlen : ∀ c ∈ chunks, c.2.length ≤ HTTP_BUFFER_SIZE)
    (hsmall : w.Small) {r : List Reply × World} :
    connectionLoopOn platform directory chunks w = .ok r ↔
      connectionLoop directory chunks w = .ok r := by
  have hsub : ∀ c ∈ delivered chunks, c ∈ chunks := fun c hc =>
    (List.takeWhile_sublist _).subset hc
  exact connectionLoopOn_eq_ok.trans (and_iff_left
    (soundRun_of_roomy hroom (fun c hc => hg c (hsub c hc)) (fun c hc => hlen c (hsub c hc)) hsmall))

/-! ### Requests that are answered, and one that is not -/

end HttpServer

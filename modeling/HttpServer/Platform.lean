import HttpServer.Framing

/-!
# Turns on a platform

The program stores behind two of its blocks: `construct` the NUL of the last `strncat`, one byte
behind the header block, and `http_response_to_buffer` the last line end, two bytes behind the buffer
of a response with headers and a body.  And it takes what `fopen` opens for reading for a file, also a
directory.  What comes of it is a matter of the platform: of the bytes that the allocator lets be
stored to in a block, and of the directories in the store.

`serveChunk` has neither.  `serveChunkOn` is the same turn on a platform, where it faults with the
first such store or directory, and goes on as `serveChunk` otherwise (`serveChunkOn_eq_ok`).  With two
bytes to spare behind every block and a store without directories the two are one, for a turn
(`serveChunkOn_roomy`) as for a connection (`connectionLoopOn_roomy`).
-/

namespace HttpServer

open Lib HttpResponseBuilder

/-- What the program takes from the C library and the kernel and does not check. -/
structure Platform where
  /-- The bytes that can be stored to in a block that was made with `size`. -/
  usable : ℕ → ℕ
  le_usable : ∀ size, size ≤ usable size
  /-- The paths that are directories, which `fopen` opens for reading. -/
  isDirectory : Bytes → Bool

namespace Platform

/-- Chunks in steps of 16 bytes, from 32 on, of which 8 are the allocator's own; no directories. -/
def chunked : Platform where
  usable size := max 24 ((size + 23) / 16 * 16 - 8)
  le_usable size := by omega
  isDirectory _ := false

/-- The access stays where the block can be stored to. -/
def Holds (platform : Platform) (t : Access) : Prop := t.first + t.bytes ≤ platform.usable t.block

instance (platform : Platform) (t : Access) : Decidable (platform.Holds t) :=
  inferInstanceAs (Decidable (_ ≤ _))

/-- Two bytes to spare behind every block, and no directories. -/
structure Roomy (platform : Platform) : Prop where
  spare : ∀ size, size + 2 ≤ platform.usable size
  files : ∀ path, platform.isDirectory path = false

end Platform

/-- The stores of `construct` into the header block, the NUL included, and of
`http_response_to_buffer` into the buffer. -/
def HttpResponseBuilder.accesses (env : Env) (builder : HttpResponseBuilder) : List Access :=
  let response := builder.construct env
  let stored : Access := ⟨0, (response.toBuffer env).offset, response.totalSize⟩
  match builder.finalHeaders with
  | none => [stored]
  | some headers =>
    let (buffer, mapToBufferSize) := headerBlock env headers
    [⟨0, buffer.text.length + 1, mapToBufferSize⟩, stored]

/-- The path that a request makes `get_files` open. -/
def readPath (directory : Option Bytes) (request : HttpRequest) : Option Bytes :=
  if request.method = lit "GET" then openedPath directory request else none

variable (platform : Platform) {env : Env} {directory : Option Bytes} {request : HttpRequest}
  {w w' : World} {reply : Reply} {chunk : Bytes} {builder : HttpResponseBuilder} {stop : Bool}

/-- A reply whose response is put together and stored where the platform lets it be. -/
def checkStores {α : Type} (env : Env) (builder : HttpResponseBuilder) (result : α) : Except Fault α :=
  if ∀ t ∈ builder.accesses env, platform.Holds t then .ok result else .error .outOfBounds

def answerOn (env : Env) (directory : Option Bytes) (request : HttpRequest) (w : World) :
    Except Fault (Reply × World) := do
  -- the size that `ftell` has for a directory is one that no block can have
  if (readPath directory request).any platform.isDirectory then .error .badAlloc
  else
    let result ← answer env directory request w
    checkStores platform env (replyBuilder env directory request w) result

def serveChunkOn (env : Env) (directory : Option Bytes) (w : World) (chunk : Bytes) :
    Except Fault (Reply × Bool × World) := do
  match ← httpRequestFromBuffer (chunk.takeWhile (· ≠ 0)) with
  | none =>
    checkStores platform env (errorBuilder env .httpBadRequest false)
      (sendBadRequestMessage env false, true, w)
  | some request =>
    let (reply, w) ← answerOn platform env directory request w
    .ok (reply, request.closes, w)

def connectionLoopOn (directory : Option Bytes) :
    List (Env × Bytes) → World → Except Fault (List Reply × World)
  | [], w => .ok ([], w)
  | (env, chunk) :: chunks, w =>
    if chunk = [] then .ok ([], w)
    else do
      let (reply, stop, w) ← serveChunkOn platform env directory w chunk
      if stop then .ok ([reply], w)
      else
        let (replies, w) ← connectionLoopOn directory chunks w
        .ok (reply :: replies, w)

/-- The platform lets the turn be: no directory is read, and the response stays where its blocks can
be stored to. -/
structure SoundTurn (env : Env) (directory : Option Bytes) (w : World) (chunk : Bytes) : Prop where
  files : ∀ request path, httpRequestFromBuffer (chunk.takeWhile (· ≠ 0)) = .ok (some request) →
    readPath directory request = some path → platform.isDirectory path = false
  stores : ∀ t ∈ (sentBuilder env directory w chunk).accesses env, platform.Holds t

/-! ### A turn on a platform is a turn -/

section Turn

variable {platform}

theorem checkStores_eq_ok {α : Type} {result result' : α} :
    checkStores platform env builder result = .ok result' ↔
      result = result' ∧ ∀ t ∈ builder.accesses env, platform.Holds t := by
  unfold checkStores
  split
  · rename_i h
    rw [Except.ok.injEq]
    exact ⟨fun heq => ⟨heq, h⟩, And.left⟩
  · rename_i h
    exact iff_of_false (by simp) fun hr => h hr.2

theorem any_eq_false {path : Option Bytes} {p : Bytes → Bool} :
    path.any p = false ↔ ∀ q, path = some q → p q = false := by
  cases path <;> simp

/-- **An answer on a platform** is the answer, where no directory is read and the response has room. -/
theorem answerOn_eq_ok : answerOn platform env directory request w = .ok (reply, w') ↔
    answer env directory request w = .ok (reply, w') ∧
      (∀ path, readPath directory request = some path → platform.isDirectory path = false) ∧
      ∀ t ∈ (replyBuilder env directory request w).accesses env, platform.Holds t := by
  unfold answerOn
  cases hd : (readPath directory request).any platform.isDirectory with
  | true =>
    have hnot : ¬ ∀ path, readPath directory request = some path →
        platform.isDirectory path = false := fun h => by
      rw [any_eq_false.2 h] at hd
      cases hd
    simp [hnot]
  | false =>
    simp only [Bool.false_eq_true, if_false]
    rw [bind_eq_ok]
    simp only [checkStores_eq_ok]
    constructor
    · rintro ⟨result, ha, rfl, hstores⟩
      exact ⟨ha, fun _ h => any_eq_false.1 hd _ h, hstores⟩
    · rintro ⟨ha, -, hstores⟩
      exact ⟨_, ha, rfl, hstores⟩

/-- **A turn on a platform** is the turn of `serveChunk`, where the platform lets it be. -/
theorem serveChunkOn_eq_ok {r : Reply × Bool × World} :
    serveChunkOn platform env directory w chunk = .ok r ↔
      serveChunk env directory w chunk = .ok r ∧ SoundTurn platform env directory w chunk := by
  obtain ⟨reply, stop, w'⟩ := r
  unfold serveChunkOn serveChunk
  cases hr : httpRequestFromBuffer (chunk.takeWhile (· ≠ 0)) with
  | error e => simp [bind, Except.bind]
  | ok parsed =>
    cases parsed with
    | none =>
      simp only [bind, Except.bind, checkStores_eq_ok, Except.ok.injEq]
      refine and_congr_right fun _ => ?_
      constructor
      · intro h
        refine ⟨fun request path hr' => ?_, ?_⟩
        · rw [hr] at hr'
          cases hr'
        · simpa only [sentBuilder, hr] using h
      · intro h
        simpa only [sentBuilder, hr] using h.stores
    | some request =>
      change (answerOn platform env directory request w >>= _) = _ ↔
        (answer env directory request w >>= _) = _ ∧ _
      rw [bind_eq_ok, bind_eq_ok]
      constructor
      · rintro ⟨⟨reply', w₁⟩, ha, h⟩
        cases h
        obtain ⟨hanswer, hfiles, hstores⟩ := answerOn_eq_ok.1 ha
        refine ⟨⟨(reply, w'), hanswer, rfl⟩, ?_, ?_⟩
        · intro r path hr' hpath
          rw [hr] at hr'
          cases hr'
          exact hfiles path hpath
        · simpa only [sentBuilder, hr] using hstores
      · rintro ⟨⟨⟨reply', w₁⟩, hanswer, h⟩, hsound⟩
        cases h
        refine ⟨(reply, w'), answerOn_eq_ok.2 ⟨hanswer, ?_, ?_⟩, rfl⟩
        · exact fun path hpath => hsound.files request path hr hpath
        · simpa only [sentBuilder, hr] using hsound.stores

end Turn

/-! ### Where the stores of a response are -/

section Accesses

variable {platform} {status : HttpStatus} {gs : List (Bytes × Bytes)} {data : Bytes} {n : ℕ}

/-- A block of `header` bytes with one byte to spare, and one of `total` bytes with two. -/
def Platform.Spares (platform : Platform) (header total : ℕ) : Prop :=
  header + 1 ≤ platform.usable header ∧ total + 2 ≤ platform.usable total

instance (platform : Platform) (header total : ℕ) : Decidable (platform.Spares header total) :=
  inferInstanceAs (Decidable (_ ∧ _))

theorem Platform.Roomy.spares (h : platform.Roomy) (header total : ℕ) :
    platform.Spares header total :=
  ⟨(Nat.le_succ _).trans (h.spare header), h.spare total⟩

/-- With headers and a body the stores leave both blocks. -/
theorem holds_sends_iff (env : Env) (h : builder.Sends status gs data n)
    (hlen : messageLength status (contentLength n :: gs) n + 2 < 2 ^ 63) :
    (∀ t ∈ builder.accesses env, platform.Holds t) ↔
      platform.Spares ((fieldLines (contentLength n :: gs)).length + 2)
        (messageLength status (contentLength n :: gs) n) := by
  obtain ⟨headers, hheaders, hperm, hne, -, -⟩ := (sends_iff.1 h).1.laid
  obtain ⟨fields, hfields, -, hbuffer⟩ := h.message env hlen
  have htotal : (builder.construct env).totalSize =
      messageLength status (contentLength n :: gs) n := by
    rw [← HttpResponse.length_buffer env (builder.construct env), hbuffer,
      length_message h hfields (length_readPast _ _ _)]
  have hhead : builder.head.length ≤ messageLength status (contentLength n :: gs) n := by
    simp only [head, messageLength, h.version, h.status]
    omega
  have hoffset := h.offset env
  rw [htotal, max_eq_left hhead] at hoffset
  have hblock : (headerBlock env headers).1.text.length =
      (fieldLines (contentLength n :: gs)).length + 2 := by
    rw [headerBlock_text hne, List.length_append, length_fieldLines_perm hperm]
    rfl
  have hsize := headerBlock_size env headers
  rw [length_fieldLines_perm hperm] at hsize
  simp only [accesses, hheaders, hoffset, htotal, hblock, hsize, List.mem_cons, List.not_mem_nil,
    or_false, forall_eq_or_imp, forall_eq, Platform.Holds, Nat.zero_add, Platform.Spares]

/-- Without a body the buffer of a response holds its stores. -/
theorem holds_stored (platform : Platform) (env : Env) (hd : builder.data = none)
    (hlen : builder.length ≤ INT_MAX) :
    platform.Holds ⟨0, ((builder.construct env).toBuffer env).offset,
      (builder.construct env).totalSize⟩ := by
  have hexact := (soundBuffer_of_bodyless env (Or.inl hd) hlen).exact
  rw [length_done_toBuffer] at hexact
  rw [← hexact]
  simpa [Platform.Holds] using platform.le_usable (builder.construct env).totalSize

/-- Without a body a response with a line that closes stores one byte behind its header block, and one
without lines stores none. -/
theorem holds_error_iff (env : Env) (status : HttpStatus) (closes : Bool) :
    (∀ t ∈ (errorBuilder env status closes).accesses env, platform.Holds t) ↔
      (closes = true → 22 ≤ platform.usable 21) := by
  have hdata : (errorBuilder env status closes).data = none := by cases closes <;> rfl
  obtain ⟨headers, h, he⟩ := finalHeaders_close env
    (show (createHttpResponseBuilder status).headers = none from rfl)
  have hlines : (fieldLines [connectionClose]).length = 19 := by decide
  have hstored := holds_stored platform env hdata
    (length_errorBuilder env status closes)
  cases closes with
  | false =>
    have hfinal : (errorBuilder env status false).finalHeaders = none := rfl
    simp only [accesses, hfinal, List.mem_singleton, forall_eq, hstored, Bool.false_eq_true,
      false_imp_iff]
  | true =>
    have hfinal : (errorBuilder env status true).finalHeaders = some headers := h
    have hblock : (headerBlock env headers).1.text.length = 21 := by
      rw [headerBlock_text (by simp [he]), he, List.length_append, hlines]
      rfl
    have hsize : (headerBlock env headers).2 = 21 := by
      rw [headerBlock_size, he, hlines]
    simp only [accesses, hfinal, hblock, hsize, List.mem_cons, List.not_mem_nil, or_false,
      forall_eq_or_imp, forall_eq, hstored, and_true, forall_const]
    simp only [Platform.Holds, Nat.zero_add, Nat.reduceAdd]

end Accesses

end HttpServer

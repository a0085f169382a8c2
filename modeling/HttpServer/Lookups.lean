import HttpServer.RequestSafety
import HttpServer.Framing

/-!
# What an answer depends on

The parser keeps every header, but the server looks up four names, byte for byte, and nothing else of
the map: requests that agree on these lookups are answered the same (`answer_congr`).  So the order of
distinct headers does not matter (`serveChunk_perm`), a header of any other name might as well not be
there (`serveChunk_filter`), and the case of a name matters only where it is one of the four
(`serveChunk_recase`, `not_caseInsensitive`).
-/

namespace HttpServer

open Lib

variable {env : Env} {directory : Option Bytes} {w : World}

/-! ### Requests that are not told apart -/

/-- The names that are looked up. -/
def lookedUp : List Bytes :=
  [lit "Connection", lit "Content-Length", lit "User-Agent", lit "Accept-Encoding"]

theorem lookedUp_ok {k : Bytes} (h : k ∈ lookedUp) : NulFree k ∧ k.length < 255 := by
  have hall : ∀ k ∈ lookedUp, NulFree k ∧ k.length < 255 := by decide
  exact hall k h

/-- Requests that no handler tells apart. -/
structure SameRequest (a b : HttpRequest) : Prop where
  method : a.method = b.method
  target : a.requestTarget = b.requestTarget
  data : a.data = b.data
  headers : ∀ k ∈ lookedUp, a.headers.getCstr k = b.headers.getCstr k

namespace SameRequest

variable {a b : HttpRequest} (h : SameRequest a b)

include h

theorem closes : a.closes = b.closes := by
  unfold HttpRequest.closes
  rw [h.headers _ (by decide)]

theorem contentLength : a.contentLength = b.contentLength := by
  unfold HttpRequest.contentLength
  rw [h.headers _ (by decide)]

theorem acceptsGzip : a.acceptsGzip = b.acceptsGzip := by
  unfold HttpRequest.acceptsGzip
  rw [h.headers _ (by decide)]

theorem addConnectionClose (env : Env) :
    addConnectionCloseIfNeeded env a = addConnectionCloseIfNeeded env b := by
  funext builder
  rw [addConnectionCloseIfNeeded_eq, addConnectionCloseIfNeeded_eq, h.closes]

theorem chosenBuilder (env : Env) (directory : Option Bytes) (w : World) :
    chosenBuilder env directory a w = chosenBuilder env directory b w := by
  have hagent := h.headers (lit "User-Agent") (by decide)
  unfold HttpServer.chosenBuilder getFilesBuilder postFilesStatus bareBuilder echoBuilder fileBuilder
    userAgentBuilder
  simp only [h.method, h.target, hagent, h.contentLength, h.acceptsGzip, h.addConnectionClose]

theorem answerWorld (env : Env) (directory : Option Bytes) (w : World) :
    answerWorld env directory a w = answerWorld env directory b w := by
  rw [answerWorld_eq, answerWorld_eq]
  unfold storesAt openedPath
  simp only [h.method, h.target, h.data, h.contentLength]

end SameRequest

/-- **Requests that are not told apart have the same answer.** -/
theorem answer_congr {a b : HttpRequest} (h : SameRequest a b) :
    answer env directory a w = answer env directory b w := by
  rw [answer_eq, answer_eq, h.chosenBuilder, h.answerWorld, h.closes]

/-! ### Texts that are not told apart -/

/-- Texts that differ in their heads, by headers that no lookup tells apart, take the same turn. -/
theorem serveChunk_congr {s s' m t v block block' : Bytes} (hs : NulFree s) (hs' : NulFree s')
    (hline : requestLine s = some (m, t, v, block)) (hline' : requestLine s' = some (m, t, v, block'))
    (hrest : afterHead block' = afterHead block)
    (hlook : ∀ k ∈ lookedUp, ((fields block').find? fun f => f.1 = k).map (·.2) =
      ((fields block).find? fun f => f.1 = k).map (·.2)) :
    serveChunk env directory w s' = serveChunk env directory w s := by
  have hlength : declaredLength block' = declaredLength block := by
    unfold declaredLength
    rw [hlook _ (by decide)]
  have hsame : ∀ data, SameRequest ⟨m, t, v, headerMap (fields block'), data⟩
      ⟨m, t, v, headerMap (fields block), data⟩ := fun data =>
    ⟨rfl, rfl, rfl, fun k hk => by
      simp only [Hashmap.getCstr, get_headerMap (lookedUp_ok hk).1, hlook k hk]⟩
  unfold serveChunk
  rw [hs.takeWhile, hs'.takeWhile, httpRequestFromBuffer_eq hs, httpRequestFromBuffer_eq hs']
  cases hn : declaredLength block with
  | none =>
    rw [decode_of_line hline hn, decode_of_line hline' (hlength.trans hn)]
    simp only [bind, Except.bind, answer_congr (hsame none), (hsame none).closes]
  | some n =>
    rw [decode_of_length hline hn, decode_of_length hline' (hlength.trans hn), hrest]
    cases copyBody (afterHead block) n with
    | error e => rfl
    | ok data =>
      simp only [Except.map, bind, Except.bind, answer_congr (hsame (some data)),
        (hsame (some data)).closes]

section Headers

variable {r : RequestText} {hs : List (Bytes × Bytes)}

theorem serveChunk_takeWhile (s : Bytes) :
    serveChunk env directory w (s.takeWhile (· ≠ 0)) = serveChunk env directory w s := by
  unfold serveChunk
  rw [(nulFree_takeWhile s).takeWhile]

/-- **Requests whose headers no lookup tells apart** take the same turn, whatever their body is. -/
theorem serveChunk_headers (h : r.HeadWF) (hhs : ∀ f ∈ hs, PlainHeader f)
    (hlook : ∀ k ∈ lookedUp, RequestText.header { r with headers := hs } k = r.header k) :
    serveChunk env directory w (RequestText.encode { r with headers := hs }) =
      serveChunk env directory w r.encode := by
  -- the C strings of the two requests are requests with the same head and body
  set r₁ : RequestText := { r with body := r.body.takeWhile (· ≠ 0) } with hr₁
  set r₂ : RequestText := { r₁ with headers := hs } with hr₂
  have h₁ : r₁.HeadWF := ⟨h.method, h.target, h.version, h.headers⟩
  have h₂ : r₂.HeadWF := ⟨h.method, h.target, h.version, hhs⟩
  have htext₁ : r.encode.takeWhile (· ≠ 0) = r₁.encode := takeWhile_encode h
  have htext₂ : (RequestText.encode { r with headers := hs }).takeWhile (· ≠ 0) = r₂.encode :=
    takeWhile_encode ⟨h.method, h.target, h.version, hhs⟩
  rw [← serveChunk_takeWhile, ← serveChunk_takeWhile r.encode]
  refine serveChunk_congr (nulFree_takeWhile _) (nulFree_takeWhile _)
    (htext₁ ▸ requestLine_encode h₁) (htext₂ ▸ requestLine_encode h₂) ?_ fun k hk => ?_
  · rw [afterHead_encode h₂.headers, afterHead_encode h₁.headers]
  · have hk' := (lookedUp_ok hk).2
    have hheader : r₂.header k = r₁.header k := hlook k hk
    rw [fields_encode h₂.headers, fields_encode h₁.headers, find?_stored r₂ hk', find?_stored r₁ hk',
      hheader]

/-! ### The order of the headers -/

/-- The length that a request declares, as far as the parser reads it. -/
def RequestText.declared (r : RequestText) : Option ℤ :=
  ((r.header (lit "Content-Length")).map (·.take 255)).bind parseLong

/-- A length that is declared is no larger than the body. -/
def RequestText.BodyFits (r : RequestText) : Prop :=
  ∀ n, r.declared = some n → 0 ≤ n ∧ n ≤ (r.body.takeWhile (· ≠ 0)).length

theorem parse_encode (h : r.HeadWF) (hsize : r.encode.length ≤ HTTP_BUFFER_SIZE)
    (hfits : r.BodyFits) : ∃ data,
    httpRequestFromBuffer (r.encode.takeWhile (· ≠ 0)) =
      .ok (some { r.request with data := data }) := by
  set r₁ : RequestText := { r with body := r.body.takeWhile (· ≠ 0) } with hr₁
  have h₁ : r₁.HeadWF := ⟨h.method, h.target, h.version, h.headers⟩
  have htext : r.encode.takeWhile (· ≠ 0) = r₁.encode := takeWhile_encode h
  have hline := requestLine_encode h₁
  have hfields : fields (fieldLines r₁.headers ++ CRLF ++ r₁.body) = r.headers.map stored :=
    fields_encode h₁.headers r₁.body
  have hafter : afterHead (fieldLines r₁.headers ++ CRLF ++ r₁.body) = CRLF ++ r₁.body :=
    afterHead_encode h₁.headers r₁.body
  have hlength : declaredLength (fieldLines r₁.headers ++ CRLF ++ r₁.body) = r.declared := by
    rw [declaredLength, hfields, find?_stored r (by decide), RequestText.declared]
  rw [httpRequestFromBuffer_eq (nulFree_takeWhile _), htext]
  cases hn : r.declared with
  | none =>
    rw [decode_of_line hline (hlength.trans hn), hfields]
    exact ⟨none, rfl⟩
  | some n =>
    obtain ⟨h0, hle⟩ := hfits n hn
    have htake : r₁.encode.length ≤ HTTP_BUFFER_SIZE := by
      rw [← htext]
      exact (List.takeWhile_sublist _).length_le.trans hsize
    have hshort : (CRLF ++ r₁.body).length ≤ HTTP_BUFFER_SIZE := by
      refine le_trans ?_ htake
      simp [RequestText.encode]
      omega
    have hbody : n + 2 ≤ (CRLF ++ r₁.body).length := by
      simp only [List.length_append, List.length_cons, List.length_nil, hr₁]
      omega
    rw [decode_of_length hline (hlength.trans hn), hfields, hafter, copyBody_of_le h0 hbody hshort]
    exact ⟨_, rfl⟩

theorem exists_serveChunk_encode (h : r.HeadWF) (hsize : r.encode.length ≤ HTTP_BUFFER_SIZE)
    (hfits : r.BodyFits) (env : Env) (directory : Option Bytes) (w : World) :
    ∃ reply stop w', serveChunk env directory w r.encode = .ok (reply, stop, w') := by
  obtain ⟨data, hparse⟩ := parse_encode h hsize hfits
  exact exists_serveChunk hparse env directory w

theorem find?_perm {fs gs : List (Bytes × Bytes)} (hperm : fs.Perm gs) (hgs : (gs.map (·.1)).Nodup)
    (k : Bytes) : (fs.find? fun f => f.1 = k) = gs.find? fun f => f.1 = k := by
  have hfs : (fs.map (·.1)).Nodup := (hperm.map _).nodup_iff.2 hgs
  refine List.find?_eq_find?_of_perm hperm ?_
  intro f hf g hg
  have hname : f.1 = g.1 := (of_decide_eq_true hf.2).trans (of_decide_eq_true hg.2).symm
  exact List.inj_on_of_nodup_map hfs hf.1 hg.1 hname

/-- **The order of the headers does not matter**: with distinct names, and headers in any order, a
request has the same reply, closes the connection or keeps it the same, and leaves the same files.
It is served without a fault when it declares no more than its body. -/
theorem serveChunk_perm (h : r.HeadWF) (hnames : (r.headers.map (·.1)).Nodup)
    (hperm : hs.Perm r.headers) (env : Env) (directory : Option Bytes) (w : World) :
    serveChunk env directory w (RequestText.encode { r with headers := hs }) =
        serveChunk env directory w r.encode ∧
      (r.encode.length ≤ HTTP_BUFFER_SIZE → r.BodyFits →
        ∃ reply stop w', serveChunk env directory w r.encode = .ok (reply, stop, w')) := by
  refine ⟨serveChunk_headers h (fun f hf => h.headers f (hperm.subset hf)) ?_,
    fun hsize hfits => exists_serveChunk_encode h hsize hfits env directory w⟩
  intro k _
  simp only [RequestText.header, find?_perm hperm hnames k]

theorem serveChunk_perm_postNote : ∃ reply stop w',
    serveChunk Env.plain none World.empty postNote.encode = .ok (reply, stop, w') ∧
      serveChunk Env.plain none World.empty
        (RequestText.encode { postNote with headers := postNote.headers.reverse }) =
          .ok (reply, stop, w') := by
  have hhead : postNote.HeadWF := by decide
  obtain ⟨hsame, hserve⟩ := serveChunk_perm hhead (by decide) postNote.headers.reverse_perm Env.plain
    none World.empty
  obtain ⟨reply, stop, w', h⟩ := hserve (by decide) fun n hn => by
    have hthree : postNote.declared = some 3 := rfl
    obtain rfl : (3 : ℤ) = n := Option.some.inj (hthree.symm.trans hn)
    decide
  exact ⟨reply, stop, w', h, hsame.trans h⟩

end Headers

/-! ### The names of the headers -/

def lower (c : UInt8) : UInt8 := if 65 ≤ c ∧ c ≤ 90 then c + 32 else c

/-- The same header with its name in other letters. -/
structure Recased (f g : Bytes × Bytes) : Prop where
  name : g.1.map lower = f.1.map lower
  value : g.2 = f.2

section Names

variable {r : RequestText} {hs : List (Bytes × Bytes)}

/-- A lookup of one of the four names finds it among the headers of these names. -/
theorem header_filter (r : RequestText) {k : Bytes} (hk : k ∈ lookedUp) :
    RequestText.header { r with headers := r.headers.filter fun f => f.1 ∈ lookedUp } k =
      r.header k := by
  have hp : ∀ f : Bytes × Bytes, (f.1 ∈ lookedUp ∧ f.1 = k) ↔ f.1 = k := fun f =>
    and_iff_right_of_imp fun hf => hf ▸ hk
  simp only [RequestText.header, List.find?_filter, decide_eq_true_eq, hp]

/-- **A header of another name** might as well not be there. -/
theorem serveChunk_filter (h : r.HeadWF) (env : Env) (directory : Option Bytes) (w : World) :
    serveChunk env directory w
        (RequestText.encode { r with headers := r.headers.filter fun f => f.1 ∈ lookedUp }) =
      serveChunk env directory w r.encode :=
  serveChunk_headers h (fun f hf => h.headers f (List.mem_filter.1 hf).1)
    fun _ hk => header_filter r hk

theorem filter_recased {fs : List (Bytes × Bytes)} (h : List.Forall₂ (fun f g => Recased f g ∧
      (g.1 = f.1 ∨ f.1 ∉ lookedUp ∧ g.1 ∉ lookedUp)) fs hs) :
    (hs.filter fun f => f.1 ∈ lookedUp) = fs.filter fun f => f.1 ∈ lookedUp := by
  induction h with
  | nil => rfl
  | @cons f g fs gs hfg _ ih =>
    obtain ⟨hcase, hname | ⟨hf, hg⟩⟩ := hfg
    · obtain rfl : g = f := Prod.ext hname hcase.value
      simp only [List.filter_cons, ih]
    · simp only [List.filter_cons, ih, hf, hg, decide_false, Bool.false_eq_true, if_false]

/-- The reply, the decision to close and the files do not depend on the case of the header names. -/
def CaseInsensitive : Prop :=
  ∀ (env : Env) (directory : Option Bytes) (w : World) (r r' : RequestText),
    r.HeadWF → r'.HeadWF → r.encode.length ≤ HTTP_BUFFER_SIZE → r.BodyFits → r'.BodyFits →
    r' = { r with headers := r'.headers } → List.Forall₂ Recased r.headers r'.headers →
    serveChunk env directory w r'.encode = serveChunk env directory w r.encode

/-- **Names are compared byte for byte.**  The case of a name does not matter where neither spelling
is one of the names that are looked up; in any other spelling than these a header is not seen. -/
theorem serveChunk_recase (h : r.HeadWF) (hhs : ∀ f ∈ hs, PlainHeader f)
    (hcase : List.Forall₂ (fun f g => Recased f g ∧
      (g.1 = f.1 ∨ f.1 ∉ lookedUp ∧ g.1 ∉ lookedUp)) r.headers hs)
    (env : Env) (directory : Option Bytes) (w : World) :
    serveChunk env directory w (RequestText.encode { r with headers := hs }) =
        serveChunk env directory w r.encode ∧
      serveChunk env directory w
          (RequestText.encode { r with headers := r.headers.filter fun f => f.1 ∈ lookedUp }) =
        serveChunk env directory w r.encode ∧
      (r.encode.length ≤ HTTP_BUFFER_SIZE → r.BodyFits →
        ∃ reply stop w', serveChunk env directory w r.encode = .ok (reply, stop, w')) := by
  refine ⟨serveChunk_headers h hhs ?_, serveChunk_filter h env directory w,
    fun hsize hfits => exists_serveChunk_encode h hsize hfits env directory w⟩
  intro k hk
  have hhs' := header_filter { r with headers := hs } hk
  simp only [filter_recased hcase] at hhs'
  rw [← hhs', header_filter r hk]

theorem serveChunk_recase_postNote :
    serveChunk Env.plain none World.empty (RequestText.encode { postNote with
        headers := [(lit "host", lit "localhost"), (lit "Content-Length", lit "3")] }) =
      serveChunk Env.plain none World.empty postNote.encode := by
  have hhead : postNote.HeadWF := by decide
  have hhs : ∀ f ∈ [(lit "host", lit "localhost"), (lit "Content-Length", lit "3")],
      PlainHeader f := by decide
  have hhost : Recased (lit "Host", lit "localhost") (lit "host", lit "localhost") :=
    ⟨by decide, rfl⟩
  have hlength : Recased (lit "Content-Length", lit "3") (lit "Content-Length", lit "3") :=
    ⟨rfl, rfl⟩
  exact (serveChunk_recase hhead hhs (.cons ⟨hhost, Or.inr (by decide)⟩
    (.cons ⟨hlength, Or.inl rfl⟩ .nil)) Env.plain none World.empty).1

def getClosingLower : RequestChunk where
  method := lit "GET"
  target := lit "/"
  version := lit "HTTP/1.1"
  headers := [(lit "connection", lit "close")]
  body := []
  wf := by decide
  size := by decide

/-- **In small letters `connection: close` is not seen.** -/
theorem not_caseInsensitive : ¬ CaseInsensitive := by
  intro h
  have hrecased : Recased (lit "Connection", lit "close") (lit "connection", lit "close") :=
    ⟨by decide, rfl⟩
  have hsame := h Env.plain none World.empty getClosing.toRequestText getClosingLower.toRequestText
    getClosing.wf.head getClosingLower.wf.head getClosing.size
    (fun n hn => by cases hn) (fun n hn => by cases hn) rfl (.cons hrecased .nil)
  obtain ⟨reply, w', -, hserve⟩ := getClosing.serveChunk_encode Env.plain none World.empty
  obtain ⟨reply', w'', -, hserve'⟩ := getClosingLower.serveChunk_encode Env.plain none World.empty
  have hcloses : getClosing.request.closes = true := (closes_request getClosing.toRequestText).2 rfl
  have hopen : getClosingLower.request.closes = false := by
    have hnot : ¬ getClosingLower.toRequestText.closes := by
      unfold RequestText.closes
      decide
    rw [← closes_request] at hnot
    simpa using hnot
  rw [hserve, hserve', hcloses, hopen] at hsame
  cases hsame

end Names

end HttpServer

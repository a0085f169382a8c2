import HttpServer.RequestSem
import HttpServer.Lib.Message

/-!
# Requests as clients write them

A `RequestText` is a request before it is written down: three tokens, headers, a body.  `encode`
writes it the way HTTP does, and `http_request_from_buffer` reads it back (`decode_encode`): a request
is a text that the parser takes apart where the client put it together.
-/

namespace HttpServer

open Lib

/-- A request as a client has it. -/
structure RequestText where
  method : Bytes
  target : Bytes
  version : Bytes
  headers : List (Bytes × Bytes)
  body : Bytes

/-- A text that can stand between spaces on the request line. -/
structure PlainToken (s : Bytes) : Prop where
  ne_nil : s ≠ []
  sp : SP ∉ s
  cr : CR ∉ s
  lf : LF ∉ s
  nul : NulFree s

/-- A header that is one line, taken apart at its colon. -/
structure PlainHeader (f : Bytes × Bytes) : Prop where
  name : COLON ∉ f.1 ∧ CR ∉ f.1 ∧ LF ∉ f.1 ∧ NulFree f.1
  value : CR ∉ f.2 ∧ LF ∉ f.2 ∧ NulFree f.2

/-- What `parse_headers` keeps of a header: no leading spaces of the value, and what fits buffers of
256 bytes. -/
def stored (f : Bytes × Bytes) : Bytes × Bytes :=
  (f.1.take 255, (f.2.dropWhile (· = SP)).take 255)

/-- A header that `parse_headers` keeps as it is. -/
structure Fits (f : Bytes × Bytes) : Prop where
  name : f.1.length ≤ 255
  value : f.2.length ≤ 255
  start : f.2.head? ≠ some SP

instance (s : Bytes) : Decidable (PlainToken s) :=
  decidable_of_iff (s ≠ [] ∧ SP ∉ s ∧ CR ∉ s ∧ LF ∉ s ∧ NulFree s)
    ⟨fun ⟨h1, h2, h3, h4, h5⟩ => ⟨h1, h2, h3, h4, h5⟩,
      fun h => ⟨h.ne_nil, h.sp, h.cr, h.lf, h.nul⟩⟩

instance (f : Bytes × Bytes) : Decidable (PlainHeader f) :=
  decidable_of_iff ((COLON ∉ f.1 ∧ CR ∉ f.1 ∧ LF ∉ f.1 ∧ NulFree f.1) ∧
      (CR ∉ f.2 ∧ LF ∉ f.2 ∧ NulFree f.2))
    ⟨fun ⟨h1, h2⟩ => ⟨h1, h2⟩, fun h => ⟨h.name, h.value⟩⟩

instance (f : Bytes × Bytes) : Decidable (Fits f) :=
  decidable_of_iff (f.1.length ≤ 255 ∧ f.2.length ≤ 255 ∧ f.2.head? ≠ some SP)
    ⟨fun ⟨h1, h2, h3⟩ => ⟨h1, h2, h3⟩, fun h => ⟨h.name, h.value, h.start⟩⟩

namespace RequestText

def encode (r : RequestText) : Bytes :=
  r.method ++ SP :: r.target ++ SP :: r.version ++ CRLF ++ fieldLines r.headers ++ CRLF ++ r.body

/-- The value of the first header of that name, without leading spaces. -/
def header (r : RequestText) (name : Bytes) : Option Bytes :=
  (r.headers.find? fun f => f.1 = name).map fun f => f.2.dropWhile (· = SP)

/-- A well-formed request: a body comes with its length, and without a length there is none.  The
target may hold line ends, since the parser cuts it at spaces. -/
structure WF (r : RequestText) : Prop where
  method : PlainToken r.method
  target : r.target ≠ [] ∧ SP ∉ r.target ∧ NulFree r.target
  version : PlainToken r.version
  headers : ∀ f ∈ r.headers, PlainHeader f
  body : NulFree r.body
  length : r.header (lit "Content-Length") = some (decimal r.body.length) ∨
    r.header (lit "Content-Length") = none ∧ r.body = []

instance (r : RequestText) : Decidable r.WF :=
  decidable_of_iff (PlainToken r.method ∧ (r.target ≠ [] ∧ SP ∉ r.target ∧ NulFree r.target) ∧
      PlainToken r.version ∧ (∀ f ∈ r.headers, PlainHeader f) ∧ NulFree r.body ∧
      (r.header (lit "Content-Length") = some (decimal r.body.length) ∨
        r.header (lit "Content-Length") = none ∧ r.body = []))
    ⟨fun ⟨h1, h2, h3, h4, h5, h6⟩ => ⟨h1, h2, h3, h4, h5, h6⟩,
      fun h => ⟨h.method, h.target, h.version, h.headers, h.body, h.length⟩⟩

/-- The part of a well-formed request before the body. -/
structure HeadWF (r : RequestText) : Prop where
  method : PlainToken r.method
  target : r.target ≠ [] ∧ SP ∉ r.target ∧ NulFree r.target
  version : PlainToken r.version
  headers : ∀ f ∈ r.headers, PlainHeader f

theorem WF.head {r : RequestText} (h : r.WF) : r.HeadWF := ⟨h.method, h.target, h.version, h.headers⟩

instance (r : RequestText) : Decidable r.HeadWF :=
  decidable_of_iff (PlainToken r.method ∧ (r.target ≠ [] ∧ SP ∉ r.target ∧ NulFree r.target) ∧
      PlainToken r.version ∧ ∀ f ∈ r.headers, PlainHeader f)
    ⟨fun ⟨h1, h2, h3, h4⟩ => ⟨h1, h2, h3, h4⟩, fun h => ⟨h.method, h.target, h.version, h.headers⟩⟩

/-- The request that the parser makes of the text: the version keeps its CR, a header what fits its
buffers, the body its terminator. -/
def request (r : RequestText) : HttpRequest where
  method := r.method
  requestTarget := r.target
  httpVersion := r.version ++ [CR]
  headers := headerMap (r.headers.map stored)
  data := (r.header (lit "Content-Length")).map fun _ => r.body ++ [0]

end RequestText

/-! ### Lines -/

section Lines

variable {r : RequestText} {f : Bytes × Bytes} {fs : List (Bytes × Bytes)}

theorem fieldOf_fieldLine (h : PlainHeader f) : fieldOf (fieldLine f) = some (stored f) := by
  obtain ⟨htake, hdrop⟩ := takeWhile_ne_append (SP :: f.2) h.name.1
  have hmem : COLON ∈ fieldLine f := by simp [fieldLine]
  rw [fieldOf, if_pos hmem, fieldLine, htake, hdrop]
  simp [stored]

theorem fields_encode (h : ∀ f ∈ fs, PlainHeader f) (body : Bytes) :
    fields (fieldLines fs ++ CRLF ++ body) = fs.map stored := by
  rw [fields, splitHead_fieldLines fun f hf => ⟨(h f hf).name.2.1, (h f hf).value.1⟩,
    List.filterMap_map]
  calc fs.filterMap (fieldOf ∘ fieldLine) = fs.filterMap (some ∘ stored) :=
        List.filterMap_congr fun f hf => fieldOf_fieldLine (h f hf)
    _ = fs.map stored := congrFun List.filterMap_eq_map fs

theorem afterHead_encode (h : ∀ f ∈ fs, PlainHeader f) (body : Bytes) :
    afterHead (fieldLines fs ++ CRLF ++ body) = CRLF ++ body := by
  rw [afterHead, splitHead_fieldLines fun f hf => ⟨(h f hf).name.2.1, (h f hf).value.1⟩]

theorem requestLine_encode (h : r.HeadWF) : requestLine r.encode =
    some (r.method, r.target, r.version ++ [CR], fieldLines r.headers ++ CRLF ++ r.body) := by
  have hsp : ∀ {s : Bytes}, SP ∉ s → ∀ x ∈ s, (fun c => decide (c = SP)) x = false := by
    intro s hs x hx
    have : x ≠ SP := fun hxs => hs (hxs ▸ hx)
    simpa using this
  have hlf : ∀ x ∈ r.version ++ [CR], (fun c => decide (c = LF)) x = false := by
    intro x hx
    have : x ≠ LF := by
      rintro rfl
      rcases List.mem_append.1 hx with hx | hx
      · exact h.version.lf hx
      · revert hx
        decide
    simpa using this
  have h1 := token_append (d := fun c => decide (c = SP)) (c := SP)
    (r.target ++ SP :: (r.version ++ [CR] ++ LF :: (fieldLines r.headers ++ CRLF ++ r.body)))
    h.method.ne_nil (hsp h.method.sp) (by simp)
  have h2 := token_append (d := fun c => decide (c = SP)) (c := SP)
    (r.version ++ [CR] ++ LF :: (fieldLines r.headers ++ CRLF ++ r.body))
    h.target.1 (hsp h.target.2.1) (by simp)
  have h3 := token_append (d := fun c => decide (c = LF)) (c := LF)
    (fieldLines r.headers ++ CRLF ++ r.body) (by simp) hlf (by simp)
  have henc : r.encode = r.method ++ SP :: (r.target ++ SP :: (r.version ++ [CR] ++
      LF :: (fieldLines r.headers ++ CRLF ++ r.body))) := by
    simp [RequestText.encode]
  rw [henc]
  simp only [requestLine, h1, h2, h3]

theorem dropWhile_value {v : Bytes} (h : v.head? ≠ some SP) : v.dropWhile (· = SP) = v := by
  cases v with
  | nil => rfl
  | cons c v =>
    have hc : c ≠ SP := by
      rintro rfl
      apply h
      rfl
    simp [hc]

theorem Fits.dropWhile (h : Fits f) : f.2.dropWhile (· = SP) = f.2 := dropWhile_value h.start

theorem Fits.stored (h : Fits f) : stored f = f := by
  rw [HttpServer.stored, h.dropWhile, List.take_of_length_le h.name, List.take_of_length_le h.value]

theorem map_stored (h : ∀ f ∈ fs, Fits f) : fs.map stored = fs :=
  (List.map_congr_left fun f hf => (h f hf).stored).trans (List.map_id fs)

theorem find?_stored (r : RequestText) {k : Bytes} (hk : k.length < 255) :
    ((r.headers.map stored).find? fun f => f.1 = k).map (·.2) = (r.header k).map (·.take 255) := by
  rw [List.find?_map, Option.map_map, RequestText.header, Option.map_map]
  simp only [Function.comp_def, stored, take_eq_iff hk]

theorem exists_head_encode (h : r.HeadWF) : ∃ s, NulFree s ∧
    ∀ body, RequestText.encode { r with body := body } = s ++ body := by
  have hsep : ¬ SP = 0 ∧ ¬ CR = 0 ∧ ¬ LF = 0 := by decide
  have hlines : NulFree (fieldLines r.headers) :=
    nulFree_fieldLines fun f hf => ⟨(h.headers f hf).name.2.2.2, (h.headers f hf).value.2.2⟩
  refine ⟨r.method ++ SP :: r.target ++ SP :: r.version ++ CRLF ++ fieldLines r.headers ++ CRLF, ?_,
    fun body => rfl⟩
  simp [h.method.nul, h.target.2.2, h.version.nul, hlines, hsep]

theorem nulFree_encode (h : r.WF) : NulFree r.encode := by
  obtain ⟨s, hs, henc⟩ := exists_head_encode h.head
  have hself : r.encode = s ++ r.body := henc r.body
  rw [hself]
  exact nulFree_append.2 ⟨hs, h.body⟩

/-- The C string of a request ends where that of its body does. -/
theorem takeWhile_encode (h : r.HeadWF) : r.encode.takeWhile (· ≠ 0) =
    RequestText.encode { r with body := r.body.takeWhile (· ≠ 0) } := by
  obtain ⟨s, hs, henc⟩ := exists_head_encode h
  have hself : r.encode = s ++ r.body := henc r.body
  rw [hself, henc, hs.takeWhile_append]

end Lines

/-! ### The round trip -/

section RoundTrip

variable {r : RequestText}

theorem copyBody_encode {body : Bytes} (h : body.length + 1 < 2 ^ 63) :
    copyBody (CRLF ++ body) body.length = .ok (body ++ [0]) := by
  have hlen : (CRLF ++ body).length = body.length + 2 := by simp
  have hinside : CopyInside (CRLF ++ body) body.length := by
    simp only [CopyInside, LONG_MAX]
    omega
  rw [copyBody_eq_ok.2 ⟨hinside, rfl⟩]
  have hdrop : (CRLF ++ body).drop 2 = body := rfl
  rw [hdrop, Int.toNat_natCast, List.take_left]

theorem take_decimal {n : ℕ} (h : n < 2 ^ 63) : (decimal n).take 255 = decimal n :=
  have hdigits := length_decimal_of_lt (by omega) (h.trans (by norm_num : 2 ^ 63 < 10 ^ 19))
  List.take_of_length_le (hdigits.trans (by omega))

/-- **Decoding undoes encoding**: the parser takes the text of a request apart where it was put
together. -/
theorem httpRequestFromBuffer_encode (h : r.WF) (hsize : r.encode.length < 2 ^ 63) :
    httpRequestFromBuffer r.encode = .ok (some r.request) := by
  have hbody : r.body.length + 1 < 2 ^ 63 := by
    have : r.body.length + 4 ≤ r.encode.length := by
      simp [RequestText.encode]
      omega
    omega
  have hfields := fields_encode h.headers r.body
  have hafter := afterHead_encode h.headers r.body
  rw [httpRequestFromBuffer_eq (nulFree_encode h), decode, requestLine_encode h.head]
  simp only [declaredLength, hfields, hafter]
  rw [find?_stored r (by decide)]
  rcases h.length with hcl | ⟨hcl, -⟩
  · rw [hcl, Option.map_some, Option.bind_some, take_decimal (by omega), parseLong_decimal (by omega)]
    simp only [copyBody_encode hbody]
    simp [RequestText.request, hcl, Except.map]
  · rw [hcl]
    simp [RequestText.request, hcl]

theorem getCstr_request {k : Bytes} (hk : NulFree k) (hlen : k.length < 255) :
    r.request.headers.getCstr k = (r.header k).map (·.take 255) := by
  rw [Hashmap.getCstr, RequestText.request, get_headerMap hk, find?_stored r hlen]

theorem getCstr_request_of_fits (hfits : ∀ f ∈ r.headers, Fits f) {k : Bytes} (hk : NulFree k) :
    r.request.headers.getCstr k = r.header k := by
  have hheader : (r.headers.find? fun f => f.1 = k).map (·.2) = r.header k := by
    rw [RequestText.header]
    apply Option.map_congr
    intro f hf
    rw [(hfits f (List.mem_of_find?_eq_some hf)).dropWhile]
  rw [Hashmap.getCstr, RequestText.request, map_stored hfits, get_headerMap hk, hheader]

theorem find?_of_mem {fs : List (Bytes × Bytes)} (h : (fs.map (·.1)).Nodup) {f : Bytes × Bytes}
    (hf : f ∈ fs) : (fs.find? fun g => g.1 = f.1) = some f := by
  cases hfind : fs.find? fun g => g.1 = f.1 with
  | none =>
    have := List.find?_eq_none.1 hfind f hf
    simp at this
  | some g =>
    have hg := List.mem_of_find?_eq_some hfind
    have hname : g.1 = f.1 := by simpa using List.find?_some hfind
    rw [List.inj_on_of_nodup_map h hg hf hname]

theorem header_of_mem (h : (r.headers.map (·.1)).Nodup) {f : Bytes × Bytes} (hf : f ∈ r.headers) :
    r.header f.1 = some (f.2.dropWhile (· = SP)) := by
  rw [RequestText.header, find?_of_mem h hf]
  rfl

theorem header_of_not_mem {k : Bytes} (hk : k ∉ r.headers.map (·.1)) : r.header k = none := by
  have : (r.headers.find? fun g => g.1 = k) = none :=
    List.find?_eq_none.2 fun g hg hgk => hk (List.mem_map.2 ⟨g, hg, by simpa using hgk⟩)
  rw [RequestText.header, this]
  rfl

/-- **Whole requests survive the wire.**  Every method, target, header and body is found again in the
parsed request, and nothing else. -/
theorem decode_encode (h : r.WF) (hsize : r.encode.length < 2 ^ 63)
    (hnames : (r.headers.map (·.1)).Nodup)
    (hfits : ∀ f ∈ r.headers, Fits f) :
    ∃ request, httpRequestFromBuffer r.encode = .ok (some request) ∧
      request.method = r.method ∧ request.requestTarget = r.target ∧
      (∀ f ∈ r.headers, request.headers.getCstr f.1 = some f.2) ∧
      (∀ k, NulFree k → k ∉ r.headers.map (·.1) → request.headers.getCstr k = none) ∧
      ((∀ f ∈ r.headers, f.1 ≠ lit "Content-Length") → request.data = none) ∧
      ((∃ f ∈ r.headers, f.1 = lit "Content-Length") → request.data = some (r.body ++ [0])) := by
  refine ⟨r.request, httpRequestFromBuffer_encode h hsize, rfl, rfl, ?_, ?_, ?_, ?_⟩
  · intro f hf
    rw [getCstr_request_of_fits hfits (h.headers f hf).name.2.2.2, header_of_mem hnames hf,
      (hfits f hf).dropWhile]
  · intro k hk hnot
    rw [getCstr_request_of_fits hfits hk, header_of_not_mem hnot]
  · intro hnone
    have : lit "Content-Length" ∉ r.headers.map (·.1) := by
      rintro hmem
      obtain ⟨f, hf, hname⟩ := List.mem_map.1 hmem
      exact hnone f hf hname
    simp [RequestText.request, header_of_not_mem this]
  · rintro ⟨f, hf, hname⟩
    have := header_of_mem hnames hf
    rw [hname] at this
    simp [RequestText.request, this]

def postNote : RequestText where
  method := lit "POST"
  target := lit "/files/note"
  version := lit "HTTP/1.1"
  headers := [(lit "Host", lit "localhost"), (lit "Content-Length", lit "3")]
  body := lit "abc"

theorem decode_encode_postNote : ∃ request,
    httpRequestFromBuffer postNote.encode = .ok (some request) ∧
      request.method = lit "POST" ∧ request.requestTarget = lit "/files/note" ∧
      request.headers.getCstr (lit "Host") = some (lit "localhost") ∧
      request.data = some (lit "abc" ++ [0]) := by
  obtain ⟨request, h, hm, ht, hget, -, -, hdata⟩ :=
    decode_encode (r := postNote) (by decide) (by decide) (by decide) (by decide)
  exact ⟨request, h, hm, ht, hget (lit "Host", lit "localhost") (by decide),
    hdata ⟨(lit "Content-Length", lit "3"), by decide, rfl⟩⟩

end RoundTrip

end HttpServer

import HttpServer.ResponseSem

/-!
# Builders by the fields they carry

The order of the header lines is that of the buckets, so a builder is described by its fields up to
order.  A builder that carries the length of its body is described by `Sends`, each option is a step on
that description, and the buffer of such a builder is one message (`Sends.message`).
-/

namespace HttpServer

open Lib

def contentLength (n : ℕ) : Bytes × Bytes := (lit "Content-Length", decimal n)

def contentType (type : String) : Bytes × Bytes := (lit "Content-Type", lit type)

def contentEncoding : Bytes × Bytes := (lit "Content-Encoding", lit "gzip")

def connectionClose : Bytes × Bytes := (lit "Connection", lit "close")

/-- Fields that can be sent: a name without colon, no CR and no NUL. -/
def Sendable (fs : List (Bytes × Bytes)) : Prop :=
  ∀ f ∈ fs, (COLON ∉ f.1 ∧ CR ∉ f.1 ∧ CR ∉ f.2) ∧ NulFree f.1 ∧ NulFree f.2

theorem Sendable.cons {f : Bytes × Bytes} {fs : List (Bytes × Bytes)}
    (h : (COLON ∉ f.1 ∧ CR ∉ f.1 ∧ CR ∉ f.2) ∧ NulFree f.1 ∧ NulFree f.2) (hs : Sendable fs) :
    Sendable (f :: fs) := by
  intro g hg
  rcases List.mem_cons.1 hg with rfl | hg
  · exact h
  · exact hs g hg

theorem Sendable.contentLength (n : ℕ) {fs : List (Bytes × Bytes)} (h : Sendable fs) :
    Sendable (contentLength n :: fs) :=
  have hname : (COLON ∉ lit "Content-Length" ∧ CR ∉ lit "Content-Length") ∧
      NulFree (lit "Content-Length") := by decide
  h.cons ⟨⟨hname.1.1, hname.1.2, not_mem_decimal (by decide)⟩, hname.2, nulFree_decimal n⟩

theorem version_ok : SP ∉ lit "HTTP/1.1" ∧ CR ∉ lit "HTTP/1.1" := by decide

theorem length_fieldLines_perm {fs gs : List (Bytes × Bytes)} (h : fs.Perm gs) :
    (fieldLines fs).length = (fieldLines gs).length :=
  (h.flatMap_right _).length_eq

/-! ### The fields of a builder -/

namespace HttpResponseBuilder

variable {env : Env} {builder : HttpResponseBuilder} {fs gs : List (Bytes × Bytes)}

theorem finalHeaders_of_some {headers : Hashmap Bytes} (h : builder.headers = some headers) :
    builder.finalHeaders = some headers := by
  simp only [finalHeaders, h]

theorem find?_of_unique {k : Bytes} {p : Bytes × Bytes} (hp : p.1 = k)
    (hfs : fs.Perm (p :: gs)) (hgs : ∀ g ∈ gs, g.1 ≠ k) : (fs.find? fun f => f.1 = k) = some p := by
  have hfilter : (gs.filter fun f => f.1 = k) = [] := List.filter_eq_nil_iff.2 fun g hg => by
    simpa using hgs g hg
  have hperm := hfs.filter fun f => decide (f.1 = k)
  rw [List.filter_cons_of_pos (by simpa using hp), hfilter] at hperm
  rw [← List.head?_filter, List.perm_singleton.1 hperm]
  rfl

theorem bodyLength_of_unique {n : ℕ} (h : fs.Perm (contentLength n :: gs))
    (hgs : ∀ g ∈ gs, g.1 ≠ lit "Content-Length") : bodyLength fs = n := by
  have hfind := find?_of_unique (k := lit "Content-Length") rfl h hgs
  simp only [bodyLength, hfind, contentLength, ofDigits_decimal]

theorem get_of_unique {headers : Hashmap Bytes} {k v : Bytes} (hwf : headers.WF)
    (h : headers.entries.Perm ((k, v) :: gs)) (hk : NulFree k) (hgs : ∀ g ∈ gs, g.1 ≠ k) :
    headers.get k = some v := by
  rw [Hashmap.get_eq_find? hwf hk, find?_of_unique rfl h hgs]
  rfl

/-! ### Options without a body -/

section Bare

theorem entries_close : (Hashmap.create.set (lit "Connection") (lit "close")).entries =
    [connectionClose] := by
  have := Hashmap.entries_set (Hashmap.wf_create (α := Bytes)) (lit "Connection") (lit "close")
  rw [Hashmap.entries_create] at this
  exact List.perm_singleton.1 this

/-- `CLOSE` on a builder without headers makes `construct` give it a map. -/
theorem finalHeaders_close (env : Env) (hh : builder.headers = none) : ∃ headers,
    (builder.option env .close).finalHeaders = some headers ∧ headers.entries = [connectionClose] := by
  refine ⟨Hashmap.create.set (lit "Connection") (lit "close"), ?_, entries_close⟩
  simp [finalHeaders, option, hh]

end Bare

/-! ### Builders with a body -/

/-- The builder sends `n` bytes of `data` under the status `status`, with the fields `gs` and the
length. -/
structure Sends (builder : HttpResponseBuilder) (status : HttpStatus) (gs : List (Bytes × Bytes))
    (data : Bytes) (n : ℕ) : Prop where
  headers : ∃ headers, builder.headers = some headers ∧ headers.WF ∧
    headers.entries.Perm (contentLength n :: gs)
  unique : ∀ g ∈ gs, g.1 ≠ lit "Content-Length"
  sendable : Sendable gs
  data : builder.data = some data
  version : builder.httpVersion = lit "HTTP/1.1"
  status : builder.statusCode = status

/-- The headers of the builder declare `n` bytes, and are the fields `gs` else. -/
structure Declares (builder : HttpResponseBuilder) (status : HttpStatus) (gs : List (Bytes × Bytes))
    (n : ℕ) : Prop where
  headers : ∃ headers, builder.headers = some headers ∧ headers.WF ∧
    headers.entries.Perm (contentLength n :: gs)
  unique : ∀ g ∈ gs, g.1 ≠ lit "Content-Length"
  sendable : Sendable gs
  version : builder.httpVersion = lit "HTTP/1.1"
  status : builder.statusCode = status

theorem sends_iff {status : HttpStatus} {data : Bytes} {n : ℕ} : builder.Sends status gs data n ↔
    builder.Declares status gs n ∧ builder.data = some data :=
  ⟨fun h => ⟨⟨h.headers, h.unique, h.sendable, h.version, h.status⟩, h.data⟩,
    fun ⟨h, hd⟩ => ⟨h.headers, h.unique, h.sendable, hd, h.version, h.status⟩⟩

/-- The number of bytes of a message: the status line, the fields with the empty line, the body. -/
def messageLength (status : HttpStatus) (fs : List (Bytes × Bytes)) (n : ℕ) : ℕ :=
  (statusLine (lit "HTTP/1.1") status.code status.reasonPhrase ++ CRLF).length +
    (fieldLines fs).length + 2 + n

theorem connectionClose_ok : ((COLON ∉ connectionClose.1 ∧ CR ∉ connectionClose.1 ∧
      CR ∉ connectionClose.2) ∧ NulFree connectionClose.1 ∧ NulFree connectionClose.2) ∧
    connectionClose.1 ≠ lit "Content-Length" := by decide

def closeField (closes : Bool) : List (Bytes × Bytes) := if closes then [connectionClose] else []

theorem length_fieldLines_cons (f : Bytes × Bytes) (fs : List (Bytes × Bytes)) :
    (fieldLines (f :: fs)).length = f.1.length + f.2.length + 4 + (fieldLines fs).length := by
  have h := length_fieldLine f
  simp only [fieldLines, List.flatMap_cons, List.length_append, h, List.length_cons, List.length_nil]
  omega

theorem length_fieldLines_close (closes : Bool) (fs : List (Bytes × Bytes)) :
    (fieldLines (closeField closes ++ fs)).length =
      (if closes then 19 else 0) + (fieldLines fs).length := by
  cases closes with
  | false => simp [closeField]
  | true =>
    have h1 : connectionClose.1.length = 10 := rfl
    have h2 : connectionClose.2.length = 5 := rfl
    simp [closeField, length_fieldLines_cons, h1, h2]

theorem messageLength_ok (n : ℕ) (fs : List (Bytes × Bytes)) :
    messageLength .httpOk (contentLength n :: fs) n =
      37 + (decimal n).length + (fieldLines fs).length + n := by
  have h1 : (statusLine (lit "HTTP/1.1") (HttpStatus.code .httpOk) (HttpStatus.reasonPhrase .httpOk) ++
    CRLF).length = 17 := by decide
  have h2 : (contentLength n).1.length = 14 := rfl
  have h3 : (contentLength n).2.length = (decimal n).length := rfl
  rw [messageLength, h1, length_fieldLines_cons, h2, h3]
  omega

section Body

variable {status : HttpStatus} {data output : Bytes} {n : ℕ}

theorem length_message (h : builder.Sends status gs data n) {fields : List (Bytes × Bytes)}
    {body : Bytes} (hp : fields.Perm (contentLength n :: gs)) (hb : body.length = n) :
    (builder.message fields body).render.length = messageLength status (contentLength n :: gs) n := by
  rw [messageLength, ← length_fieldLines_perm hp, ← hb, ← h.version, ← h.status]
  simp [Message.render, HttpResponseBuilder.message]
  omega

theorem Declares.laid (h : builder.Declares status gs n) : ∃ headers,
    builder.finalHeaders = some headers ∧ headers.entries.Perm (contentLength n :: gs) ∧
      headers.entries ≠ [] ∧ Sendable headers.entries ∧
      headers.getCstr (lit "Content-Length") = some (decimal n) := by
  obtain ⟨headers, hheaders, hwf, hperm⟩ := h.headers
  refine ⟨headers, finalHeaders_of_some hheaders, hperm, ?_, ?_, ?_⟩
  · intro hnil
    rw [hnil] at hperm
    exact absurd hperm.length_eq (by simp)
  · exact fun f hf => h.sendable.contentLength n f (hperm.subset hf)
  · exact get_of_unique hwf hperm (by decide) h.unique

/-- **A builder that carries the length of its body** is sent as one message. -/
theorem Sends.message (h : builder.Sends status gs data n) (env : Env)
    (hlen : messageLength status (contentLength n :: gs) n + 2 < 2 ^ 63) :
    ∃ fields, fields.Perm (contentLength n :: gs) ∧
      (builder.message fields (env.readPast data n)).WF ∧
      (builder.construct env).buffer env = (builder.message fields (env.readPast data n)).render := by
  obtain ⟨headers, hheaders, hperm, hne, hall, hget⟩ := (sends_iff.1 h).1.laid
  refine ⟨headers.entries, hperm, ⟨?_, HttpStatus.code_range _, (HttpStatus.reasonPhrase_ok _).1,
    fun f hf => (hall f hf).1, ?_⟩, ?_⟩
  · simpa only [HttpResponseBuilder.message, h.version] using version_ok
  · rw [HttpResponseBuilder.message, length_readPast, bodyLength_of_unique hperm h.unique]
  · rw [messageLength, ← length_fieldLines_perm hperm, ← h.version, ← h.status] at hlen
    exact buffer_body hheaders h.data hne (nulFree_fieldLines fun f hf => (hall f hf).2) hget hlen

/-- The counters at the end of `http_response_to_buffer`, when the message fits the size. -/
theorem Sends.offset (h : builder.Sends status gs data n) (env : Env) :
    ((builder.construct env).toBuffer env).offset =
      max (builder.construct env).totalSize builder.head.length + 2 := by
  obtain ⟨headers, hheaders, -, -, -, hget⟩ := (sends_iff.1 h).1.laid
  exact offset_of_length hheaders h.data hget

theorem entries_two (f g : Bytes × Bytes) :
    ((Hashmap.create.set f.1 f.2).set g.1 g.2).WF ∧
      ((Hashmap.create.set f.1 f.2).set g.1 g.2).entries.Perm [g, f] := by
  have h1 := Hashmap.wf_create.set f.1 f.2
  refine ⟨h1.set _ _, (Hashmap.entries_set h1 _ _).trans (List.Perm.cons _ ?_)⟩
  have := Hashmap.entries_set (Hashmap.wf_create (α := Bytes)) f.1 f.2
  rwa [Hashmap.entries_create] at this

/-- A builder that is given a type, a length and a body; one that closes adds its field. -/
theorem sends_typed {type : String} {body : Bytes}
    (htype : COLON ∉ lit type ∧ CR ∉ lit type ∧ NulFree (lit type))
    (hv : builder.httpVersion = lit "HTTP/1.1") (hst : builder.statusCode = status) :
    ((builder.option env (.headers ((Hashmap.create.set (lit "Content-Type") (lit type)).set
      (lit "Content-Length") (decimal n)))).option env (.body body)).Sends status
        (closeField builder.shouldClose ++ [contentType type]) (body.takeWhile (· ≠ 0) ++ [0]) n := by
  obtain ⟨hwf, hperm⟩ := entries_two (contentType type) (contentLength n)
  have hname : (COLON ∉ lit "Content-Type" ∧ CR ∉ lit "Content-Type") ∧
      NulFree (lit "Content-Type") ∧ lit "Content-Type" ≠ lit "Content-Length" := by decide
  have hunique : ∀ g ∈ [contentType type], g.1 ≠ lit "Content-Length" := fun g hg =>
    List.mem_singleton.1 hg ▸ hname.2.2
  have hsendable : Sendable [contentType type] := by
    intro g hg
    rw [List.mem_singleton.1 hg]
    exact ⟨⟨hname.1.1, hname.1.2, htype.2.1⟩, hname.2.1, htype.2.2⟩
  cases hc : builder.shouldClose with
  | false =>
    have hopen : ¬ builder.shouldClose = true := by simp [hc]
    exact ⟨⟨_, congrArg some (if_neg hopen), hwf, hperm⟩, hunique, hsendable, rfl, hv, hst⟩
  | true =>
    have hentries := ((Hashmap.entries_set hwf (lit "Connection") (lit "close")).trans
      (hperm.cons _)).trans (List.Perm.swap _ _ _)
    refine ⟨⟨_, congrArg some (if_pos hc), hwf.set _ _, hentries⟩, ?_,
      hsendable.cons connectionClose_ok.1, rfl, hv, hst⟩
    intro g hg
    rcases List.mem_cons.1 hg with rfl | hg
    · exact connectionClose_ok.2
    · exact hunique g hg

theorem Declares.close (h : builder.Declares status gs n) (env : Env) :
    (builder.option env .close).Declares status (connectionClose :: gs) n := by
  obtain ⟨⟨headers, hheaders, hwf, hperm⟩, hu, hs, hv, hst⟩ := h
  refine ⟨⟨headers.set (lit "Connection") (lit "close"), by simp [option, hheaders],
    hwf.set _ _, ?_⟩, ?_, hs.cons connectionClose_ok.1, hv, hst⟩
  · exact ((Hashmap.entries_set hwf _ _).trans (hperm.cons _)).trans (List.Perm.swap _ _ _)
  · intro g hg
    rcases List.mem_cons.1 hg with rfl | hg
    · exact connectionClose_ok.2
    · exact hu g hg

theorem Sends.close (h : builder.Sends status gs data n) (env : Env) :
    (builder.option env .close).Sends status (connectionClose :: gs) data n :=
  sends_iff.2 ⟨(sends_iff.1 h).1.close env, h.data⟩

theorem Declares.get_length (h : builder.Declares status gs n) (hn : n < 2 ^ 63) :
    ∃ headers, builder.headers = some headers ∧ headers.WF ∧
      headers.entries.Perm (contentLength n :: gs) ∧
      headers.get (lit "Content-Length") = some (decimal n) ∧
      sizeAdd 0 ((parseLong (decimal n)).getD 0) = n := by
  obtain ⟨headers, hheaders, hwf, hperm⟩ := h.headers
  refine ⟨headers, hheaders, hwf, hperm, get_of_unique hwf hperm (by decide) h.unique, ?_⟩
  rw [parseLong_decimal hn, Option.getD_some, sizeAdd_of_lt (by omega), Nat.zero_add]

/-- `COMPRESSION_GZIP`, when it succeeds, replaces the length and the data. -/
theorem Declares.compressionGzip (h : builder.Declares status gs n) (hd : builder.data = some data)
    (hn : n < 2 ^ 63) (hout : env.gzipCompress (env.readPast data n) = some output) :
    (builder.option env .compressionGzip).Declares status (contentEncoding :: gs) output.length ∧
      (builder.option env .compressionGzip).data = if output = [] then none else some output := by
  obtain ⟨headers, hheaders, hwf, hperm, hget, hsize⟩ := h.get_length hn
  obtain ⟨-, hu, hs, hv, hst⟩ := h
  obtain ⟨-, hwf', hdel⟩ := Hashmap.entries_delete hwf (by decide) hget
  have hrest : (headers.delete (lit "Content-Length")).2.entries.Perm gs :=
    (hdel.symm.trans hperm).cons_inv
  have hencoding : ((COLON ∉ contentEncoding.1 ∧ CR ∉ contentEncoding.1 ∧ CR ∉ contentEncoding.2) ∧
      NulFree contentEncoding.1 ∧ NulFree contentEncoding.2) ∧
      contentEncoding.1 ≠ lit "Content-Length" := by decide
  have heq : builder.option env .compressionGzip =
      { builder with
        headers := some (((headers.delete (lit "Content-Length")).2.set (lit "Content-Length")
          (decimal output.length)).set (lit "Content-Encoding") (lit "gzip"))
        data := if output = [] then none else some output } := by
    simp only [option, HttpResponseBuilder.compressionGzip, hd, hheaders, hget, hsize, hout]
  rw [heq]
  refine ⟨⟨⟨_, rfl, (hwf'.set _ _).set _ _, ?_⟩, ?_, hs.cons hencoding.1, hv, hst⟩, rfl⟩
  · refine ((Hashmap.entries_set (hwf'.set _ _) _ _).trans (List.Perm.cons _ ?_)).trans
      (List.Perm.swap _ _ _)
    exact (Hashmap.entries_set hwf' _ _).trans (hrest.cons _)
  · intro g hg
    rcases List.mem_cons.1 hg with rfl | hg
    · exact hencoding.2
    · exact hu g hg

theorem Sends.compressionGzip (h : builder.Sends status gs data n) (hn : n < 2 ^ 63)
    (hout : env.gzipCompress (env.readPast data n) = some output) (hne : output ≠ []) :
    (builder.option env .compressionGzip).Sends status (contentEncoding :: gs) output
      output.length := by
  obtain ⟨hdeclares, hdata⟩ := (sends_iff.1 h).1.compressionGzip h.data hn hout
  rw [if_neg hne] at hdata
  exact sends_iff.2 ⟨hdeclares, hdata⟩

theorem Sends.compressionGzip_none (h : builder.Sends status gs data n) (hn : n < 2 ^ 63)
    (hout : env.gzipCompress (env.readPast data n) = none) :
    builder.option env .compressionGzip = builder := by
  obtain ⟨headers, hheaders, -, -, hget, hsize⟩ := (sends_iff.1 h).1.get_length hn
  simp only [option, HttpResponseBuilder.compressionGzip, h.data, hheaders, hget, hsize, hout]

end Body

end HttpResponseBuilder

end HttpServer

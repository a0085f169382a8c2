import HttpServer.ChildLoop
import HttpServer.Children
import HttpServer.CloseLine
import HttpServer.Lib.Stream

/-!
# The stream of replies

What a client finds on its connection is the replies one after the other, and nothing else tells it
where one of them ends.  It reads one message for each chunk that was taken (`client_reads`): the
line end that is left over behind an answer without body is behind the last one only, since that
answer closes.  The head of a message holds nothing that a client sent: its fields are those of
`OwnField`.
-/

namespace HttpServer

open Lib HttpResponseBuilder

variable {env : Env} {directory : Option Bytes} {request : HttpRequest} {w w' : World}
  {reply : Reply} {chunk : Bytes} {m : Message} {rest : Bytes}

def OwnField (f : Bytes × Bytes) : Prop :=
  f ∈ [contentType "text/plain", contentType "application/octet-stream", contentEncoding,
    connectionClose] ∨ ∃ n, f = contentLength n

/-- The message is at the front of the reply, with its status, and with fields of the program only. -/
structure Reply.Shows (reply : Reply) (m : Message) : Prop where
  version : m.version = lit "HTTP/1.1"
  code : m.code = reply.response.status.code
  reason : m.reason = reply.response.status.reasonPhrase
  fields : ∀ f ∈ m.fields, OwnField f
  text : m.render <+: reply.sent

/-! ### One reply -/

theorem reads_error (htail : env.tail = []) (status : HttpStatus) (closes : Bool)
    (h : reply = sendResponse env ((errorBuilder env status closes).construct env) ∨
      reply = sendMeasured env ((errorBuilder env status closes).construct env)) :
    ∃ m, reply.Shows m ∧ ReadsAs reply.sent m (if closes then CRLF else []) := by
  set m := (createHttpResponseBuilder status).message (closeField closes) [] with hm
  have hbuffer := buffer_errorBuilder env status closes
  rw [← hm] at hbuffer
  have hfree : NulFree (m.render ++ if closes then CRLF else []) := nulFree_errorMessage status closes
  have hsent : reply.sent = m.render ++ (if closes then CRLF else []) ∧
      reply.response.status = status := by
    rcases h with rfl | rfl
    · refine ⟨?_, (status_construct _).trans (by cases closes <;> rfl)⟩
      rw [← hbuffer]
      exact message_eq_buffer env _
    · refine ⟨?_, (status_construct _).trans (by cases closes <;> rfl)⟩
      simp only [sendMeasured]
      rw [hbuffer, htail, List.append_nil, hfree.takeWhile]
  refine ⟨m, ⟨rfl, ?_, ?_, ?_, ?_⟩, ?_⟩
  · rw [hsent.2]
    rfl
  · rw [hsent.2]
    rfl
  · intro f hf
    have hclose : f ∈ closeField closes := hf
    cases closes with
    | false => cases hclose
    | true =>
      rw [List.mem_singleton.1 hclose]
      exact Or.inl (by simp)
  · rw [hsent.1]
    exact List.prefix_append _ _
  · rw [hsent.1]
    exact readsAs_render (wf_errorMessage status closes) _

theorem reads_sends (env : Env) {builder : HttpResponseBuilder} {status : HttpStatus}
    {gs : List (Bytes × Bytes)} {data : Bytes} {n : ℕ} (h : builder.Sends status gs data n)
    (hgs : ∀ g ∈ gs, OwnField g)
    (hfits : messageLength status (contentLength n :: gs) n + 2 ≤ INT_MAX) :
    ∃ m, (sendResponse env (builder.construct env)).Shows m ∧
      ReadsAs (sendResponse env (builder.construct env)).sent m [] := by
  obtain ⟨fields, hperm, hwf, hbuffer⟩ := h.message env (by
    simp only [INT_MAX] at hfits
    omega)
  set m := builder.message fields (env.readPast data n) with hm
  have hsent : (sendResponse env (builder.construct env)).sent = m.render := by
    rw [← hbuffer]
    exact message_eq_buffer env _
  have hstatus : (sendResponse env (builder.construct env)).response.status = builder.statusCode :=
    status_construct _
  refine ⟨m, ⟨h.version, ?_, ?_, ?_, ?_⟩, ?_⟩
  · rw [hstatus]
    rfl
  · rw [hstatus]
    rfl
  · intro f hf
    rcases List.mem_cons.1 (hperm.subset hf) with rfl | hg
    · exact Or.inr ⟨n, rfl⟩
    · exact hgs f hg
  · rw [hsent]
  · rw [hsent]
    simpa using readsAs_render hwf []

theorem own_closeField {closes : Bool} {gs : List (Bytes × Bytes)} (h : ∀ g ∈ gs, OwnField g) :
    ∀ g ∈ closeField closes ++ gs, OwnField g := by
  intro g hg
  rcases List.mem_append.1 hg with hg | hg
  · cases closes with
    | false => cases hg
    | true =>
      rw [List.mem_singleton.1 hg]
      exact Or.inl (by simp)
  · exact h g hg

theorem own_echoFields (closes encoded : Bool) : ∀ g ∈ echoFields closes encoded, OwnField g := by
  refine own_closeField fun g hg => Or.inl ?_
  rcases List.mem_append.1 hg with hg | hg
  · cases encoded with
    | false => cases hg
    | true =>
      rw [List.mem_singleton.1 hg]
      simp
  · rw [List.mem_singleton.1 hg]
    simp

/-- The counters can count every file, also with the line that closes the connection. -/
def World.Small (w : World) : Prop :=
  ∀ path content, w.files path = some content → FileFits true content

theorem FileFits.of_true {closes : Bool} {content : Bytes} (h : FileFits true content) :
    FileFits closes content := by
  unfold FileFits at h ⊢
  cases closes <;> simp at h ⊢ <;> omega

/-- **A reply is one message**, with a line end behind it only when the connection closes. -/
theorem reads_reply (hg : env.GzipSane) (htail : env.tail = [])
    (hlen : chunk.length ≤ HTTP_BUFFER_SIZE) (hsmall : w.Small) {stop : Bool}
    (h : serveChunk env directory w chunk = .ok (reply, stop, w')) :
    ∃ m rest, reply.Shows m ∧ ReadsAs reply.sent m rest ∧
      (rest = [] ∨ rest = CRLF ∧ stop = true) := by
  have hshort : (chunk.takeWhile (· ≠ 0)).length ≤ HTTP_BUFFER_SIZE :=
    (List.takeWhile_sublist _).length_le.trans hlen
  rcases turn_of_serveChunk h with ⟨-, rfl, -, -⟩ | ⟨request, hr, rfl, hanswer⟩
  · obtain ⟨m, hshows, hreads⟩ := reads_error htail .httpBadRequest false
      (Or.inr rfl)
    exact ⟨m, [], hshows, hreads, Or.inl rfl⟩
  obtain ⟨htarget, hlength, hvalue⟩ := bounds_of_parse (nulFree_takeWhile chunk) hr
  have hkind := reply_of_kind hanswer
  cases hk : answerKind directory request w with
  | bare =>
    rw [hk] at hkind
    obtain ⟨status, hreply⟩ := hkind
    obtain ⟨m, hshows, hreads⟩ := reads_error htail _ _ hreply
    refine ⟨m, _, hshows, hreads, ?_⟩
    cases request.closes with
    | false => exact Or.inl rfl
    | true => exact Or.inr ⟨rfl, rfl⟩
  | refused =>
    rw [hk] at hkind
    obtain ⟨m, hshows, hreads⟩ := reads_error htail _ _ (Or.inl hkind)
    exact ⟨m, [], hshows, hreads, Or.inl rfl⟩
  | echo p =>
    rw [hk] at hkind
    have hsub : List.Sublist p request.requestTarget := by
      rw [answerKind_echo hk]
      exact List.sublist_append_right _ _
    have hp := htarget.sublist hsub
    have hplen := hsub.length_le.trans (hlength.trans hshort)
    obtain ⟨pad, hsends⟩ := sends_echo hg request hp (hplen.trans_lt (by norm_num))
    have hfits := (framed_iff_of_sends hsends).1 (framed_echo hg hp hplen)
    obtain ⟨m, hshows, hreads⟩ := reads_sends env hsends (own_echoFields _ _) hfits
    rw [← hkind] at hshows hreads
    exact ⟨m, [], hshows, hreads, Or.inl rfl⟩
  | userAgent v =>
    rw [hk] at hkind
    have hv := hvalue _ v (by decide) (answerKind_userAgent hk)
    have hsends := @sends_userAgent env request v
    have hframed : Framed env (userAgentBuilder env request v) := framed_text hsends
      ((length_echoFields request.closes false).trans (by omega)) (by omega)
    obtain ⟨m, hshows, hreads⟩ := reads_sends env hsends (own_echoFields request.closes false)
      ((framed_iff_of_sends hsends).1 hframed)
    rw [← hkind] at hshows hreads
    exact ⟨m, [], hshows, hreads, Or.inl rfl⟩
  | file content =>
    rw [hk] at hkind
    obtain ⟨d, name, -, -, -, hf⟩ := getFiles_of_file hk
    have hfits : FileFits request.closes content := (hsmall _ content hf).of_true
    have hown : ∀ g ∈ closeField request.closes ++ [contentType "application/octet-stream"],
        OwnField g := own_closeField fun g hg => by
      rw [List.mem_singleton.1 hg]
      exact Or.inl (by simp)
    obtain ⟨m, hshows, hreads⟩ := reads_sends env
      (sends_file env request (content ++ [0]) content.length) hown (by
        rw [length_fileFields]
        unfold FileFits at hfits
        omega)
    rw [← hkind] at hshows hreads
    exact ⟨m, [], hshows, hreads, Or.inl rfl⟩

/-! ### The files stay small -/

theorem length_data_le {s : Bytes} (hs : NulFree s)
    (h : httpRequestFromBuffer s = .ok (some request)) {data : Bytes}
    (hd : request.data = some data) : data.length ≤ s.length := by
  rw [httpRequestFromBuffer_eq hs] at h
  obtain ⟨m, t, v, block, data', hline, rfl⟩ := request_of_decode h
  have hsuffix := (afterHead_suffix hline).length_le
  cases hn : declaredLength block with
  | none =>
    rw [decode_of_line hline hn] at h
    cases h
    cases hd
  | some n =>
    rw [decode_of_length hline hn] at h
    obtain ⟨copied, hcopy, heq⟩ := map_eq_ok.1 h
    cases heq
    cases hd
    have hlength := (length_of_copyBody hcopy).2.2
    have hinside := (copyBody_eq_ok.1 hcopy).1.2
    omega

theorem small_of_serveChunk (hlen : chunk.length ≤ HTTP_BUFFER_SIZE) (hsmall : w.Small) {stop : Bool}
    (h : serveChunk env directory w chunk = .ok (reply, stop, w')) : w'.Small := by
  rcases turn_of_serveChunk h with ⟨-, -, -, rfl⟩ | ⟨request, hr, -, hanswer⟩
  · exact hsmall
  have hworld := answerWorld_of_answer hanswer
  rw [answerWorld_eq] at hworld
  cases hst : storesAt env directory request with
  | none =>
    rw [hst] at hworld
    cases hworld
    cases openedPath directory request <;> exact hsmall
  | some q =>
    obtain ⟨path, n⟩ := q
    rw [hst] at hworld
    obtain ⟨body, hbody, rfl⟩ := map_eq_ok.1 hworld
    have hshort : body.length ≤ HTTP_BUFFER_SIZE := by
      have htake : (chunk.takeWhile (· ≠ 0)).length ≤ chunk.length :=
        (List.takeWhile_sublist _).length_le
      cases hdata : request.data with
      | none =>
        rw [hdata, fwriteBytes] at hbody
        split at hbody
        · cases hbody
          exact Nat.zero_le _
        · cases hbody
      | some data =>
        have hle := length_data_le (nulFree_takeWhile chunk) hr hdata
        rw [hdata, fwriteBytes, readBytes] at hbody
        split at hbody
        · cases hbody
          rw [List.length_take]
          omega
        · cases hbody
    intro p content hp
    by_cases heq : p = path
    · subst heq
      obtain rfl : body = content := by simpa [World.store] using hp
      have hdecimal := length_decimal_le body.length
      simp only [FileFits, INT_MAX, HTTP_BUFFER_SIZE] at hshort ⊢
      simp only [if_true]
      omega
    · exact hsmall p content (by simpa [World.store, heq] using hp)

/-! ### All replies of a connection -/

/-- **A client reads one message for each chunk that was taken.**  Whatever the chunks are, the bytes
that the server sends on the connection are read as a message for each reply, in order and with its
status; only at the end of a connection that the client closes can a line end be left over.  The
fields of these messages are those that the program writes, whatever the client sent. -/
theorem client_reads {chunks : List (Env × Bytes)} {replies : List Reply}
    (hg : ∀ c ∈ chunks, c.1.GzipSane) (htail : ∀ c ∈ chunks, c.1.tail = [])
    (hlen : ∀ c ∈ chunks, c.2.length ≤ HTTP_BUFFER_SIZE) (hsmall : w.Small)
    (h : connectionLoop directory chunks w = .ok (replies, w')) :
    w'.Small ∧ ∃ ms rest, List.Forall₂ Reply.Shows replies ms ∧
      readMessages replies.length (replies.flatMap (·.sent)) = some (ms, rest) ∧
      (rest = [] ∨ rest = CRLF ∧ ∃ c ∈ chunks, ¬ Continues c.2) := by
  induction chunks generalizing w replies with
  | nil =>
    cases h
    exact ⟨hsmall, [], [], .nil, rfl, Or.inl rfl⟩
  | cons c chunks ih =>
    obtain ⟨env, chunk⟩ := c
    rw [connectionLoop] at h
    by_cases hnil : chunk = []
    · rw [if_pos hnil] at h
      cases h
      exact ⟨hsmall, [], [], .nil, rfl, Or.inl rfl⟩
    rw [if_neg hnil] at h
    obtain ⟨⟨reply, stop, w₁⟩, hs, h⟩ := bind_eq_ok.1 h
    have hlen₁ := hlen _ List.mem_cons_self
    have hsmall₁ := small_of_serveChunk hlen₁ hsmall hs
    obtain ⟨m, rest, hshows, hreads, hrest⟩ := reads_reply (hg _ List.mem_cons_self)
      (htail _ List.mem_cons_self) hlen₁ hsmall hs
    cases stop with
    | true =>
      cases h
      refine ⟨hsmall₁, [m], rest, .cons hshows .nil, ?_, ?_⟩
      · have := readMessages_one hreads []
        rw [List.append_nil] at this
        simpa using this
      · rcases hrest with hnil | ⟨hcrlf, -⟩
        · exact Or.inl hnil
        · refine Or.inr ⟨hcrlf, _, List.mem_cons_self, fun hnext => ?_⟩
          exact absurd ((due_of_serveChunk hs).2.2 hnext) (by decide)
    | false =>
      obtain ⟨⟨more, w₂⟩, hloop, h⟩ := bind_eq_ok.1 h
      cases h
      obtain ⟨hsmall₂, ms, left, hall, hread, hleft⟩ := ih
        (fun c hc => hg c (List.mem_cons_of_mem _ hc)) (fun c hc => htail c (List.mem_cons_of_mem _ hc))
        (fun c hc => hlen c (List.mem_cons_of_mem _ hc)) hsmall₁ hloop
      obtain rfl : rest = [] := by
        rcases hrest with hnil | ⟨-, hstop⟩
        · exact hnil
        · cases hstop
      refine ⟨hsmall₂, m :: ms, left, .cons hshows hall, ?_, ?_⟩
      · rw [List.flatMap_cons]
        exact readMessages_cons hreads hread
      · rcases hleft with hnil | ⟨hcrlf, c, hc, hnext⟩
        · exact Or.inl hnil
        · exact Or.inr ⟨hcrlf, c, List.mem_cons_of_mem _ hc, hnext⟩

/-- Two requests on one connection, of which the second closes it. -/
theorem client_reads_getRoot : ∃ replies w' ms rest,
    connectionLoop none [(Env.plain, getRoot.encode), (Env.plain, getClosing.encode)] World.empty =
      .ok (replies, w') ∧ List.Forall₂ Reply.Shows replies ms ∧
    readMessages replies.length (replies.flatMap (·.sent)) = some (ms, rest) := by
  have hall : ∀ c ∈ [(Env.plain, getRoot.encode), (Env.plain, getClosing.encode)],
      c.1 = Env.plain ∧ ∃ r : RequestChunk, c.2 = r.encode := by
    intro c hc
    simp only [List.mem_cons, List.not_mem_nil, or_false] at hc
    rcases hc with rfl | rfl
    · exact ⟨rfl, getRoot, rfl⟩
    · exact ⟨rfl, getClosing, rfl⟩
  obtain ⟨replies, w', hloop⟩ := exists_connectionLoop none (fun c hc => by
    obtain ⟨-, r, hr⟩ := hall c hc
    exact ⟨_, by rw [hr]; exact r.parsed_chunk⟩) World.empty
  obtain ⟨-, ms, rest, hshows, hread, -⟩ := client_reads
    (fun c hc => by rw [(hall c hc).1]; exact gzipSane_plain)
    (fun c hc => by rw [(hall c hc).1]; rfl)
    (fun c hc => by
      obtain ⟨-, r, hr⟩ := hall c hc
      rw [hr]
      exact r.size)
    (fun path content hf => by cases hf) hloop
  exact ⟨replies, w', ms, rest, hloop, hshows, hread⟩

end HttpServer

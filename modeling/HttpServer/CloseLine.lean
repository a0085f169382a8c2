import HttpServer.Files
import HttpServer.RequestSafety

/-!
# The line `Connection: close`

Every handler announces the end of the connection by itself, and the loop decides on it from the
request.  The two agree on a chunk exactly when it is parsed, unless it asks for a file of a server
without directory (`announces_iff`): the 400 of `get_files` does not look at `Connection`, and the 400
for a chunk that is not parsed is sent with `should_close` still at 0.
-/

namespace HttpServer

open Lib HttpResponseBuilder

variable {env : Env} {directory : Option Bytes} {request : HttpRequest} {w w' : World}
  {reply : Reply} {chunk : Bytes} {status : HttpStatus} {closes : Bool}

/-- The counters of the response stay in `int`, and it holds the line `Connection: close` exactly when
the connection is closed after it. -/
structure AnnouncesStop (env : Env) (reply : Reply) (stop : Bool) : Prop where
  counter : (reply.response.toBuffer env).offset ≤ INT_MAX
  line : lit "Connection: close" ∈ headerLines reply.sent ↔ stop = true

theorem AnnouncesStop.unique {stop stop' : Bool} (h : AnnouncesStop env reply stop)
    (h' : AnnouncesStop env reply stop') : stop = stop' := by
  rw [Bool.eq_iff_iff, ← h.line, h'.line]

/-! ### Replies without a body -/

/-- The bytes of a reply without body are a message with its status, however its length is taken. -/
theorem sent_error (env : Env) (status : HttpStatus) (closes : Bool) : ∃ (m : Message),
    m.WF ∧ m.code = status.code ∧ m.fields = closeField closes ∧
      (∃ rest, (sendResponse env ((errorBuilder env status closes).construct env)).sent =
        m.render ++ rest) ∧
      ∃ rest, (sendMeasured env ((errorBuilder env status closes).construct env)).sent =
        m.render ++ rest := by
  have hbuffer := buffer_errorBuilder env status closes
  have hfree := nulFree_errorMessage status closes
  refine ⟨_, wf_errorMessage status closes, rfl, rfl, ⟨if closes then CRLF else [], ?_⟩,
    ⟨(if closes then CRLF else []) ++ env.tail.takeWhile (· ≠ 0), ?_⟩⟩
  · rw [← hbuffer]
    exact message_eq_buffer env _
  · simp only [sendMeasured]
    rw [hbuffer, hfree.takeWhile_append, List.append_assoc]

theorem counter_error (env : Env) (status : HttpStatus) (closes : Bool) :
    (((errorBuilder env status closes).construct env).toBuffer env).offset ≤ INT_MAX := by
  have hdata : (errorBuilder env status closes).data = none := by cases closes <;> rfl
  exact (soundBuffer_of_bodyless env (Or.inl hdata) (length_errorBuilder env status closes)).counter

theorem mem_closeField (closes : Bool) :
    lit "Connection: close" ∈ (closeField closes).map fieldLine ↔ closes = true := by
  cases closes <;> decide

/-- **A reply without body**, however its length is taken, announces what its builder says. -/
theorem announcesStop_error (env : Env) (status : HttpStatus) (closes : Bool) :
    AnnouncesStop env (sendResponse env ((errorBuilder env status closes).construct env)) closes ∧
      AnnouncesStop env (sendMeasured env ((errorBuilder env status closes).construct env)) closes := by
  obtain ⟨m, hwf, -, hfields, ⟨rest, hresponse⟩, ⟨rest', hmeasured⟩⟩ := sent_error env status closes
  have hcounter := counter_error env status closes
  have hline : ∀ rest, lit "Connection: close" ∈ headerLines (m.render ++ rest) ↔
      closes = true := by
    intro rest
    rw [headerLines_render hwf, hfields, mem_closeField]
  refine ⟨⟨hcounter, ?_⟩, ⟨hcounter, ?_⟩⟩
  · rw [hresponse, hline]
  · rw [hmeasured, hline]

/-! ### Replies with a body -/

section Body

variable {builder : HttpResponseBuilder} {gs : List (Bytes × Bytes)} {data : Bytes} {n : ℕ}

/-- **A reply with a body** announces what its builder says, when the counters can count it. -/
theorem announcesStop_sends (h : builder.Sends status (closeField closes ++ gs) data n)
    (hgs : ∀ g ∈ gs, g.1 ≠ lit "Connection")
    (hfits : messageLength status (contentLength n :: (closeField closes ++ gs)) n + 2 ≤ INT_MAX) :
    AnnouncesStop env (sendResponse env (builder.construct env)) closes := by
  refine ⟨((framed_iff_of_sends h).2 hfits).counter, ?_⟩
  obtain ⟨fields, hperm, hwf, hbuffer⟩ := h.message env (by
    simp only [INT_MAX] at hfits
    omega)
  have hsent : (sendResponse env (builder.construct env)).sent =
      (builder.message fields (env.readPast data n)).render ++ [] := by
    rw [List.append_nil, ← hbuffer]
    exact message_eq_buffer env _
  have hname : COLON ∉ connectionClose.1 ∧ connectionClose.1 = lit "Connection" ∧
      fieldLine connectionClose = lit "Connection: close" := by decide
  have hlength : connectionClose ≠ contentLength n := by
    have hne : ¬ connectionClose.1 = lit "Content-Length" := by decide
    exact fun h => hne (congrArg Prod.fst h)
  have hother : connectionClose ∉ gs := fun h => hgs _ h hname.2.1
  rw [hsent, headerLines_render hwf, ← hname.2.2,
    mem_map_fieldLine hname.1 fun g hg => (hwf.fields g hg).1]
  have hfields : (builder.message fields (env.readPast data n)).fields = fields := rfl
  rw [hfields, hperm.mem_iff]
  cases closes <;> simp [closeField, hlength, hother]

end Body

theorem encoding_type_ne : contentEncoding.1 ≠ lit "Connection" ∧
    ∀ type, (contentType type).1 ≠ lit "Connection" := by
  have hne : lit "Content-Encoding" ≠ lit "Connection" ∧ lit "Content-Type" ≠ lit "Connection" := by
    decide
  exact ⟨hne.1, fun _ => hne.2⟩

theorem announcesStop_echo (hg : env.GzipSane) {p : Bytes} (hp : NulFree p)
    (hlen : p.length ≤ HTTP_BUFFER_SIZE) :
    AnnouncesStop env (sendResponse env ((echoBuilder env request p).construct env))
      request.closes := by
  obtain ⟨pad, hsends⟩ := sends_echo hg request hp (hlen.trans_lt (by norm_num))
  have hfits := (framed_iff_of_sends hsends).1 (framed_echo hg hp hlen)
  refine announcesStop_sends hsends ?_ hfits
  intro g hgs
  simp only [List.mem_append, List.mem_ite_nil_right, List.mem_singleton] at hgs
  rcases hgs with ⟨-, rfl⟩ | rfl
  · exact encoding_type_ne.1
  · exact encoding_type_ne.2 _

theorem announcesStop_userAgent (env : Env) {v : Bytes} (hv : v.length ≤ 255) :
    AnnouncesStop env (sendResponse env ((userAgentBuilder env request v).construct env))
      request.closes := by
  have hsends := @sends_userAgent env request v
  have hframed : Framed env (userAgentBuilder env request v) := framed_text hsends
    ((length_echoFields request.closes false).trans (by omega)) (by omega)
  refine announcesStop_sends hsends ?_ ((framed_iff_of_sends hsends).1 hframed)
  intro g hgs
  rw [List.mem_singleton.1 hgs]
  exact encoding_type_ne.2 _

theorem announcesStop_file (env : Env) {content : Bytes} (hfits : FileFits request.closes content) :
    AnnouncesStop env (sendResponse env
      ((fileBuilder env request (content ++ [0]) content.length).construct env)) request.closes := by
  refine announcesStop_sends (sends_file env request (content ++ [0]) content.length) ?_ ?_
  · intro g hgs
    rw [List.mem_singleton.1 hgs]
    exact encoding_type_ne.2 _
  · rw [length_fileFields]
    unfold FileFits at hfits
    omega

/-! ### The reply by its kind -/

theorem answerKind_of_getFiles {name : Bytes} (hm : request.method = lit "GET")
    (ht : request.requestTarget = lit "/files/" ++ name) : answerKind directory request w =
      match directory with
      | none => .refused
      | some d =>
        match w.files (d ++ name) with
        | some content => .file content
        | none => .bare := by
  unfold answerKind
  rw [ht, targetOf_files]
  cases directory with
  | none => exact if_pos hm
  | some d => exact if_pos hm

theorem answerKind_of_none (h : chosenBuilder env directory request w = none) :
    answerKind directory request w = .bare := by
  unfold chosenBuilder at h
  unfold answerKind
  cases ht : targetOf request.requestTarget with
  | root => rfl
  | echo result =>
    rw [ht] at h
    cases h
  | userAgent =>
    rw [ht] at h
    simp only [Option.map_eq_none_iff] at h
    simp only [h]
  | files name =>
    rw [ht] at h
    by_cases hget : request.method = lit "GET"
    · simp only [if_pos hget] at h
      cases h
    · simp only [if_neg hget]
  | other => rfl

theorem getFiles_of_answerKind (h : answerKind directory request w = .refused ∨
      ∃ content, answerKind directory request w = .file content) :
    request.method = lit "GET" ∧ ∃ name, request.requestTarget = lit "/files/" ++ name := by
  unfold answerKind at h
  cases ht : targetOf request.requestTarget with
  | files name =>
    rw [ht] at h
    by_cases hget : request.method = lit "GET"
    · exact ⟨hget, name, eq_of_targetOf_files ht⟩
    · simp [if_neg hget] at h
  | userAgent =>
    rw [ht] at h
    cases hv : request.headers.getCstr (lit "User-Agent") <;> simp [hv] at h
  | _ => simp [ht] at h

theorem getFiles_of_refused (h : answerKind directory request w = .refused) :
    directory = none ∧ request.method = lit "GET" ∧ lit "/files/" <+: request.requestTarget := by
  obtain ⟨hm, name, ht⟩ := getFiles_of_answerKind (Or.inl h)
  refine ⟨?_, hm, name, ht.symm⟩
  rw [answerKind_of_getFiles hm ht] at h
  cases directory with
  | none => rfl
  | some d =>
    simp only at h
    cases hf : w.files (d ++ name) <;> simp [hf] at h

theorem getFiles_of_file {content : Bytes} (h : answerKind directory request w = .file content) :
    ∃ d name, directory = some d ∧ request.method = lit "GET" ∧
      request.requestTarget = lit "/files/" ++ name ∧ w.files (d ++ name) = some content := by
  obtain ⟨hm, name, ht⟩ := getFiles_of_answerKind (Or.inr ⟨content, h⟩)
  rw [answerKind_of_getFiles hm ht] at h
  cases directory with
  | none => cases h
  | some d =>
    refine ⟨d, name, rfl, hm, ht, ?_⟩
    simp only at h
    cases hf : w.files (d ++ name) with
    | none => simp [hf] at h
    | some content' =>
      simp only [hf] at h
      cases h
      rfl

theorem reply_of_kind (h : answer env directory request w = .ok (reply, w')) :
    match answerKind directory request w with
    | .bare => ∃ status,
        reply = sendResponse env ((errorBuilder env status request.closes).construct env) ∨
        reply = sendMeasured env ((errorBuilder env status request.closes).construct env)
    | .refused => reply = sendResponse env ((errorBuilder env .httpBadRequest false).construct env)
    | .echo result => reply = sendResponse env ((echoBuilder env request result).construct env)
    | .userAgent result =>
      reply = sendResponse env ((userAgentBuilder env request result).construct env)
    | .file content => reply = sendResponse env
        ((fileBuilder env request (content ++ [0]) content.length).construct env) := by
  rw [answer_eq] at h
  obtain ⟨w₁, -, h⟩ := map_eq_ok.1 h
  have hreply := (Prod.mk.inj h).1
  cases hb : chosenBuilder env directory request w with
  | none =>
    rw [hb] at hreply
    rw [answerKind_of_none hb]
    exact ⟨.httpNotFound, Or.inr hreply.symm⟩
  | some builder =>
    rw [hb] at hreply
    have hkind := replyBuilder_of_kind env directory request w
    have hbuilder : replyBuilder env directory request w = builder := by
      rw [replyBuilder, hb]
      rfl
    rw [hbuilder] at hkind
    cases hk : answerKind directory request w with
    | bare =>
      rw [hk] at hkind
      obtain ⟨status, rfl⟩ := hkind
      exact ⟨status, Or.inl hreply.symm⟩
    | _ =>
      rw [hk] at hkind
      simp only at hkind
      subst hkind
      exact hreply.symm

/-! ### When the two agree -/

/-- The replies to the chunk announce the end of the connection exactly when it ends. -/
def Announces (directory : Option Bytes) (w : World) (chunk : Bytes) : Prop :=
  ∀ env : Env, env.GzipSane → ∃ reply stop w',
    serveChunk env directory w chunk = .ok (reply, stop, w') ∧ AnnouncesStop env reply stop

/-- The request does not ask for both the end of the connection and a file of a server without
directory, and the counters can count a file that it is answered with. -/
structure AnnouncesWhen (directory : Option Bytes) (request : HttpRequest) (w : World) : Prop where
  refused : directory = none → request.method = lit "GET" →
    lit "/files/" <+: request.requestTarget → request.closes = false
  file : ∀ d name content, directory = some d → request.method = lit "GET" →
    request.requestTarget = lit "/files/" ++ name → w.files (d ++ name) = some content →
    FileFits request.closes content

theorem announcesStop_of_when (hg : env.GzipSane) (hwhen : AnnouncesWhen directory request w)
    (htarget : NulFree request.requestTarget)
    (hlen : request.requestTarget.length ≤ HTTP_BUFFER_SIZE)
    (hagent : ∀ v, request.headers.getCstr (lit "User-Agent") = some v → v.length ≤ 255)
    (h : answer env directory request w = .ok (reply, w')) :
    AnnouncesStop env reply request.closes := by
  have hreply := reply_of_kind h
  cases hk : answerKind directory request w with
  | bare =>
    rw [hk] at hreply
    obtain ⟨status, rfl | rfl⟩ := hreply
    · exact (announcesStop_error env status request.closes).1
    · exact (announcesStop_error env status request.closes).2
  | refused =>
    rw [hk] at hreply
    obtain ⟨hnone, hm, ht⟩ := getFiles_of_refused hk
    have hopen := hwhen.refused hnone hm ht
    rw [hopen, hreply]
    -- this 400 never has the line, as it should be where the connection stays open
    exact (announcesStop_error env .httpBadRequest false).1
  | echo p =>
    rw [hk] at hreply
    have hsub : List.Sublist p request.requestTarget := by
      rw [answerKind_echo hk]
      exact List.sublist_append_right _ _
    rw [hreply]
    exact announcesStop_echo hg (htarget.sublist hsub) (hsub.length_le.trans hlen)
  | userAgent v =>
    rw [hk] at hreply
    have hv := hagent v (answerKind_userAgent hk)
    rw [hreply]
    exact announcesStop_userAgent env hv
  | file content =>
    rw [hk] at hreply
    obtain ⟨d, name, hd, hm, ht, hf⟩ := getFiles_of_file hk
    rw [hreply]
    exact announcesStop_file env (hwhen.file d name content hd hm ht hf)

/-- The size of the response with a file is the sum of its parts in `size_t`, with the length as
`parse_long` reads it. -/
theorem totalSize_file (env : Env) (request : HttpRequest) (content : Bytes) :
    ((fileBuilder env request (content ++ [0]) content.length).construct env).totalSize =
      sizeAdd ((decimal content.length).length + 77 + (if request.closes then 19 else 0))
        ((parseLong (decimal content.length)).getD env.staleLong) := by
  have hsends := sends_file env request (content ++ [0]) content.length
  have hlen := length_fileFields request.closes content.length
  obtain ⟨headers, hheaders, hperm, -, -, hget⟩ := (sends_iff.1 hsends).1.laid
  have hsize : (fileBuilder env request (content ++ [0]) content.length).head.length +
      ((fieldLines headers.entries).length + 2) =
        (decimal content.length).length + 77 + (if request.closes then 19 else 0) := by
    have hhead : (fileBuilder env request (content ++ [0]) content.length).head.length =
        (statusLine (lit "HTTP/1.1") (HttpStatus.code .httpOk) (HttpStatus.reasonPhrase .httpOk) ++
          CRLF).length := by
      rw [head, hsends.version, hsends.status]
    rw [messageLength, ← hhead, ← length_fieldLines_perm hperm] at hlen
    omega
  simp only [construct, hheaders, hsends.data, hget, appendBody, length_head,
    headerBlock_size, hsize]

/-- A file that is counted in `int` in all surroundings fits the counters. -/
theorem fileFits_of_counter {content : Bytes} (h : ∀ env : Env, env.GzipSane →
      (((fileBuilder env request (content ++ [0]) content.length).construct env).toBuffer env).offset ≤
        INT_MAX) : FileFits request.closes content := by
  have hcount : ∀ env : Env, env.GzipSane →
      sizeAdd ((decimal content.length).length + 77 + (if request.closes then 19 else 0))
        ((parseLong (decimal content.length)).getD env.staleLong) + 2 ≤ INT_MAX := by
    intro env hg
    have hoffset := (sends_file env request (content ++ [0]) content.length).offset env
    rw [totalSize_file] at hoffset
    have := h env hg
    omega
  by_cases hn : content.length < 2 ^ 63
  · have hdigits := length_decimal_of_lt (by omega) (hn.trans (by norm_num : 2 ^ 63 < 10 ^ 19))
    have hplain := hcount Env.plain gzipSane_plain
    rw [parseLong_decimal hn, Option.getD_some, sizeAdd_of_lt (by split <;> omega)] at hplain
    unfold FileFits
    omega
  · -- the length is not read, and `total_size` is whatever the memory held
    have hnone := parseLong_decimal_of_le (not_lt.1 hn)
    have hstale := hcount { Env.plain with staleLong := 2 ^ 40 -
      ((decimal content.length).length + 77 + (if request.closes then 19 else 0) : ℕ) } ⟨nofun, nofun⟩
    rw [hnone, Option.getD_none] at hstale
    simp only [sizeAdd, INT_MAX] at hstale
    omega

/-- The replies to a chunk that is parsed announce the end of the connection exactly under the
condition. -/
theorem announces_of_some_iff (hlen : chunk.length ≤ HTTP_BUFFER_SIZE)
    (hparse : httpRequestFromBuffer (chunk.takeWhile (· ≠ 0)) = .ok (some request)) :
    Announces directory w chunk ↔ AnnouncesWhen directory request w := by
  have hshort : (chunk.takeWhile (· ≠ 0)).length ≤ HTTP_BUFFER_SIZE :=
    (List.takeWhile_sublist _).length_le.trans hlen
  obtain ⟨htarget, hlength, hvalue⟩ := bounds_of_parse (nulFree_takeWhile chunk) hparse
  have hserve : ∀ env reply stop w', serveChunk env directory w chunk = .ok (reply, stop, w') →
      stop = request.closes ∧ answer env directory request w = .ok (reply, w') := by
    intro env reply stop w' h
    rcases turn_of_serveChunk h with ⟨hnone, -⟩ | ⟨request', hsome, hstop, ha⟩
    · rw [hparse] at hnone
      cases hnone
    · rw [hparse] at hsome
      cases hsome
      exact ⟨hstop, ha⟩
  constructor
  · intro h
    have hall : ∀ env : Env, env.GzipSane → ∃ reply w',
        answer env directory request w = .ok (reply, w') ∧ AnnouncesStop env reply request.closes := by
      intro env hg
      obtain ⟨reply, stop, w', hs, hstop⟩ := h env hg
      obtain ⟨rfl, ha⟩ := hserve env reply stop w' hs
      exact ⟨reply, w', ha, hstop⟩
    refine ⟨fun hd hm ⟨name, ht⟩ => ?_, fun d name content hd hm ht hf => ?_⟩
    · obtain ⟨reply, w', ha, hstop⟩ := hall Env.plain gzipSane_plain
      have hreply := reply_of_kind ha
      rw [answerKind_of_getFiles hm ht.symm, hd] at hreply
      simp only at hreply
      rw [hreply] at hstop
      exact hstop.unique (announcesStop_error Env.plain .httpBadRequest false).1
    · apply fileFits_of_counter
      intro env hg
      obtain ⟨reply, w', ha, hstop⟩ := hall env hg
      have hreply := reply_of_kind ha
      rw [answerKind_of_getFiles hm ht, hd] at hreply
      simp only [hf] at hreply
      rw [hreply] at hstop
      exact hstop.counter
  · intro hwhen env hg
    obtain ⟨reply, stop, w', hs⟩ := exists_serveChunk hparse env directory w
    obtain ⟨rfl, ha⟩ := hserve env reply stop w' hs
    exact ⟨reply, _, w', hs, announcesStop_of_when hg hwhen htarget (hlength.trans hshort)
      (fun v => hvalue _ v (by decide)) ha⟩

/-- A chunk that is not parsed ends the connection with a 400 that does not say so. -/
theorem not_announces_of_none
    (hparse : httpRequestFromBuffer (chunk.takeWhile (· ≠ 0)) = .ok none) :
    ¬ Announces directory w chunk := by
  intro h
  obtain ⟨reply, stop, w', hs, hstop⟩ := h Env.plain gzipSane_plain
  rw [serveChunk_of_refused hparse] at hs
  cases hs
  exact Bool.noConfusion (hstop.unique (announcesStop_error Env.plain .httpBadRequest false).2)

/-- **When the end of a connection is announced**: the chunk is parsed, it does not ask for both the
end of the connection and a file of a server without directory, and the counters can count a file
that it is answered with. -/
theorem announces_iff (hlen : chunk.length ≤ HTTP_BUFFER_SIZE) (directory : Option Bytes) (w : World) :
    Announces directory w chunk ↔ ∃ request,
      httpRequestFromBuffer (chunk.takeWhile (· ≠ 0)) = .ok (some request) ∧
        AnnouncesWhen directory request w := by
  cases hparse : httpRequestFromBuffer (chunk.takeWhile (· ≠ 0)) with
  | error e =>
    refine iff_of_false (fun h => ?_) (by simp)
    obtain ⟨reply, stop, w', hs, -⟩ := h Env.plain gzipSane_plain
    rcases turn_of_serveChunk hs with ⟨hnone, -⟩ | ⟨request, hsome, -⟩
    · cases hparse.symm.trans hnone
    · cases hparse.symm.trans hsome
  | ok parsed =>
    cases parsed with
    | none => exact iff_of_false (not_announces_of_none hparse) (by simp)
    | some request =>
      rw [announces_of_some_iff hlen hparse]
      simp

theorem announces_getClosing : Announces none World.empty getClosing.encode := by
  refine (announces_iff getClosing.size none World.empty).2 ⟨getClosing.request, ?_, ?_, ?_⟩
  · exact getClosing.parsed_chunk
  · intro _ _ h
    exact absurd h (by decide)
  · intro d name content hd
    cases hd

/-- A request for a file and for the end of the connection. -/
def getNoteClosing : RequestChunk where
  method := lit "GET"
  target := lit "/files/note"
  version := lit "HTTP/1.1"
  headers := [(lit "Connection", lit "close")]
  body := []
  wf := by decide
  size := by decide

/-- **Two ends of a connection that are not announced**: a file that is asked for on a server without
directory, and a chunk that is no request. -/
theorem not_announces : ¬ Announces none World.empty getNoteClosing.encode ∧
    ¬ Announces none World.empty (lit "GET /") := by
  constructor
  · rw [announces_of_some_iff getNoteClosing.size getNoteClosing.parsed_chunk]
    intro h
    have hopen := h.refused rfl rfl (by decide)
    have hcloses : getNoteClosing.request.closes = true :=
      (closes_request getNoteClosing.toRequestText).2 rfl
    rw [hcloses] at hopen
    cases hopen
  · apply not_announces_of_none
    rw [httpRequestFromBuffer_eq (by decide)]
    exact decode_of_none rfl

end HttpServer

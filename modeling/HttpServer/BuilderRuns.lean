import HttpServer.Echo
import HttpServer.Lib.Runs

/-!
# Runs of calls on a builder

`plain_message`, `COMPRESSION_GZIP` and `CLOSE` may be called in any order and any number of times.
What the builder holds after them is the last message, compressed as often as that succeeded since
(`Compressed`), and its headers say so (`carriesAny_applyAll`).  It is sent as it is, unless an output
of the compression was empty, which leaves the builder without data, or the counters of the serialiser
cannot count the response (`delivers_applyAll`, `not_delivers`).
-/

namespace HttpServer

open Lib HttpResponseBuilder

structure CString where
  text : Bytes
  nulFree : NulFree text
  size : text.length < 2 ^ 63

inductive BuilderCall where
  | plainMessage (message : CString)
  | compressionGzip
  | close

namespace BuilderCall

def apply (env : Env) (builder : HttpResponseBuilder) : BuilderCall → HttpResponseBuilder
  | plainMessage message => builder.plainMessage env message.text
  | compressionGzip => builder.option env .compressionGzip
  | close => builder.option env .close

def applyAll (env : Env) (status : HttpStatus) (calls : List BuilderCall) : HttpResponseBuilder :=
  calls.foldl (apply env) (createHttpResponseBuilder status)

end BuilderCall

/-- A message, the number of times that it was compressed, and what came of it. -/
structure Compressed where
  message : Bytes
  times : ℕ
  content : Bytes

namespace Compressed

/-- An empty output is no data. -/
def Gone (c : Compressed) : Prop := 0 < c.times ∧ c.content = []

instance (c : Compressed) : Decidable c.Gone := inferInstanceAs (Decidable (_ ∧ _))

/-- What a call makes of the last message: without data nothing is compressed. -/
def step (env : Env) (c : Option Compressed) : BuilderCall → Option Compressed
  | .plainMessage message => some ⟨message.text, 0, message.text⟩
  | .compressionGzip => c.map fun c =>
    if c.Gone then c
    else
      match env.gzipCompress c.content with
      | some output => ⟨c.message, c.times + 1, output⟩
      | none => c
  | .close => c

def after (env : Env) (calls : List BuilderCall) : Option Compressed := calls.foldl (step env) none

/-- The allocation of the data: that of a message has its terminator. -/
def data (c : Compressed) : Option Bytes :=
  if c.Gone then none else some (c.content ++ if c.times = 0 then [0] else [])

def iterate (env : Env) (message : Bytes) (k : ℕ) : Option Bytes :=
  (fun b => Option.bind b env.gzipCompress)^[k] (some message)

end Compressed

variable {env : Env} {status : HttpStatus} {builder : HttpResponseBuilder} {c : Compressed}

/-- The outputs of the compression are objects in memory. -/
def Env.GzipObjects (env : Env) : Prop :=
  ∀ input output, env.gzipCompress input = some output → output.length < 2 ^ 63

/-! ### What a builder holds -/

/-- The builder holds `c`: one length, that of the content, as many encodings as there were
compressions, and the data. -/
structure Carries (env : Env) (status : HttpStatus) (builder : HttpResponseBuilder) (c : Compressed) :
    Prop where
  declares : ∃ gs, builder.Declares status gs c.content.length ∧
    (gs.filter fun f => f.1 = lit "Content-Encoding") = List.replicate c.times contentEncoding
  data : builder.data = c.data
  content : Compressed.iterate env c.message c.times = some c.content
  size : c.content.length < 2 ^ 63

/-- A builder before its first message, or after it. -/
def CarriesAny (env : Env) (status : HttpStatus) (builder : HttpResponseBuilder) :
    Option Compressed → Prop
  | none => builder.headers = none ∧ builder.data = none ∧ builder.httpVersion = lit "HTTP/1.1" ∧
    builder.statusCode = status
  | some c => Carries env status builder c

theorem carries_plainMessage (message : CString) (hv : builder.httpVersion = lit "HTTP/1.1")
    (hst : builder.statusCode = status) :
    Carries env status (builder.plainMessage env message.text) ⟨message.text, 0, message.text⟩ := by
  have hsends : (builder.plainMessage env message.text).Sends status
      (closeField builder.shouldClose ++ [contentType "text/plain"])
      (message.text.takeWhile (· ≠ 0) ++ [0]) message.text.length := sends_typed (by decide) hv hst
  obtain ⟨hdeclares, hdata⟩ := sends_iff.1 hsends
  refine ⟨⟨_, hdeclares, ?_⟩, ?_, rfl, message.size⟩
  · cases builder.shouldClose <;> rfl
  · rw [message.nulFree.takeWhile] at hdata
    simpa [Compressed.data, Compressed.Gone] using hdata

theorem readPast_content (env : Env) (c : Compressed) :
    env.readPast (c.content ++ if c.times = 0 then [0] else []) c.content.length = c.content := by
  rw [readPast_of_le (by simp), List.take_left]

namespace Carries

variable (h : Carries env status builder c)

include h

theorem close : Carries env status (builder.option env .close) c := by
  obtain ⟨gs, hdeclares, hencodings⟩ := h.declares
  refine ⟨⟨_, hdeclares.close env, ?_⟩, h.data, h.content, h.size⟩
  have hname : ¬ connectionClose.1 = lit "Content-Encoding" := by decide
  rw [List.filter_cons_of_neg (by simpa using hname), hencodings]

/-- `COMPRESSION_GZIP` that fails, or finds no data, changes nothing. -/
theorem compressionGzip_none (hout : c.Gone ∨ env.gzipCompress c.content = none) :
    builder.option env .compressionGzip = builder := by
  obtain ⟨gs, hdeclares, -⟩ := h.declares
  have hdata := h.data
  unfold Compressed.data at hdata
  by_cases hgone : c.Gone
  · rw [if_pos hgone] at hdata
    simp only [option, HttpResponseBuilder.compressionGzip, hdata]
  · rw [if_neg hgone] at hdata
    refine (sends_iff.2 ⟨hdeclares, hdata⟩).compressionGzip_none h.size ?_
    rw [readPast_content, hout.resolve_left hgone]

theorem compressionGzip {output : Bytes} (hgone : ¬ c.Gone)
    (hout : env.gzipCompress c.content = some output) (hsize : output.length < 2 ^ 63) :
    Carries env status (builder.option env .compressionGzip) ⟨c.message, c.times + 1, output⟩ := by
  obtain ⟨gs, hdeclares, hencodings⟩ := h.declares
  have hdata := h.data
  unfold Compressed.data at hdata
  rw [if_neg hgone] at hdata
  have hread := readPast_content env c
  obtain ⟨hdeclares', hdata'⟩ := hdeclares.compressionGzip hdata h.size (by rw [hread]; exact hout)
  have hname : contentEncoding.1 = lit "Content-Encoding" := rfl
  refine ⟨⟨_, hdeclares', ?_⟩, ?_, ?_, hsize⟩
  · rw [List.filter_cons_of_pos (by simpa using hname), hencodings]
    rfl
  · rw [hdata']
    simp [Compressed.data, Compressed.Gone]
  · have hcontent := h.content
    unfold Compressed.iterate at hcontent ⊢
    rw [Function.iterate_succ_apply', hcontent]
    exact hout

end Carries

/-- **One call** keeps what the builder holds in step with the message. -/
theorem carriesAny_apply (hg : env.GzipObjects) {o : Option Compressed}
    (h : CarriesAny env status builder o) (call : BuilderCall) :
    CarriesAny env status (call.apply env builder) (Compressed.step env o call) := by
  cases o with
  | none =>
    obtain ⟨hheaders, hdata, hv, hst⟩ := h
    cases call with
    | plainMessage message => exact carries_plainMessage message hv hst
    | compressionGzip =>
      have hsame : builder.option env .compressionGzip = builder := by
        simp only [option, HttpResponseBuilder.compressionGzip, hdata]
      refine ⟨?_, ?_, ?_, ?_⟩ <;> simp only [BuilderCall.apply, hsame] <;> assumption
    | close => exact ⟨by simp [BuilderCall.apply, option, hheaders], hdata, hv, hst⟩
  | some c =>
    have h : Carries env status builder c := h
    obtain ⟨gs, hdeclares, -⟩ := h.declares
    cases call with
    | plainMessage message => exact carries_plainMessage message hdeclares.version hdeclares.status
    | close => exact h.close
    | compressionGzip =>
      by_cases hgone : c.Gone
      · simp only [BuilderCall.apply, Compressed.step, Option.map_some, if_pos hgone,
          h.compressionGzip_none (Or.inl hgone)]
        exact h
      cases hout : env.gzipCompress c.content with
      | none =>
        simp only [BuilderCall.apply, Compressed.step, Option.map_some, if_neg hgone, hout,
          h.compressionGzip_none (Or.inr hout)]
        exact h
      | some output =>
        simp only [BuilderCall.apply, Compressed.step, Option.map_some, if_neg hgone, hout]
        exact h.compressionGzip hgone hout (hg _ _ hout)

/-- **Calls, one after the other**, on a fresh builder. -/
theorem carriesAny_applyAll (hg : env.GzipObjects) (status : HttpStatus) (calls : List BuilderCall) :
    CarriesAny env status (BuilderCall.applyAll env status calls) (Compressed.after env calls) := by
  have hstep : ∀ builder o call, CarriesAny env status builder o → True →
      CarriesAny env status (call.apply env builder) (Compressed.step env o call) :=
    fun _ _ call h _ => carriesAny_apply hg h call
  exact foldl_simulates hstep calls (fun _ _ => trivial) ⟨rfl, rfl, rfl, rfl⟩

/-! ### What is sent -/

/-- The response of the builder is laid out with counters in `int`: its headers, an empty line, and
`content`; a reader that takes it off the connection has nothing left. -/
structure Delivers (env : Env) (builder : HttpResponseBuilder) (content : Bytes) : Prop where
  counter : ((builder.construct env).toBuffer env).offset ≤ INT_MAX
  message : ∃ fields, fields.Perm builder.headerFields ∧ content.length = bodyLength fields ∧
    (builder.construct env).message env = (builder.message fields content).render ∧
    readMessage ((builder.construct env).message env) = some (builder.message fields content, [])

theorem Delivers.framed {content : Bytes} (h : Delivers env builder content) : Framed env builder := by
  obtain ⟨fields, hperm, hbody, hrender, hread⟩ := h.message
  exact ⟨h.counter, fields, content, hperm, hbody, hrender, hread⟩

theorem Carries.delivers (h : Carries env status builder c) (hgone : ¬ c.Gone)
    (hfits : messageLength status builder.headerFields c.content.length + 2 ≤ INT_MAX) :
    Delivers env builder c.content := by
  obtain ⟨gs, hdeclares, -⟩ := h.declares
  have hdata := h.data
  unfold Compressed.data at hdata
  rw [if_neg hgone] at hdata
  have hsends := sends_iff.2 ⟨hdeclares, hdata⟩
  have hheader := headerFields_of_declares hdeclares
  rw [messageLength, length_fieldLines_perm hheader, ← messageLength] at hfits
  refine ⟨((framed_iff_of_sends hsends).2 hfits).counter, ?_⟩
  obtain ⟨fields, hperm, hwf, hbuffer⟩ := hsends.message env (by
    simp only [INT_MAX] at hfits
    omega)
  rw [readPast_content] at hwf hbuffer
  have hread := readMessage_render hwf []
  rw [List.append_nil] at hread
  rw [message_eq_buffer, hbuffer]
  exact ⟨fields, hperm.trans hheader.symm, hwf.body, rfl, hread⟩

/-! ### Whole runs -/

theorem message_step (env : Env) {call : BuilderCall} (hcall : ∀ m, call ≠ .plainMessage m)
    (c : Compressed) :
    ∃ c', Compressed.step env (some c) call = some c' ∧ c'.message = c.message := by
  cases call with
  | plainMessage m => exact absurd rfl (hcall m)
  | close => exact ⟨c, rfl, rfl⟩
  | compressionGzip =>
    simp only [Compressed.step, Option.map_some]
    split
    · exact ⟨c, rfl, rfl⟩
    · split <;> exact ⟨_, rfl, rfl⟩

theorem exists_last (env : Env) {calls : List BuilderCall}
    (hmem : ∃ message, BuilderCall.plainMessage message ∈ calls) :
    ∃ c pre message post, Compressed.after env calls = some c ∧
      calls = pre ++ .plainMessage message :: post ∧
      (∀ m, BuilderCall.plainMessage m ∉ post) ∧ c.message = message.text := by
  induction calls using List.reverseRecOn with
  | nil =>
    obtain ⟨message, hmem⟩ := hmem
    cases hmem
  | append_singleton calls call ih =>
    have hafter : Compressed.after env (calls ++ [call]) =
        Compressed.step env (Compressed.after env calls) call := by
      simp [Compressed.after]
    by_cases hcall : ∃ message, call = .plainMessage message
    · obtain ⟨message, rfl⟩ := hcall
      exact ⟨_, calls, message, [], hafter, rfl, fun _ => List.not_mem_nil, rfl⟩
    · obtain ⟨message, hmessage⟩ := hmem
      rcases List.mem_append.1 hmessage with hmessage | hmessage
      · obtain ⟨c, pre, message, post, hc, rfl, hpost, hm⟩ := ih ⟨message, hmessage⟩
        have hpost' : ∀ m, BuilderCall.plainMessage m ∉ post ++ [call] := by
          intro m hm
          rcases List.mem_append.1 hm with hm | hm
          · exact hpost m hm
          · exact hcall ⟨m, (List.mem_singleton.1 hm).symm⟩
        rw [hc] at hafter
        obtain ⟨c', hc', hsame⟩ := message_step env (fun m hm => hcall ⟨m, hm⟩) c
        exact ⟨c', pre, message, post ++ [call], hafter.trans hc', by simp, hpost', hsame.trans hm⟩
      · exact absurd ⟨message, (List.mem_singleton.1 hmessage).symm⟩ hcall

/-- **A builder after calls**, of which one at least is a message: it declares the length of its
content and as many encodings as there were compressions of the last message; a compression that fails
changes nothing; and what is sent ends with the content, if there is any and the counters can count
the response. -/
theorem delivers_applyAll (hg : env.GzipObjects) (status : HttpStatus) {calls : List BuilderCall}
    (hmem : ∃ message, BuilderCall.plainMessage message ∈ calls) :
    ∃ c pre message post, Compressed.after env calls = some c ∧
      calls = pre ++ .plainMessage message :: post ∧
      (∀ m, BuilderCall.plainMessage m ∉ post) ∧ c.message = message.text ∧
      Compressed.iterate env c.message c.times = some c.content ∧
      (∃ headers, (BuilderCall.applyAll env status calls).headers = some headers ∧
        (headers.entries.filter fun f => f.1 = lit "Content-Length") =
          [(lit "Content-Length", decimal c.content.length)] ∧
        (headers.entries.filter fun f => f.1 = lit "Content-Encoding") =
          List.replicate c.times (lit "Content-Encoding", lit "gzip")) ∧
      (BuilderCall.applyAll env status calls).data = c.data ∧
      (c.Gone ∨ env.gzipCompress c.content = none →
        (BuilderCall.applyAll env status calls).option env .compressionGzip =
          BuilderCall.applyAll env status calls) ∧
      (¬ c.Gone → messageLength status (BuilderCall.applyAll env status calls).headerFields
          c.content.length + 2 ≤ INT_MAX →
        Delivers env (BuilderCall.applyAll env status calls) c.content) := by
  obtain ⟨c, pre, message, post, hc, hcalls, hpost, hm⟩ := exists_last env hmem
  have h := carriesAny_applyAll hg status calls
  rw [hc] at h
  have h : Carries env status (BuilderCall.applyAll env status calls) c := h
  obtain ⟨gs, hdeclares, hencodings⟩ := h.declares
  obtain ⟨headers, hheaders, -, hperm⟩ := hdeclares.headers
  have hlength : ((contentLength c.content.length :: gs).filter fun f =>
      f.1 = lit "Content-Length") = [contentLength c.content.length] := by
    have hname : (contentLength c.content.length).1 = lit "Content-Length" := rfl
    rw [List.filter_cons_of_pos (by simpa using hname), List.filter_eq_nil_iff.2 fun g hg => by
      simpa using hdeclares.unique g hg]
  have hencoding : ((contentLength c.content.length :: gs).filter fun f =>
      f.1 = lit "Content-Encoding") = List.replicate c.times contentEncoding := by
    have hname : ¬ (contentLength c.content.length).1 = lit "Content-Encoding" := by
      have hne : ¬ lit "Content-Length" = lit "Content-Encoding" := by decide
      exact hne
    rw [List.filter_cons_of_neg (by simpa using hname), hencodings]
  have hfilter := hperm.filter fun f => decide (f.1 = lit "Content-Encoding")
  rw [hencoding] at hfilter
  exact ⟨c, pre, message, post, hc, hcalls, hpost, hm, h.content,
    ⟨headers, hheaders, filter_of_perm hperm hlength, List.perm_replicate.1 hfilter⟩, h.data,
    h.compressionGzip_none, h.delivers⟩

def abc : CString := ⟨lit "abc", by decide, by decide⟩

theorem gzipObjects_gzip : Env.gzip.GzipObjects := by
  intro input output h
  have hlen := gzipSane_gzip.length input output h
  simp only [Env.gzip, Option.ite_none_right_eq_some] at h
  have habc : (lit "abc").length = 3 := rfl
  rw [h.1, habc] at hlen
  omega

/-- A message that is compressed once, by two calls, on a builder that closes. -/
def abcCalls : List BuilderCall := [.close, .plainMessage abc, .compressionGzip, .compressionGzip]

theorem delivers_abcCalls :
    Compressed.after Env.gzip abcCalls = some ⟨lit "abc", 1, gzipAbc⟩ ∧
      Delivers Env.gzip (BuilderCall.applyAll Env.gzip .httpOk abcCalls) gzipAbc := by
  have hafter : Compressed.after Env.gzip abcCalls = some ⟨lit "abc", 1, gzipAbc⟩ := rfl
  obtain ⟨c, -, -, -, hc, -, -, -, -, -, -, -, hdelivers⟩ :=
    delivers_applyAll gzipObjects_gzip .httpOk (⟨abc, by simp [abcCalls]⟩ :
      ∃ message, BuilderCall.plainMessage message ∈ abcCalls)
  obtain rfl : ⟨lit "abc", 1, gzipAbc⟩ = c := Option.some.inj (hafter.symm.trans hc)
  exact ⟨hafter, hdelivers (by decide) (by decide +kernel)⟩

theorem sends_first (env : Env) (message : CString) :
    (BuilderCall.applyAll env .httpOk [.plainMessage message]).Sends .httpOk
      (closeField false ++ [contentType "text/plain"])
      (message.text.takeWhile (· ≠ 0) ++ [0]) message.text.length :=
  sends_typed (by decide) rfl rfl

/-- A message that the counters cannot count is not delivered. -/
theorem not_delivers_of_le (env : Env) {message : CString} (hlen : 2 ^ 31 ≤ message.text.length) :
    ¬ Delivers env (BuilderCall.applyAll env .httpOk [.plainMessage message]) message.text := by
  intro h
  have hfits := (framed_iff_of_sends (sends_first env message)).1 h.framed
  rw [messageLength_ok] at hfits
  simp only [INT_MAX] at hfits
  omega

/-- An empty output is not delivered: a line end is left over. -/
theorem not_delivers_of_empty {message : CString}
    (hout : env.gzipCompress message.text = some []) :
    ¬ Delivers env (BuilderCall.applyAll env .httpOk [.plainMessage message, .compressionGzip]) [] := by
  rintro ⟨-, fields, -, -, -, hread⟩
  have hsends := sends_first env message
  obtain ⟨hdeclares, hdata⟩ := (sends_iff.1 hsends).1.compressionGzip hsends.data message.size
    (by rw [readPast_message env message.nulFree]; exact hout)
  have hlines : (fieldLines (contentLength 0 :: contentEncoding ::
      (closeField false ++ [contentType "text/plain"]))).length = 69 := by decide
  obtain ⟨headers, hheaders, hperm, hne, hall, -⟩ := hdeclares.laid
  have hlen := (length_fieldLines_perm hperm).trans hlines
  have hleft := readMessage_bodyless env hheaders hne (fun f hf => (hall f hf).1)
    (bodyLength_of_unique hperm hdeclares.unique) (by omega) hdata hdeclares.version
  cases hleft.symm.trans hread

/-- Surroundings in which the compression has an empty output. -/
def Env.empty : Env := { Env.plain with gzipCompress := fun _ => some [] }

def longMessage : CString where
  text := List.replicate (2 ^ 31) 97
  nulFree := fun h => absurd (List.eq_of_mem_replicate h) (by decide)
  size := by
    rw [List.length_replicate]
    norm_num

/-- **What is not delivered**: an empty output, after which a line end is left over, and a message that
the counters cannot count. -/
theorem not_delivers :
    Compressed.after Env.empty [.plainMessage abc, .compressionGzip] = some ⟨lit "abc", 1, []⟩ ∧
      ¬ Delivers Env.empty
        (BuilderCall.applyAll Env.empty .httpOk [.plainMessage abc, .compressionGzip]) [] ∧
      ¬ Delivers Env.plain (BuilderCall.applyAll Env.plain .httpOk [.plainMessage longMessage])
        longMessage.text := by
  have hlong : 2 ^ 31 ≤ longMessage.text.length := by
    rw [longMessage, List.length_replicate]
  exact ⟨rfl, not_delivers_of_empty rfl, not_delivers_of_le Env.plain hlong⟩

end HttpServer

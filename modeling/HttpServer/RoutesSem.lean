import HttpServer.Main
import HttpServer.BuilderSem

/-!
# The handlers by the builders they make

The builders of the handlers as functions of the request, the directory and the files, and each
handler as the call of `construct` on its builder: the loops and the lookups of `routes.c` are done
with here.  `postFilesWorld` is what `post_files` does to the files; the other handlers leave them.
-/

namespace HttpServer

open Lib HttpResponseBuilder

variable {env : Env} {directory : Option Bytes} {request : HttpRequest} {w w' : World}

/-! ### Builders of the handlers -/

theorem addConnectionCloseIfNeeded_eq (builder : HttpResponseBuilder) :
    addConnectionCloseIfNeeded env request builder =
      if request.closes then builder.option env .close else builder := by
  unfold addConnectionCloseIfNeeded HttpRequest.closes
  cases request.headers.getCstr (lit "Connection") <;> simp

def bareBuilder (env : Env) (request : HttpRequest) (status : HttpStatus) : HttpResponseBuilder :=
  addConnectionCloseIfNeeded env request (createHttpResponseBuilder status)

def HttpRequest.acceptsGzip (request : HttpRequest) : Bool :=
  match request.headers.getCstr (lit "Accept-Encoding") with
  | some encodings => lit "gzip" ∈ tokens (· ∈ lit " ,") encodings
  | none => false

def echoBuilder (env : Env) (request : HttpRequest) (result : Bytes) : HttpResponseBuilder :=
  let builder := (createHttpResponseBuilder .httpOk).plainMessage env result
  let builder := if request.acceptsGzip then builder.option env .compressionGzip else builder
  addConnectionCloseIfNeeded env request builder

def userAgentBuilder (env : Env) (request : HttpRequest) (result : Bytes) : HttpResponseBuilder :=
  addConnectionCloseIfNeeded env request ((createHttpResponseBuilder .httpOk).plainMessage env result)

/-- The builder of `get_files` on the files `w`. -/
def getFilesBuilder (env : Env) (directory : Option Bytes) (request : HttpRequest) (w : World)
    (filename : Bytes) : HttpResponseBuilder :=
  match directory with
  | none => createHttpResponseBuilder .httpBadRequest
  | some directory =>
    match w.files (directory ++ filename) with
    | none => bareBuilder env request .httpNotFound
    | some content => fileBuilder env request (content ++ [0]) content.length

def HttpRequest.contentLength (request : HttpRequest) : Option ℤ :=
  (request.headers.getCstr (lit "Content-Length")).bind parseLong

def postFilesStatus (env : Env) (directory : Option Bytes) (request : HttpRequest)
    (filename : Bytes) : HttpStatus :=
  match directory, request.contentLength with
  | some directory, some _ =>
    if env.canWrite (directory ++ filename) then .httpCreated else .httpInternalServerError
  | _, _ => .httpBadRequest

/-! ### The status of a builder -/

section Status

variable (env : Env) (request : HttpRequest)

theorem statusCode_option (builder : HttpResponseBuilder) (o : HttpResponseOption) :
    (builder.option env o).statusCode = builder.statusCode := by
  cases o with
  | compressionGzip =>
    simp only [option, compressionGzip]
    cases builder.data with
    | none => rfl
    | some data =>
      cases builder.headers with
      | none => rfl
      | some headers =>
        simp only
        cases headers.get (lit "Content-Length") with
        | none => rfl
        | some v =>
          simp only
          cases env.gzipCompress _ <;> rfl
  | _ => rfl

theorem statusCode_addConnectionClose (builder : HttpResponseBuilder) :
    (addConnectionCloseIfNeeded env request builder).statusCode = builder.statusCode := by
  rw [addConnectionCloseIfNeeded_eq]
  split
  · exact statusCode_option env builder .close
  · rfl

@[simp] theorem statusCode_errorBuilder (status : HttpStatus) (closes : Bool) :
    (errorBuilder env status closes).statusCode = status := by
  cases closes <;> rfl

@[simp] theorem statusCode_userAgentBuilder (result : Bytes) :
    (userAgentBuilder env request result).statusCode = .httpOk :=
  statusCode_addConnectionClose env request _

@[simp] theorem statusCode_fileBuilder (buffer : Bytes) (length : ℕ) :
    (fileBuilder env request buffer length).statusCode = .httpOk :=
  statusCode_addConnectionClose env request _

@[simp] theorem statusCode_echoBuilder (result : Bytes) :
    (echoBuilder env request result).statusCode = .httpOk := by
  rw [echoBuilder, statusCode_addConnectionClose]
  split
  · rw [statusCode_option]
    rfl
  · rfl

end Status

/-! ### The encodings of a request -/

/-- The loop of `route_echo` looks for `gzip` among the tokens of the header. -/
theorem findGzip_eq {fuel : ℕ} {s : Bytes} (h : s.length < fuel) :
    findGzip fuel s = .ok (decide (lit "gzip" ∈ tokens (· ∈ lit " ,") s)) := by
  induction fuel generalizing s with
  | zero => omega
  | succ fuel ih =>
    rw [findGzip, tokens_eq]
    cases ht : token (· ∈ lit " ,") s with
    | none => simp
    | some p =>
      obtain ⟨t, r⟩ := p
      have hr := token_length_lt ht
      simp only
      by_cases hgzip : t = lit "gzip"
      · simp [hgzip]
      · have hgzip' : ¬ lit "gzip" = t := fun h => hgzip h.symm
        simp [hgzip, hgzip', ih (show r.length < fuel by omega)]

/-! ### The handlers -/

section Handlers

variable {params : Hashmap Bytes} {filename p : Bytes}

theorem routeRoot_eq : routeRoot env request params w =
    .ok ((if (lit "GET").isPrefixOf request.method then some (bareBuilder env request .httpOk)
      else none).map (·.construct env), w) := by
  unfold routeRoot
  split <;> rfl

theorem routeEcho_eq (hp : params.getCstr (lit "param") = some p) :
    routeEcho env request params w = .ok (some ((echoBuilder env request p).construct env), w) := by
  unfold routeEcho echoBuilder HttpRequest.acceptsGzip
  simp only [hp]
  cases request.headers.getCstr (lit "Accept-Encoding") with
  | none => rfl
  | some v =>
    simp only [findGzip_eq (show v.length < v.length + 1 by omega)]
    rfl

theorem routeUserAgent_eq : routeUserAgent env request params w =
    .ok (((request.headers.getCstr (lit "User-Agent")).map (userAgentBuilder env request)).map
      (·.construct env), w) := by
  unfold routeUserAgent
  cases request.headers.getCstr (lit "User-Agent") <;> rfl

def World.touch (w : World) (path : Bytes) : World := { w with opened := w.opened ++ [path] }

def World.store (w : World) (path content : Bytes) : World :=
  { files := Function.update w.files path (some content), opened := w.opened ++ [path] }

theorem getFiles_eq (hd : params.getCstr (lit "directory") = directory)
    (hp : params.getCstr (lit "param") = some filename) :
    getFiles env request params w =
      .ok (some ((getFilesBuilder env directory request w filename).construct env),
        match directory with
        | none => w
        | some directory => w.touch (directory ++ filename)) := by
  unfold getFiles getFilesBuilder
  simp only [hd, hp]
  cases directory with
  | none => rfl
  | some directory =>
    simp only [World.fopenRead, World.touch]
    rcases Option.eq_none_or_eq_some (w.files (directory ++ filename)) with hf | ⟨content, hf⟩
    · simp [hf, bareResponse, bareBuilder]
    · simp [hf, FileState.length, FileState.read]

/-- `fopen` with truncation, then the content written when the stream is closed. -/
theorem modify_flush (path content : Bytes) :
    ((w.touch path).modify path .truncate).modify path (.flush content) = w.store path content := by
  simp [World.modify, World.touch, World.store, FileState.truncate, FileState.flush]

/-- The files after `post_files`, which fails when the body is not there to be written. -/
def postFilesWorld (env : Env) (directory : Option Bytes) (request : HttpRequest) (w : World)
    (filename : Bytes) : Except Fault World :=
  match directory, request.contentLength with
  | some directory, some n =>
    if env.canWrite (directory ++ filename) then
      (fwriteBytes request.data n).map (w.store (directory ++ filename))
    else .ok (w.touch (directory ++ filename))
  | _, _ => .ok w

theorem postFiles_eq (hd : params.getCstr (lit "directory") = directory)
    (hp : params.getCstr (lit "param") = some filename) :
    postFiles env request params w = (postFilesWorld env directory request w filename).map fun w' =>
      (some ((bareBuilder env request (postFilesStatus env directory request filename)).construct env),
        w') := by
  unfold postFiles postFilesWorld postFilesStatus HttpRequest.contentLength
  simp only [hd, hp]
  cases directory with
  | none => rfl
  | some directory =>
    cases (request.headers.getCstr (lit "Content-Length")).bind parseLong with
    | none => rfl
    | some n =>
      simp only [World.fopenWrite]
      by_cases hw : env.canWrite (directory ++ filename)
      · simp only [hw, if_true, Bool.true_eq_false, if_false]
        have := fun content => modify_flush (w := w) (directory ++ filename) content
        simp only [World.touch] at this
        simp only [this]
        cases fwriteBytes request.data n <;> rfl
      · simp [hw, World.touch, Except.map, bareResponse, bareBuilder]

end Handlers

/-! ### What the builders send -/

section Sends

variable {builder : HttpResponseBuilder} {status : HttpStatus} {gs : List (Bytes × Bytes)}
  {data p output : Bytes} {n : ℕ}

theorem bareBuilder_eq (env : Env) (request : HttpRequest) (status : HttpStatus) :
    bareBuilder env request status = errorBuilder env status request.closes := by
  rw [bareBuilder, addConnectionCloseIfNeeded_eq]
  rfl

theorem sends_addConnectionClose (h : builder.Sends status gs data n) :
    (addConnectionCloseIfNeeded env request builder).Sends status (closeField request.closes ++ gs)
      data n := by
  rw [addConnectionCloseIfNeeded_eq]
  cases request.closes with
  | false => exact h
  | true => exact h.close env

theorem sends_plainMessage (env : Env) (message : Bytes) :
    ((createHttpResponseBuilder .httpOk).plainMessage env message).Sends .httpOk
      [contentType "text/plain"] (message.takeWhile (· ≠ 0) ++ [0]) message.length :=
  sends_typed (by decide) rfl rfl

theorem sends_userAgent (result : Bytes) : (userAgentBuilder env request result).Sends .httpOk
    (closeField request.closes ++ [contentType "text/plain"]) (result.takeWhile (· ≠ 0) ++ [0])
    result.length :=
  sends_addConnectionClose (sends_plainMessage env result)

theorem sends_file (env : Env) (request : HttpRequest) (buffer : Bytes) (length : ℕ) :
    (fileBuilder env request buffer length).Sends .httpOk
      (closeField request.closes ++ [contentType "application/octet-stream"])
      (buffer.takeWhile (· ≠ 0) ++ [0]) length :=
  sends_addConnectionClose (sends_typed (by decide) rfl rfl)

theorem readPast_message (env : Env) (hp : NulFree p) :
    env.readPast (p.takeWhile (· ≠ 0) ++ [0]) p.length = p := by
  rw [hp.takeWhile, readPast_of_le (by simp), List.take_left]

/-- What is relied on of zlib: an output is never empty, and is not much longer than its input. -/
structure Env.GzipSane (env : Env) : Prop where
  ne_nil : ∀ input output, env.gzipCompress input = some output → output ≠ []
  length : ∀ input output, env.gzipCompress input = some output →
    output.length ≤ 2 * input.length + 1024

def echoEncoded (env : Env) (request : HttpRequest) (p : Bytes) : Bool :=
  request.acceptsGzip && (env.gzipCompress p).isSome

def echoBody (env : Env) (request : HttpRequest) (p : Bytes) : Bytes :=
  if request.acceptsGzip then (env.gzipCompress p).getD p else p

/-- The fields of an answer to `/echo/`, but for the length. -/
def echoFields (closes encoded : Bool) : List (Bytes × Bytes) :=
  closeField closes ++ ((if encoded then [contentEncoding] else []) ++ [contentType "text/plain"])

theorem mem_echoFields (closes encoded : Bool) :
    contentEncoding ∈ echoFields closes encoded ↔ encoded = true := by
  cases closes <;> cases encoded <;> decide

theorem length_echoBody (hg : env.GzipSane) (request : HttpRequest) (p : Bytes) :
    (echoBody env request p).length ≤ 2 * p.length + 1024 := by
  unfold echoBody
  split
  · rcases hout : env.gzipCompress p with _ | output
    · simp only [Option.getD_none]
      omega
    · exact hg.length p output hout
  · omega

/-- **`route_echo`** sends the body `echoBody`, from an allocation that is no shorter. -/
theorem sends_echo (hg : env.GzipSane) (request : HttpRequest) (hp : NulFree p)
    (hlen : p.length < 2 ^ 63) : ∃ pad,
    (echoBuilder env request p).Sends .httpOk
      (echoFields request.closes (echoEncoded env request p)) (echoBody env request p ++ pad)
      (echoBody env request p).length := by
  have hmessage := sends_plainMessage env p
  have hread := readPast_message env hp
  rw [hp.takeWhile] at hmessage hread
  unfold echoBuilder echoFields echoEncoded echoBody
  by_cases haccepts : request.acceptsGzip = true
  · simp only [haccepts, if_true, Bool.true_and]
    rcases hout : env.gzipCompress p with _ | output
    · refine ⟨[0], ?_⟩
      rw [hmessage.compressionGzip_none hlen (by rw [hread, hout])]
      exact sends_addConnectionClose hmessage
    · refine ⟨[], ?_⟩
      rw [List.append_nil]
      exact sends_addConnectionClose
        (hmessage.compressionGzip hlen (by rw [hread]; exact hout) (hg.ne_nil p output hout))
  · refine ⟨[0], ?_⟩
    simp only [haccepts, if_false, Bool.false_and, Bool.false_eq_true]
    exact sends_addConnectionClose hmessage

end Sends

end HttpServer

import HttpServer.RoutesSem
import HttpServer.RequestBlocks
import HttpServer.ResponseBlocks

/-!
# The blocks of the route handlers

The handlers of `routes.c` with their blocks.  A handler is lent the request and the parameters, and
gives both back; `get_files` and `post_files` have changed the string of the directory.  What they leave
is the path, the content of a file and the text of its length.
-/

namespace HttpServer

open Lib

namespace Blocks

def addConnectionCloseIfNeeded (request : RequestPtr) (builder : BuilderPtr) : M BuilderPtr := do
  match ← request.header (lit "Connection") with
  | some connection => do
    touch connection.blocks
    if connection.text = lit "close" then builder.close else pure builder
  | none => pure builder

/-- The last lines of the handlers. -/
def closeAndRespond (env : Env) (request : RequestPtr) (builder : BuilderPtr) : M ResponsePtr := do
  let builder ← addConnectionCloseIfNeeded request builder
  builder.respond env

/-- The response without headers of its own that many branches give. -/
def bareResponse (env : Env) (request : RequestPtr) (status : HttpStatus) : M ResponsePtr := do
  let builder ← BuilderPtr.create status
  closeAndRespond env request builder

/-- What a handler returns: the response, or NULL, the files and the parameters after it. -/
structure Handled where
  response : Option ResponsePtr
  world : World
  params : HashmapPtr

abbrev Handler := Env → RequestPtr → HashmapPtr → World → M Handled

def routeRoot : Handler := fun env request params w => do
  touch ({request.self} + request.method.blocks)
  if (lit "GET").isPrefixOf request.method.text then do
    let response ← bareResponse env request .httpOk
    pure ⟨some response, w, params⟩
  else pure ⟨none, w, params⟩

def messageBuilder (message : BString) : M BuilderPtr := do
  let builder ← BuilderPtr.create .httpOk
  builder.plainMessage message

def compressIf (gzip : Bool) (env : Env) (builder : BuilderPtr) : M BuilderPtr :=
  if gzip then builder.compressionGzip env else pure builder

/-- The lines of `route_echo` on the encodings that the request accepts. -/
def compressIfAccepted (env : Env) (request : RequestPtr) (builder : BuilderPtr) : M BuilderPtr := do
  match ← request.header (lit "Accept-Encoding") with
  | some acceptEncoding => do
    touch acceptEncoding.blocks
    let acceptEncodingStr ← strdup acceptEncoding.text
    let gzip ← raise (findGzip (acceptEncoding.text.length + 1) acceptEncoding.text)
    let builder ← compressIf gzip env builder
    free acceptEncodingStr.block
    pure builder
  | none => pure builder

def routeEcho : Handler := fun env request params w => do
  match ← params.getCstr (lit "param") with
  | none => raise (.error .nullPointer)
  | some result => do
    let builder ← messageBuilder result
    let builder ← compressIfAccepted env request builder
    let response ← closeAndRespond env request builder
    pure ⟨some response, w, params⟩

def routeUserAgent : Handler := fun env request params w => do
  match ← request.header (lit "User-Agent") with
  | none => pure ⟨none, w, params⟩
  | some result => do
    let builder ← messageBuilder result
    let response ← closeAndRespond env request builder
    pure ⟨some response, w, params⟩

/-- The path of a file, made in the string of the directory: the parameters after it, and the path. -/
def joinPath (params : HashmapPtr) (directory filename : BString) :
    M (HashmapPtr × Option CString) := do
  let directory ← bconcat directory filename
  let path ← bstr2cstr (some directory)
  pure (params.modify (lit "directory") directory, path)

/-- The lines of `get_files` on a file that is there. -/
def sendFile (env : Env) (request : RequestPtr) (bytes : Bytes) (length : ℕ) : M ResponsePtr := do
  let buffer ← strdup (bytes ++ List.replicate (length + 1 - bytes.length) 0)
  let builder ← BuilderPtr.create .httpOk
  let headers ← HashmapPtr.create
  let headers ← headers.setField (lit "Content-Type") (lit "application/octet-stream")
  let contentLength ← strdup (decimal length)
  let headers ← headers.setField (lit "Content-Length") contentLength.text
  let builder ← builder.setHeaders headers
  touch buffer.blocks
  let builder ← builder.setBody buffer.text
  closeAndRespond env request builder

def getFiles : Handler := fun env request params w => do
  match ← params.getCstr (lit "directory"), ← params.getCstr (lit "param") with
  | some directory, some filename => do
    let path := directory.text ++ filename.text
    let joined ← joinPath params directory filename
    let (file, w) := w.fopenRead path
    -- Check if file exists
    if file = false then do
      let response ← bareResponse env request .httpNotFound
      pure ⟨some response, w, joined.1⟩
    else do
      let length := (w.files path).length
      let response ← sendFile env request ((w.files path).read length) length
      pure ⟨some response, w, joined.1⟩
  | _, _ => do
    let builder ← BuilderPtr.create .httpBadRequest
    let response ← builder.respond env
    pure ⟨some response, w, params⟩

def postFiles : Handler := fun env request params w => do
  let directory ← params.getCstr (lit "directory")
  let filename ← params.getCstr (lit "param")
  let contentLengthStr ← request.header (lit "Content-Length")
  match directory, filename, contentLengthStr.bind (parseLong ·.text) with
  | some directory, some filename, some contentLength => do
    let path := directory.text ++ filename.text
    let joined ← joinPath params directory filename
    let (file, w) := w.fopenWrite env path
    -- Check if file exists
    if file = false then do
      let response ← bareResponse env request .httpInternalServerError
      pure ⟨some response, w, joined.1⟩
    else do
      touch (blocksOf CString.blocks request.data)
      let buffered ← raise (fwriteBytes (request.data.map (·.text)) contentLength)
      let response ← bareResponse env request .httpCreated
      pure ⟨some response, w.modify path (.flush buffered), joined.1⟩
  | _, _, _ => do
    let response ← bareResponse env request .httpBadRequest
    pure ⟨some response, w, params⟩

def routeFiles : Handler := fun env request params w => do
  touch ({request.self} + request.method.blocks)
  if request.method.text = lit "GET" then getFiles env request params w
  else if request.method.text = lit "POST" then postFiles env request params w
  else pure ⟨none, w, params⟩

section Specs

variable {env : Env} {request : RequestPtr} {params : HashmapPtr} {builder : BuilderPtr} {w : World}
  {directory : Option Bytes} {filename : Bytes}

theorem exchanges_addConnectionCloseIfNeeded (env : Env) (request : RequestPtr) (builder : BuilderPtr) :
    Exchanges (builder.blocks + request.blocks) (addConnectionCloseIfNeeded request builder)
      (fun b => b.value =
        HttpServer.addConnectionCloseIfNeeded env request.value builder.value)
      (fun b => b.blocks + request.blocks) 0 := by
  unfold HttpServer.addConnectionCloseIfNeeded
  refine (request.exchanges_header (by decide)).step builder.blocks (add_comm _ _) ?_
  rintro r ⟨htext, hlent⟩
  rw [← htext, add_comm]
  cases r with
  | none => exact .ret rfl rfl
  | some connection =>
    refine (exchanges_touch (hlent connection rfl)).step builder.blocks (add_comm _ _) fun _ _ => ?_
    simp only [Option.map_some]
    rw [add_comm]
    by_cases h : connection.text = lit "close"
    · rw [if_pos h, if_pos h]
      exact (builder.exchanges_close env).frame request.blocks
    · rw [if_neg h, if_neg h]
      exact .ret rfl rfl

theorem exchanges_closeAndRespond (env : Env) (request : RequestPtr) (builder : BuilderPtr) :
    Exchanges (builder.blocks + request.blocks) (closeAndRespond env request builder)
      (fun r => r.value =
        (HttpServer.addConnectionCloseIfNeeded env request.value builder.value).construct env)
      (fun r => r.blocks + request.blocks)
      (BuilderPtr.builderLeft
        (HttpServer.addConnectionCloseIfNeeded env request.value builder.value)) := by
  refine (exchanges_addConnectionCloseIfNeeded env request builder).step 0 (add_zero _).symm
    fun b hb => ?_
  rw [add_zero, ← hb]
  exact (b.exchanges_respond env).frame request.blocks

theorem exchanges_bareResponse (env : Env) (request : RequestPtr) (status : HttpStatus) :
    Exchanges request.blocks (bareResponse env request status)
      (fun r => r.value = (bareBuilder env request.value status).construct env)
      (fun r => r.blocks + request.blocks)
      (BuilderPtr.builderLeft (bareBuilder env request.value status)) := by
  refine (BuilderPtr.exchanges_create status).step request.blocks (zero_add _).symm ?_
  rintro b ⟨hb, -, -⟩
  rw [bareBuilder, ← hb]
  exact exchanges_closeAndRespond env request b

/-- The blocks that a builder which answers, or none, leaves. -/
def answeredLeft (builder : Option HttpResponseBuilder) : ℕ := builder.elim 0 BuilderPtr.builderLeft

/-- The handler gives back what it was lent, with as many parameters; it answers with the builder, or
declines, leaves the files `w'`, and `n` blocks besides those of the builder. -/
def Handles (prog : M Handled) (env : Env) (request : RequestPtr) (params : HashmapPtr)
    (builder : Option HttpResponseBuilder) (w' : World) (n : ℕ) : Prop :=
  Exchanges (request.blocks + params.blocks) prog
    (fun h => h.response.map (·.value) = builder.map (·.construct env) ∧ h.world = w' ∧
      h.params.size = params.size)
    (fun h => blocksOf ResponsePtr.blocks h.response + request.blocks + h.params.blocks)
    (n + answeredLeft builder)

theorem mem_method (request : RequestPtr) :
    ∀ x ∈ {request.self} + request.method.blocks, x ∈ request.blocks := by
  intro x hx
  rw [RequestPtr.blocks]
  simp only [Multiset.mem_add] at hx ⊢
  tauto

theorem handles_routeRoot (env : Env) (request : RequestPtr) (params : HashmapPtr) (w : World) :
    Handles (routeRoot env request params w) env request params
      (if (lit "GET").isPrefixOf request.value.method then some (bareBuilder env request.value .httpOk)
        else none) w 0 := by
  refine (exchanges_touch (mem_method request)).step params.blocks rfl fun _ _ => ?_
  have hmethod : request.value.method = request.method.text := rfl
  rw [hmethod, zero_add]
  by_cases h : (lit "GET").isPrefixOf request.method.text = true
  · rw [if_pos h, if_pos h]
    refine (exchanges_bareResponse env request .httpOk).stepLosing (m := 0) params.blocks rfl
      (add_zero _).symm fun response hresponse => .ret ⟨?_, rfl, rfl⟩ rfl
    rw [Option.map_some, hresponse]
    rfl
  · rw [if_neg h, if_neg h]
    exact .ret ⟨rfl, rfl, rfl⟩ (by rw [blocksOf, Option.elim_none, zero_add])

theorem exchanges_compressIf (gzip : Bool) (env : Env) (builder : BuilderPtr) :
    Exchanges builder.blocks (compressIf gzip env builder)
      (fun b => b.value = if gzip then builder.value.option env .compressionGzip else builder.value)
      BuilderPtr.blocks (if gzip then BuilderPtr.gzipLeft env builder.value else 0) := by
  cases gzip with
  | true => exact builder.exchanges_compressionGzip env
  | false => exact .ret rfl rfl

theorem exchanges_compressIfAccepted (env : Env) (request : RequestPtr) (builder : BuilderPtr) :
    Exchanges (builder.blocks + request.blocks) (compressIfAccepted env request builder)
      (fun b => b.value = if request.value.acceptsGzip then
        builder.value.option env .compressionGzip else builder.value)
      (fun b => b.blocks + request.blocks)
      (if request.value.acceptsGzip then BuilderPtr.gzipLeft env builder.value else 0) := by
  unfold HttpRequest.acceptsGzip
  refine (request.exchanges_header (by decide)).step builder.blocks (add_comm _ _) ?_
  rintro r ⟨htext, hlent⟩
  rw [← htext, add_comm]
  cases r with
  | none => exact .ret rfl rfl
  | some acceptEncoding =>
    refine (exchanges_touch (hlent acceptEncoding rfl)).step builder.blocks (add_comm _ _)
      fun _ _ => ?_
    refine (exchanges_strdup acceptEncoding.text).step _ (zero_add _).symm fun str _ => ?_
    refine exchanges_raise_bind (g := Except.ok) (bind_eq_ok.2
      ⟨_, findGzip_eq (Nat.lt_succ_self acceptEncoding.text.length), rfl⟩) ?_
    rintro _ - ⟨⟩
    simp only [Option.map_some]
    refine (exchanges_compressIf _ env builder).stepLosing (m := 0) (str.blocks + request.blocks) ?_
      (add_zero _).symm fun b hb => ?_
    · abel
    refine (exchanges_free str.block).step (b.blocks + request.blocks) ?_ fun _ _ => ?_
    · rw [CString.blocks]
      abel
    exact .ret hb (zero_add _)

/-- What is left of the strings of `Content-Length` when an echo is compressed. -/
def echoLeft (env : Env) (request : HttpRequest) (result : Bytes) : ℕ :=
  if request.acceptsGzip then
    BuilderPtr.gzipLeft env ((createHttpResponseBuilder .httpOk).plainMessage env result)
  else 0

theorem exchanges_messageBuilder (env : Env) {message : BString} {lent : Multiset ℕ}
    (hmessage : ∀ x ∈ message.blocks, x ∈ lent) :
    Exchanges lent (messageBuilder message)
      (fun b => b.value = (createHttpResponseBuilder .httpOk).plainMessage env message.text)
      (fun b => b.blocks + lent) 0 := by
  refine (BuilderPtr.exchanges_create .httpOk).step lent (zero_add _).symm ?_
  rintro builder ⟨hvalue, hheaders, hdata⟩
  rw [← hvalue]
  exact BuilderPtr.exchanges_plainMessage env hheaders hdata hmessage

theorem handles_routeEcho (env : Env) (request : RequestPtr) (w : World) {result : Bytes}
    (hp : params.value.getCstr (lit "param") = some result) :
    Handles (routeEcho env request params w) env request params
      (some (echoBuilder env request.value result)) w (echoLeft env request.value result) := by
  refine (params.exchanges_getCstr (lit "param")).step request.blocks (add_comm _ _) fun r hr => ?_
  have hlent := HashmapPtr.mem_blocks_of_found (by decide) hr
  rw [← params.text_found, ← hr] at hp
  obtain ⟨message, rfl, rfl⟩ := Option.map_eq_some_iff.1 hp
  refine (exchanges_messageBuilder env (hlent message rfl)).step request.blocks rfl fun builder hb => ?_
  refine (exchanges_compressIfAccepted env request builder).stepLosing
    (m := BuilderPtr.builderLeft (echoBuilder env request.value message.text)) params.blocks ?_ ?_
    fun builder' hb' => ?_
  · abel
  · rw [echoLeft, hb]
    rfl
  rw [hb] at hb'
  refine (exchanges_closeAndRespond env request builder').stepLosing (m := 0) params.blocks rfl ?_
    fun response hresponse => .ret ⟨?_, rfl, rfl⟩ rfl
  · rw [hb', add_zero]
    rfl
  · rw [Option.map_some, hresponse, hb']
    rfl

theorem handles_routeUserAgent (env : Env) (request : RequestPtr) (params : HashmapPtr) (w : World) :
    Handles (routeUserAgent env request params w) env request params
      ((request.value.headers.getCstr (lit "User-Agent")).map
        (userAgentBuilder env request.value)) w 0 := by
  refine (request.exchanges_header (by decide)).step params.blocks rfl ?_
  rintro r ⟨htext, hlent⟩
  rw [← htext]
  cases r with
  | none => exact .ret ⟨rfl, rfl, rfl⟩ (by rw [blocksOf, Option.elim_none, zero_add])
  | some message =>
    refine (exchanges_messageBuilder env (hlent message rfl)).step params.blocks rfl fun builder hb => ?_
    refine (exchanges_closeAndRespond env request builder).stepLosing (m := 0) params.blocks rfl ?_
      fun response hresponse => .ret ⟨?_, rfl, rfl⟩ rfl
    · rw [hb, add_zero, zero_add]
      rfl
    · rw [Option.map_some, hresponse, hb]
      rfl

theorem exchanges_joinPath {d name : Slot} (hd : params.map.get (lit "directory") = some d)
    (hname : params.map.get (lit "param") = some name) :
    Exchanges params.blocks (joinPath params d.data name.data)
      (fun r => r.1.size = params.size) (fun r => r.1.blocks) 1 := by
  have hnul : NulFree (lit "directory") := by decide
  obtain ⟨rest, hblocks, -⟩ := HashmapPtr.blocks_modify hnul hd d.data
  have hlent : ∀ x ∈ name.data.blocks, x ∈ d.data.blocks + rest := by
    rw [← hblocks]
    exact HashmapPtr.mem_blocks_of_found (by decide) (congrArg (Option.map (·.data)) hname).symm _ rfl
  rw [hblocks]
  refine (exchanges_bconcat hlent).step 0 (add_zero _).symm fun b _ => ?_
  have hself : ∀ b', some b = some b' → ∀ x ∈ b'.blocks, x ∈ b.blocks + rest := by
    rintro _ ⟨⟩ x hx
    exact Multiset.mem_add.2 (Or.inl hx)
  refine (exchanges_bstr2cstr (b.blocks + rest) hself).step 0 rfl fun path hpath => ?_
  obtain ⟨s, rfl, -⟩ := Option.map_eq_some_iff.1 hpath
  obtain ⟨rest', hblocks', hmodify⟩ := HashmapPtr.blocks_modify hnul hd b
  obtain rfl : rest' = rest := add_left_cancel (hblocks'.symm.trans hblocks)
  refine Exchanges.forget (n := 0) s.blocks (?_ : _ = b.blocks + rest' + _) rfl
    (.ret (HashmapPtr.size_modify hnul hd b) hmodify.symm)
  rw [blocksOf, Option.elim_some]
  abel

theorem exchanges_sendFile (env : Env) (request : RequestPtr) (bytes : Bytes) (length : ℕ) :
    Exchanges request.blocks (sendFile env request bytes length)
      (fun r => r.value = (fileBuilder env request.value
        (bytes ++ List.replicate (length + 1 - bytes.length) 0) length).construct env)
      (fun r => r.blocks + request.blocks)
      (2 + BuilderPtr.builderLeft (fileBuilder env request.value
        (bytes ++ List.replicate (length + 1 - bytes.length) 0) length)) := by
  generalize hcontent : bytes ++ List.replicate (length + 1 - bytes.length) 0 = content
  unfold sendFile
  rw [hcontent]
  refine (exchanges_strdup content).step request.blocks (zero_add _).symm fun buffer hbuffer => ?_
  refine (BuilderPtr.exchanges_create .httpOk).step _ (zero_add _).symm ?_
  rintro b₀ ⟨hb₀, hheaders, hdata⟩
  refine HashmapPtr.exchanges_create.step _ (zero_add _).symm fun m₀ h₀ => ?_
  refine (m₀.exchanges_setField _ _).step _ rfl fun m₁ h₁ => ?_
  refine (exchanges_strdup (decimal length)).step _ (zero_add _).symm fun contentLength hlen => ?_
  refine (m₁.exchanges_setField _ _).step
    (contentLength.blocks + b₀.blocks + buffer.blocks + request.blocks) ?_ fun m₂ h₂ => ?_
  · abel
  refine (BuilderPtr.exchanges_setHeaders env hheaders m₂).step
    (contentLength.blocks + buffer.blocks + request.blocks) ?_ ?_
  · abel
  rintro b₁ ⟨hb₁, hdata₁⟩
  refine (exchanges_touch_all buffer.blocks).step
    (b₁.blocks + contentLength.blocks + request.blocks) ?_ fun _ _ => ?_
  · abel
  refine (BuilderPtr.exchanges_setBody env (hdata₁.trans hdata) buffer.text).step
    (contentLength.blocks + buffer.blocks + request.blocks) ?_ fun b₂ hb₂ => ?_
  · abel
  have hfile : HttpServer.addConnectionCloseIfNeeded env request.value b₂.value =
      fileBuilder env request.value content length := by
    rw [hb₂, hb₁, h₂, hlen, h₁, h₀, hb₀, hbuffer]
    rfl
  have hrespond := exchanges_closeAndRespond env request b₂
  rw [hfile] at hrespond
  refine hrespond.forget (contentLength.blocks + buffer.blocks) ?_ rfl
  abel

/-- What `get_files` leaves besides: the path, and of a file that is there its content and the text of
its length. -/
def getFilesLeft (directory : Option Bytes) (w : World) (filename : Bytes) : ℕ :=
  match directory with
  | none => 0
  | some directory => if (w.files (directory ++ filename)).isSome then 3 else 1

def getFilesWorld (directory : Option Bytes) (w : World) (filename : Bytes) : World :=
  match directory with
  | none => w
  | some directory => w.touch (directory ++ filename)

theorem handles_getFiles (env : Env) (request : RequestPtr) (w : World)
    (hd : params.value.getCstr (lit "directory") = directory)
    (hp : params.value.getCstr (lit "param") = some filename) :
    Handles (getFiles env request params w) env request params
      (some (getFilesBuilder env directory request.value w filename)) (getFilesWorld directory w filename)
      (getFilesLeft directory w filename) := by
  refine (params.exchanges_getCstr (lit "directory")).step request.blocks (add_comm _ _) fun r hr => ?_
  refine (params.exchanges_getCstr (lit "param")).step request.blocks rfl fun r' hr' => ?_
  rw [← params.text_found, ← hr] at hd
  rw [← params.text_found, ← hr'] at hp
  obtain ⟨name, rfl, rfl⟩ := Option.map_eq_some_iff.1 hp
  cases r with
  | none =>
    obtain rfl : directory = none := hd.symm
    refine (BuilderPtr.exchanges_create .httpBadRequest).step _ (zero_add _).symm ?_
    rintro b ⟨hb, -, -⟩
    refine (b.exchanges_respond env).stepLosing (m := 0) (params.blocks + request.blocks) rfl ?_
      fun response hresponse => .ret ⟨?_, rfl, rfl⟩ ?_
    · rw [hb]
      rfl
    · rw [Option.map_some, hresponse, hb]
      rfl
    · simp only [blocksOf, Option.elim_some]
      abel
  | some dir =>
    obtain rfl : directory = some dir.text := hd.symm
    obtain ⟨d, hget, rfl⟩ := Option.map_eq_some_iff.1 hr.symm
    obtain ⟨n, hget', rfl⟩ := Option.map_eq_some_iff.1 hr'.symm
    simp only [World.fopenRead, getFilesBuilder, getFilesLeft]
    rcases Option.eq_none_or_eq_some (w.files (d.data.text ++ n.data.text)) with
      hfile | ⟨content, hfile⟩
    · simp only [hfile, Option.isSome_none, Bool.false_eq_true, if_false, if_true]
      refine (exchanges_joinPath hget hget').stepLosing (m := BuilderPtr.builderLeft
        (bareBuilder env request.value .httpNotFound)) request.blocks rfl rfl fun joined hsize => ?_
      refine (exchanges_bareResponse env request .httpNotFound).stepLosing (m := 0) joined.1.blocks
        (add_comm _ _) (add_zero _).symm fun response hresponse => .ret ⟨?_, rfl, hsize⟩ rfl
      rw [Option.map_some, hresponse]
      rfl
    · have hcontent : content.take content.length ++ List.replicate
          (content.length + 1 - (content.take content.length).length) 0 = content ++ [0] := by
        rw [List.take_length, Nat.add_sub_cancel_left]
        rfl
      simp only [hfile, Option.isSome_some, Bool.true_eq_false, if_false, if_true, FileState.length,
        FileState.read, Option.getD_some]
      refine (exchanges_joinPath hget hget').stepLosing (m := 2 + BuilderPtr.builderLeft
        (fileBuilder env request.value (content ++ [0]) content.length)) request.blocks rfl ?_
        fun joined hsize => ?_
      · rw [answeredLeft, Option.elim_some, ← Nat.add_assoc]
      have hsend := exchanges_sendFile env request (content.take content.length) content.length
      rw [hcontent] at hsend
      refine hsend.stepLosing (m := 0) joined.1.blocks (add_comm _ _) (add_zero _).symm
        fun response hresponse => .ret ⟨?_, rfl, hsize⟩ rfl
      rw [Option.map_some, hresponse]
      rfl

/-- What `post_files` leaves besides: the path, when it makes one. -/
def postFilesLeft (directory : Option Bytes) (request : HttpRequest) : ℕ :=
  if directory.isSome ∧ request.contentLength.isSome then 1 else 0

theorem handles_postFiles (env : Env) (request : RequestPtr) {w w' : World}
    (hd : params.value.getCstr (lit "directory") = directory)
    (hp : params.value.getCstr (lit "param") = some filename)
    (hw : postFilesWorld env directory request.value w filename = .ok w') :
    Handles (postFiles env request params w) env request params
      (some (bareBuilder env request.value (postFilesStatus env directory request.value filename))) w'
      (postFilesLeft directory request.value) := by
  refine (params.exchanges_getCstr (lit "directory")).step request.blocks (add_comm _ _) fun r hr => ?_
  refine (params.exchanges_getCstr (lit "param")).step request.blocks rfl fun r' hr' => ?_
  refine (request.exchanges_header (by decide)).step params.blocks (add_comm _ _) ?_
  rintro length ⟨hlength, -⟩
  have hdeclared : length.bind (parseLong ·.text) = request.value.contentLength := by
    rw [HttpRequest.contentLength, ← hlength, Option.bind_map]
    rfl
  rw [hdeclared]
  rw [← params.text_found, ← hr] at hd
  rw [← params.text_found, ← hr'] at hp
  obtain ⟨name, rfl, rfl⟩ := Option.map_eq_some_iff.1 hp
  have hrefused : Handles (do
        let response ← bareResponse env request .httpBadRequest
        pure ⟨some response, w, params⟩) env request params
      (some (bareBuilder env request.value .httpBadRequest)) w 0 := by
    refine (exchanges_bareResponse env request .httpBadRequest).stepLosing (m := 0) params.blocks rfl
      ?_ fun response hresponse => .ret ⟨?_, rfl, rfl⟩ rfl
    · rw [zero_add]
      rfl
    · rw [Option.map_some, hresponse]
      rfl
  cases r with
  | none =>
    obtain rfl : directory = none := hd.symm
    cases hw
    exact hrefused
  | some dir =>
    obtain rfl : directory = some dir.text := hd.symm
    simp only [postFilesWorld, postFilesStatus, postFilesLeft] at hw ⊢
    cases hn : request.value.contentLength with
    | none =>
      rw [hn] at hw
      cases hw
      exact hrefused
    | some n =>
      obtain ⟨d, hget, rfl⟩ := Option.map_eq_some_iff.1 hr.symm
      obtain ⟨f, hget', rfl⟩ := Option.map_eq_some_iff.1 hr'.symm
      simp only [hn] at hw
      simp only [World.fopenWrite, Option.isSome_some, and_self, if_true]
      by_cases hcan : env.canWrite (d.data.text ++ f.data.text) = true
      · simp only [hcan, if_true, Bool.true_eq_false, if_false] at hw ⊢
        obtain ⟨content, hcontent, rfl⟩ := map_eq_ok.1 hw
        refine (exchanges_joinPath hget hget').stepLosing (m := BuilderPtr.builderLeft
          (bareBuilder env request.value .httpCreated)) request.blocks ?_ rfl fun joined hsize => ?_
        · abel
        refine (exchanges_touch fun x hx => ?_ : Exchanges request.blocks _ _ _ _).step
          joined.1.blocks (add_comm _ _) fun _ _ => ?_
        · rw [RequestPtr.blocks]
          exact Multiset.mem_add.2 (Or.inr hx)
        refine exchanges_raise_bind (g := Except.ok) (bind_eq_ok.2 ⟨_, hcontent, rfl⟩) ?_
        rintro _ - ⟨⟩
        refine (exchanges_bareResponse env request .httpCreated).stepLosing (m := 0) joined.1.blocks
          rfl (add_zero _).symm fun response hresponse => .ret ⟨?_, ?_, hsize⟩ rfl
        · rw [Option.map_some, hresponse]
          rfl
        · exact modify_flush _ _
      · simp only [hcan, Bool.false_eq_true, if_false] at hw ⊢
        cases hw
        refine (exchanges_joinPath hget hget').stepLosing (m := BuilderPtr.builderLeft
          (bareBuilder env request.value .httpInternalServerError)) request.blocks ?_ rfl
          fun joined hsize => ?_
        · abel
        refine (exchanges_bareResponse env request .httpInternalServerError).stepLosing (m := 0)
          joined.1.blocks (add_comm _ _) (add_zero _).symm
          fun response hresponse => .ret ⟨?_, rfl, hsize⟩ rfl
        rw [Option.map_some, hresponse]
        rfl

/-- What a request for a file leaves besides. -/
def filesLeft (directory : Option Bytes) (request : HttpRequest) (w : World) (filename : Bytes) : ℕ :=
  if request.method = lit "GET" then getFilesLeft directory w filename
  else if request.method = lit "POST" then postFilesLeft directory request
  else 0

theorem handles_routeFiles (env : Env) (request : RequestPtr) {w w' : World}
    (hd : params.value.getCstr (lit "directory") = directory)
    (hp : params.value.getCstr (lit "param") = some filename)
    (hw : (if request.value.method = lit "GET" then .ok (getFilesWorld directory w filename)
      else if request.value.method = lit "POST" then
        postFilesWorld env directory request.value w filename
      else .ok w : Except Fault World) = .ok w') :
    Handles (routeFiles env request params w) env request params
      (if request.value.method = lit "GET" then
        some (getFilesBuilder env directory request.value w filename)
      else if request.value.method = lit "POST" then
        some (bareBuilder env request.value (postFilesStatus env directory request.value filename))
      else none) w' (filesLeft directory request.value w filename) := by
  have hmethod : request.value.method = request.method.text := rfl
  rw [filesLeft]
  rw [hmethod] at hw ⊢
  refine (exchanges_touch (mem_method request)).step params.blocks rfl fun _ _ => ?_
  by_cases hget : request.method.text = lit "GET"
  · simp only [if_pos hget] at hw ⊢
    cases hw
    exact handles_getFiles env request w hd hp
  by_cases hpost : request.method.text = lit "POST"
  · simp only [if_neg hget, if_pos hpost] at hw ⊢
    exact handles_postFiles env request hd hp hw
  · simp only [if_neg hget, if_neg hpost] at hw ⊢
    cases hw
    exact .ret ⟨rfl, rfl, rfl⟩ (by rw [blocksOf, Option.elim_none, zero_add])

end Specs

end Blocks

end HttpServer

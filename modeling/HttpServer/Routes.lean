import HttpServer.Response

/-!
# The route handlers of `routes.c`

The handlers work on the parsed request, the map of route parameters and the files.  The file store
maps path strings to contents; `World.opened` records the paths given to `fopen`.  A handler that
returns NULL declines the request.
-/

namespace HttpServer

open Lib

/-! ### Files -/

/-- A file as one process sees it: absent, or its bytes. -/
abbrev FileState := Option Bytes

/-- `fopen(path, "w")` truncates the file, and creates it when it is absent. -/
def FileState.truncate (_ : FileState) : FileState := some []

/-- Closing a stream writes what was buffered at offset 0. -/
def FileState.flush (buffered : Bytes) (f : FileState) : FileState :=
  some (buffered ++ (f.getD []).drop buffered.length)

/-- `fseek` to the end and `ftell`. -/
def FileState.length (f : FileState) : ℕ := (f.getD []).length

/-- `fread` of `n` bytes from the start. -/
def FileState.read (f : FileState) (n : ℕ) : Bytes := (f.getD []).take n

/-- The files and the paths opened so far.  A path is its text: there are no directories, and names are not
resolved. -/
structure World where
  files : Bytes → FileState
  opened : List Bytes

def World.empty : World := ⟨fun _ => none, []⟩

def World.modify (w : World) (path : Bytes) (f : FileState → FileState) : World :=
  { w with files := Function.update w.files path (f (w.files path)) }

/-- `fopen(path, "r")`: whether the file is there.  A directory, which `fopen` opens as well, is not in the
store; `answerOn` has directories. -/
def World.fopenRead (w : World) (path : Bytes) : Bool × World :=
  ((w.files path).isSome, { w with opened := w.opened ++ [path] })

def World.fopenWrite (env : Env) (w : World) (path : Bytes) : Bool × World :=
  let w := { w with opened := w.opened ++ [path] }
  if env.canWrite path then (true, w.modify path .truncate) else (false, w)

/-- The bytes that `fwrite(data, n, 1, file)` reads from the allocation `data`. -/
def fwriteBytes (data : Option Bytes) (n : ℤ) : Except Fault Bytes :=
  match data with
  | some block => readBytes (sizeAdd 0 n) block
  | none => if n = 0 then .ok [] else .error .nullPointer

/-! ### Handlers -/

def addConnectionCloseIfNeeded (env : Env) (request : HttpRequest)
    (builder : HttpResponseBuilder) : HttpResponseBuilder :=
  match request.headers.getCstr (lit "Connection") with
  | some connection => if connection = lit "close" then builder.option env .close else builder
  | none => builder

/-- A handler: the response, or NULL, and the files after it. -/
abbrev Handler :=
  Env → HttpRequest → Hashmap Bytes → World → Except Fault (Option HttpResponse × World)

/-- The response without headers of its own that many branches give. -/
def bareResponse (env : Env) (request : HttpRequest) (status : HttpStatus) : HttpResponse :=
  (addConnectionCloseIfNeeded env request (createHttpResponseBuilder status)).construct env

/-- `route_root`: `strncmp` compares three bytes of the method. -/
def routeRoot : Handler := fun env request _ w =>
  if (lit "GET").isPrefixOf request.method then
    .ok (some (bareResponse env request .httpOk), w)
  else .ok (none, w)

/-- The `strtok` loop of `route_echo` over the encodings of the header, with the tokens left to
take bounded by `fuel`: whether it stops at `gzip`. -/
def findGzip : ℕ → Bytes → Except Fault Bool
  | 0, _ => .error .diverged
  | fuel + 1, s =>
    match token (· ∈ lit " ,") s with
    | none => .ok false
    | some (encoding, rest) => if encoding = lit "gzip" then .ok true else findGzip fuel rest

def routeEcho : Handler := fun env request params w => do
  match params.getCstr (lit "param") with
  | none => .error .nullPointer
  | some result =>
    let builder := (createHttpResponseBuilder .httpOk).plainMessage env result
    let gzip ← match request.headers.getCstr (lit "Accept-Encoding") with
      | some acceptEncoding => findGzip (acceptEncoding.length + 1) acceptEncoding
      | none => .ok false
    let builder := if gzip then builder.option env .compressionGzip else builder
    let builder := addConnectionCloseIfNeeded env request builder
    .ok (some (builder.construct env), w)

def routeUserAgent : Handler := fun env request _ w =>
  match request.headers.getCstr (lit "User-Agent") with
  | none => .ok (none, w)
  | some result =>
    let builder := (createHttpResponseBuilder .httpOk).plainMessage env result
    let builder := addConnectionCloseIfNeeded env request builder
    .ok (some (builder.construct env), w)

/-- The builder of `get_files` for the `length` bytes of `buffer`. -/
def fileBuilder (env : Env) (request : HttpRequest) (buffer : Bytes) (length : ℕ) :
    HttpResponseBuilder :=
  let builder := createHttpResponseBuilder .httpOk
  let headers := Hashmap.create
  let headers := headers.set (lit "Content-Type") (lit "application/octet-stream")
  let headers := headers.set (lit "Content-Length") (decimal length)
  let builder := builder.option env (.headers headers)
  let builder := builder.option env (.body buffer)
  addConnectionCloseIfNeeded env request builder

/-- `get_files`: without a directory the 400 is sent as it is, with no look at `Connection`. -/
def getFiles : Handler := fun env request params w =>
  match params.getCstr (lit "directory"), params.getCstr (lit "param") with
  | some directory, some filename =>
    let path := directory ++ filename
    let (file, w) := w.fopenRead path
    -- Check if file exists
    if file = false then .ok (some (bareResponse env request .httpNotFound), w)
    else
      let length := (w.files path).length
      let bytes := (w.files path).read length
      let buffer := bytes ++ List.replicate (length + 1 - bytes.length) 0
      .ok (some ((fileBuilder env request buffer length).construct env), w)
  | _, _ => .ok (some ((createHttpResponseBuilder .httpBadRequest).construct env), w)

def postFiles : Handler := fun env request params w => do
  match params.getCstr (lit "directory"), params.getCstr (lit "param"),
    (request.headers.getCstr (lit "Content-Length")).bind parseLong with
  | some directory, some filename, some contentLength =>
    let path := directory ++ filename
    let (file, w) := w.fopenWrite env path
    -- Check if file exists
    if file = false then .ok (some (bareResponse env request .httpInternalServerError), w)
    else
      let buffered ← fwriteBytes request.data contentLength
      .ok (some (bareResponse env request .httpCreated), w.modify path (.flush buffered))
  | _, _, _ => .ok (some (bareResponse env request .httpBadRequest), w)

def routeFiles : Handler := fun env request params w =>
  if request.method = lit "GET" then getFiles env request params w
  else if request.method = lit "POST" then postFiles env request params w
  else .ok (none, w)

/-! ### The table -/

inductive RouteType where
  | routeExact | routeParam
  deriving DecidableEq

structure Route where
  type : RouteType
  path : Bytes
  handler : Handler

def routes : List Route :=
  [ ⟨.routeExact, lit "/", routeRoot⟩,
    ⟨.routeParam, lit "/echo/", routeEcho⟩,
    ⟨.routeExact, lit "/user-agent", routeUserAgent⟩,
    ⟨.routeParam, lit "/files/", routeFiles⟩ ]

def routeMatches (route : Route) (path : Bytes) : Bool :=
  match route.type with
  | .routeExact => path = route.path
  | .routeParam => route.path.isPrefixOf path

end HttpServer

import HttpServer.Routes

/-!
# The connection loop of `main.c`

What the child process does with the chunks that `recv` delivers.  A chunk is what one call of `recv`
put into the buffer, and the loop takes it for one request.
-/

namespace HttpServer

open Lib

abbrev HTTP_BUFFER_SIZE : ℕ := 1024

/-- One call of `log_send`: the response and the bytes given to `send`. -/
structure Reply where
  response : HttpResponse
  sent : Bytes

/-- A response sent with `http_response_size`. -/
def sendResponse (env : Env) (response : HttpResponse) : Reply :=
  { response, sent := (response.buffer env).take response.size }

/-- A response sent with the `strlen` of its buffer, which runs on into the memory after it. -/
def sendMeasured (env : Env) (response : HttpResponse) : Reply :=
  { response, sent := (response.buffer env ++ env.tail).takeWhile (· ≠ 0) }

/-- The builder of `send_bad_request_message` and `send_not_found_message`. -/
def errorBuilder (env : Env) (status : HttpStatus) (shouldClose : Bool) : HttpResponseBuilder :=
  let builder := createHttpResponseBuilder status
  if shouldClose then builder.option env .close else builder

def sendBadRequestMessage (env : Env) (shouldClose : Bool) : Reply :=
  sendMeasured env ((errorBuilder env .httpBadRequest shouldClose).construct env)

def sendNotFoundMessage (env : Env) (shouldClose : Bool) : Reply :=
  sendMeasured env ((errorBuilder env .httpNotFound shouldClose).construct env)

def routeParams (directory : Option Bytes) (route : Route) (request : HttpRequest) :
    Hashmap Bytes :=
  let params := Hashmap.create
  let params :=
    if route.type = .routeParam then
      params.set (lit "param") (request.requestTarget.drop route.path.length)
    else params
  match directory with
  | some directory => params.set (lit "directory") directory
  | none => params

/-- The scan of the routes: the first response of a route that matches, or none. -/
def scanRoutes (env : Env) (directory : Option Bytes) (request : HttpRequest) :
    List Route → World → Except Fault (Option HttpResponse × World)
  | [], w => .ok (none, w)
  | route :: rest, w =>
    if routeMatches route request.requestTarget then do
      match ← route.handler env request (routeParams directory route request) w with
      | (some response, w) => .ok (some response, w)
      | (none, w) => scanRoutes env directory request rest w
    else scanRoutes env directory request rest w

/-- The value that `should_close` takes for a request. -/
def HttpRequest.closes (request : HttpRequest) : Bool :=
  match request.headers.getCstr (lit "Connection") with
  | some connection => connection = lit "close"
  | none => false

def answer (env : Env) (directory : Option Bytes) (request : HttpRequest) (w : World) :
    Except Fault (Reply × World) := do
  match ← scanRoutes env directory request routes w with
  | (some response, w) => .ok (sendResponse env response, w)
  | (none, w) => .ok (sendNotFoundMessage env request.closes, w)

/-- One turn of the loop on the chunk in the buffer: the reply, whether the loop ends with it, and
the files after it. -/
def serveChunk (env : Env) (directory : Option Bytes) (w : World) (chunk : Bytes) :
    Except Fault (Reply × Bool × World) := do
  match ← httpRequestFromBuffer (chunk.takeWhile (· ≠ 0)) with
  | none => .ok (sendBadRequestMessage env false, true, w)
  | some request =>
    let (reply, w) ← answer env directory request w
    .ok (reply, request.closes, w)

/-- The loop of the child process over the chunks of a connection, each with the environment that its
turn finds; an empty chunk is the end of the connection. -/
def connectionLoop (directory : Option Bytes) :
    List (Env × Bytes) → World → Except Fault (List Reply × World)
  | [], w => .ok ([], w)
  | (env, chunk) :: chunks, w =>
    if chunk = [] then .ok ([], w)
    else do
      let (reply, stop, w) ← serveChunk env directory w chunk
      if stop then .ok ([reply], w)
      else
        let (replies, w) ← connectionLoop directory chunks w
        .ok (reply :: replies, w)

/-- A turn that was taken: the environment that it found, the chunk and the reply. -/
structure Turn where
  env : Env
  chunk : Bytes
  reply : Reply

/-- Turns taken one at a time, of one connection or of many, from files to files. -/
inductive Run (directory : Option Bytes) : World → List Turn → World → Prop
  | nil (w : World) : Run directory w [] w
  | cons {w w₁ w₂ : World} {env : Env} {chunk : Bytes} {reply : Reply} {stop : Bool}
      {turns : List Turn} (turn : serveChunk env directory w chunk = .ok (reply, stop, w₁))
      (rest : Run directory w₁ turns w₂) : Run directory w (⟨env, chunk, reply⟩ :: turns) w₂

end HttpServer

import HttpServer.Request

/-!
# The response builder of `response.c`

A response is put together in two stages: `http_response_builder_construct` lays out the header block
and the body and adds up `total_size`, and `http_response_to_buffer` allocates that many bytes and
stores the message with offsets of its own.  Both are modelled with the sizes they allocate and the
places they read and write, also where these disagree.

What the program takes from outside is an argument, `Env`: zlib, and the contents of memory that the
program never wrote.  The buffers that numbers are printed into hold the 20 digits of a `size_t`.
-/

namespace HttpServer

open Lib

/-- What the program takes from its environment. -/
structure Env where
  /-- `gzip_compress`: the output, or a failure. -/
  gzipCompress : Bytes → Option Bytes
  /-- The byte found at offset `i` of an allocation that is shorter. -/
  stray : ℕ → UInt8
  /-- The bytes between the end of an allocation and the next NUL. -/
  tail : Bytes
  /-- The C string found in memory that was never written. -/
  staleText : Bytes
  /-- The value of a `long` that was never assigned. -/
  staleLong : ℤ
  /-- Whether `fopen` of a path for writing succeeds. -/
  canWrite : Bytes → Bool

/-- No compression, cleared memory around every block, and paths that can be written. -/
def Env.plain : Env where
  gzipCompress := fun _ => none
  stray := fun _ => 0
  tail := []
  staleText := []
  staleLong := 0
  canWrite := fun _ => true

/-- `block[i]`, also past its end. -/
def Env.peek (env : Env) (block : Bytes) (i : ℕ) : UInt8 := block.getD i (env.stray i)

/-- The first `n` bytes at `block`, also past its end. -/
def Env.readPast (env : Env) (block : Bytes) (n : ℕ) : Bytes :=
  (List.range n).map (env.peek block)

/-- `n + d` in `size_t`. -/
def sizeAdd (n : ℕ) (d : ℤ) : ℕ := (((n : ℤ) + d) % 2 ^ 64).toNat

inductive HttpStatus where
  | httpOk | httpCreated | httpBadRequest | httpNotFound | httpInternalServerError
  deriving DecidableEq, Repr

def HttpStatus.code : HttpStatus → ℕ
  | httpOk => 200
  | httpCreated => 201
  | httpBadRequest => 400
  | httpNotFound => 404
  | httpInternalServerError => 500

/-- The reason phrase of the `switch` in `http_response_builder_construct`. -/
def HttpStatus.reasonPhrase : HttpStatus → Bytes
  | httpOk => lit "OK"
  | httpCreated => lit "Created"
  | httpBadRequest => lit "Bad Request"
  | httpNotFound => lit "Not Found"
  | httpInternalServerError => lit "Internal Server Error"

/-- `struct http_response`; `fieldLine` is the bytes of its allocation. -/
structure HttpResponse where
  httpVersion : Bytes
  status : HttpStatus
  reasonPhrase : Bytes
  fieldLine : Bytes
  fieldLineLen : ℕ
  totalSize : ℕ

def HttpResponse.size (response : HttpResponse) : ℕ := response.totalSize

/-! ### `http_response_to_buffer` -/

/-- The stores of a function into its buffer, in order, and the offset of the next one. -/
structure Stores where
  offset : ℕ
  done : List (ℕ × UInt8)

/-- A loop that stores `bs` from the offset on. -/
def Stores.put (s : Stores) (bs : Bytes) : Stores :=
  { offset := s.offset + bs.length, done := s.done ++ bs.mapIdx fun i c => (s.offset + i, c) }

/-- The buffer of `size` cleared bytes after the stores.  A store outside is not seen in it: it is taken to
fall on bytes to spare behind the block, and the module `Platform` says where it does. -/
def Stores.block (s : Stores) (size : ℕ) : Bytes :=
  s.done.foldl (fun m p => m.set p.1 p.2) (List.replicate size 0)

/-- The stores of `http_response_to_buffer`.  With headers and a body the last two are behind the
`total_size` bytes of the buffer. -/
def HttpResponse.toBuffer (env : Env) (response : HttpResponse) : Stores :=
  let buffer : Stores := ⟨0, []⟩
  let buffer := buffer.put response.httpVersion
  let buffer := buffer.put [SP]
  -- `snprintf` into the four bytes of `status_code_str`, of which three are copied
  let buffer := buffer.put ((decimal response.status.code).take 3)
  let buffer := buffer.put [SP]
  let buffer := buffer.put response.reasonPhrase
  let buffer := buffer.put CRLF
  let fieldLineLen := sizeAdd buffer.offset response.fieldLineLen
  let buffer := buffer.put (env.readPast response.fieldLine (fieldLineLen - buffer.offset))
  buffer.put CRLF

/-- The allocation that `http_response_to_buffer` returns. -/
def HttpResponse.buffer (env : Env) (response : HttpResponse) : Bytes :=
  (response.toBuffer env).block response.totalSize

/-! ### The builder -/

/-- `struct http_response_builder`; `data` is the bytes of its allocation. -/
structure HttpResponseBuilder where
  httpVersion : Bytes
  statusCode : HttpStatus
  headers : Option (Hashmap Bytes)
  data : Option Bytes
  shouldClose : Bool

/-- `create_http_response_builder`. -/
def createHttpResponseBuilder (statusCode : HttpStatus) : HttpResponseBuilder where
  httpVersion := lit "HTTP/1.1"
  statusCode := statusCode
  headers := none
  data := none
  shouldClose := false

/-- `enum HTTP_RESPONSE_OPTIONS` with the arguments of each; a negated option unsets. -/
inductive HttpResponseOption where
  | httpVersion (version : Bytes)
  | headers (headers : Hashmap Bytes)
  | noHeaders
  /-- The C string at `body` is duplicated. -/
  | body (body : Bytes)
  | noBody
  | compressionGzip
  | close

namespace HttpResponseBuilder

variable (env : Env) (builder : HttpResponseBuilder)

/-- The case `COMPRESSION_GZIP`: `realloc` to no bytes frees the data. -/
def compressionGzip : HttpResponseBuilder :=
  match builder.data, builder.headers with
  | some data, some headers =>
    match headers.get (lit "Content-Length") with
    | none => builder
    | some contentLengthStr =>
      let contentLength := (parseLong contentLengthStr).getD 0
      match env.gzipCompress (env.readPast data (sizeAdd 0 contentLength)) with
      | none => builder
      | some output =>
        let headers := (headers.delete (lit "Content-Length")).2
        let headers := headers.set (lit "Content-Length") (decimal output.length)
        let headers := headers.set (lit "Content-Encoding") (lit "gzip")
        { builder with
          headers := some headers
          data := if output = [] then none else some output }
  | _, _ => builder

/-- `http_response_builder_option`. -/
def option : HttpResponseOption → HttpResponseBuilder
  | .httpVersion version => { builder with httpVersion := version }
  | .headers headers =>
    { builder with
      headers := some
        (if builder.shouldClose then headers.set (lit "Connection") (lit "close") else headers) }
  | .noHeaders => { builder with headers := none }
  | .body body => { builder with data := some (body.takeWhile (· ≠ 0) ++ [0]) }
  | .noBody => { builder with data := none }
  | .compressionGzip => builder.compressionGzip env
  | .close =>
    { builder with
      shouldClose := true
      headers := builder.headers.map (·.set (lit "Connection") (lit "close")) }

/-- `http_response_builder_plain_message`. -/
def plainMessage (message : Bytes) : HttpResponseBuilder :=
  let headers := Hashmap.create
  let headers := headers.set (lit "Content-Type") (lit "text/plain")
  let headers := headers.set (lit "Content-Length") (decimal message.length)
  let builder := builder.option env (.headers headers)
  builder.option env (.body message)

end HttpResponseBuilder

/-! ### `http_response_builder_construct` -/

/-- A `char *` buffer: the size of its allocation and the C string in it. -/
structure StrBuf where
  size : ℕ
  text : Bytes

/-- `realloc` of a string buffer that may be NULL. -/
def reallocStr (env : Env) (buffer : Option StrBuf) (size : ℕ) : StrBuf :=
  { size := size, text := (buffer.map (·.text)).getD env.staleText }

/-- `traverse_hashmap`, the callback of the traversal: its state is `*buffer` and `*current_size`. -/
def traverseHashmap (env : Env) (node : HashmapNode Bytes) (s : Option StrBuf × ℕ) :
    ℤ × (Option StrBuf × ℕ) :=
  let (buffer, currentSize) := s
  let totalSize := currentSize + node.key.length + 2 + node.data.length + 2
  let buffer := reallocStr env buffer (totalSize + 1)
  let buffer := if currentSize = 0 then { buffer with text := [] } else buffer
  let newBuffer := node.key ++ lit ": " ++ node.data ++ CRLF
  let buffer := { buffer with text := buffer.text ++ newBuffer.take totalSize }
  (0, (some buffer, totalSize))

/-- The header block of `construct` and `map_to_buffer_size`.  The block has no room for the NUL of its
text, which is taken to fall on a byte to spare behind it (`HttpResponseBuilder.accesses`). -/
def headerBlock (env : Env) (headers : Hashmap Bytes) : StrBuf × ℕ :=
  let (_, buffer, mapToBufferSize) := headers.traverse (traverseHashmap env) (none, 0)
  -- Add empty line
  let mapToBufferSize := mapToBufferSize + 2
  let buffer := reallocStr env buffer mapToBufferSize
  ({ buffer with text := buffer.text ++ CRLF.take mapToBufferSize }, mapToBufferSize)

namespace HttpResponseBuilder

variable (env : Env) (builder : HttpResponseBuilder)

/-- The headers that `construct` lays out: a closing builder without headers is given a map. -/
def finalHeaders : Option (Hashmap Bytes) :=
  match builder.headers with
  | some headers => some headers
  | none =>
    if builder.shouldClose then some (Hashmap.create.set (lit "Connection") (lit "close")) else none

/-- The end of `construct`: the `content_length` bytes of the body after the header block, and the
byte that follows them in `data`. -/
def appendBody (response : HttpResponse) (contentLength : ℤ) (data : Bytes) : HttpResponse :=
  let currentLen := (response.fieldLine.takeWhile (· ≠ 0)).length
  let newLen := sizeAdd currentLen (contentLength + 1)
  { response with
    totalSize := sizeAdd response.totalSize contentLength
    fieldLineLen := sizeAdd response.fieldLineLen contentLength
    fieldLine :=
      (response.fieldLine.take currentLen).take newLen ++ env.readPast data (newLen - currentLen) }

/-- `http_response_builder_construct`. -/
def construct : HttpResponse :=
  let statusLine := builder.httpVersion.length + 1 + 4 + builder.statusCode.reasonPhrase.length + 2
  let response : HttpResponse :=
    { httpVersion := builder.httpVersion
      status := builder.statusCode
      reasonPhrase := builder.statusCode.reasonPhrase
      fieldLine := []
      fieldLineLen := 0
      totalSize := statusLine }
  match builder.finalHeaders with
  | none => { response with totalSize := response.totalSize + 2 }
  | some headers =>
    let (buffer, mapToBufferSize) := headerBlock env headers
    let response :=
      { response with
        totalSize := response.totalSize + mapToBufferSize
        fieldLineLen := mapToBufferSize
        fieldLine := buffer.text ++ [0] }
    match builder.data with
    | none => { response with totalSize := response.totalSize + 2 }
    | some data =>
      match headers.getCstr (lit "Content-Length") with
      | none => response
      | some contentLengthStr =>
        appendBody env response ((parseLong contentLengthStr).getD env.staleLong) data

end HttpResponseBuilder

end HttpServer

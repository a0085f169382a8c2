import HttpServer.Lib.CMemory
import HttpServer.Lib.Decimal
import HttpServer.Hashmap

/-!
# The request parser of `request.c`

The parser works on one allocation, the copy `tmp` of the buffer, through offsets into it; every
read is checked (`Lib.CMemory`).  A `char *` that is only ever used as a C string is the list of its
bytes before the NUL.  Lengths are naturals: the buffers of the program hold 1024 bytes.
-/

namespace HttpServer

open Lib

/-- `parse_long`: the value stored in `*out` when it returns 0, `none` when it returns -1. -/
def parseLong (str : Bytes) : Option ℤ :=
  if str = [] then none
  else
    let (value, rest, erange) := strtol0 str
    if rest ≠ [] then none
    else if erange then none
    else some value

theorem parseLong_decimal {n : ℕ} (h : n < 2 ^ 63) : parseLong (decimal n) = some (n : ℤ) := by
  simp [parseLong, decimal_ne_nil, strtol0_decimal h]

theorem parseLong_decimal_of_le {n : ℕ} (h : 2 ^ 63 ≤ n) : parseLong (decimal n) = none := by
  have hmax : (n : ℤ) > LONG_MAX := by
    simp only [LONG_MAX]
    omega
  simp only [parseLong, decimal_ne_nil, strtol0_decimal_eq, if_pos hmax]
  rfl

/-- `a - b` in `size_t`. -/
def sizeSub (a b : ℕ) : ℕ := if b ≤ a then a - b else 2 ^ 64 + a - b

/-- The loop of `parse_headers` over the allocation `m`: the count, the map and `current`. -/
def parseHeadersLoop (m : Bytes) : ℕ → ℕ → Hashmap Bytes → ℕ → Except Fault (ℕ × Hashmap Bytes × ℕ)
  | 0, _, _, _ => .error .diverged
  | fuel + 1, count, headers, current => do
    if (← deref m current) = 0 then .ok (count, headers, current)
    else
      match ← strstr m current CRLF with
      | none => .ok (count, headers, current)
      | some lineEnd =>
        let lineLen := sizeSub lineEnd current
        -- empty line
        if lineLen = 0 then .ok (count, headers, current)
        else
          match ← memchr m current COLON lineLen with
          | none => parseHeadersLoop m fuel count headers (lineEnd + 2)
          | some colon =>
            let keyLen := sizeSub colon current
            let valueStart := colon + 1 + (← skipSpaces (m.drop (colon + 1)))
            let valueLen := sizeSub lineEnd valueStart
            let key ← snprintfStr 256 m current keyLen
            let value ← snprintfStr 256 m valueStart valueLen
            parseHeadersLoop m fuel (count + 1) (headers.set key value) (lineEnd + 2)

/-- `parse_headers`: the count it returns, the map it fills and `*end_ptr`. -/
def parseHeaders (m : Bytes) (buffer : ℕ) (headers : Hashmap Bytes) :
    Except Fault (ℕ × Hashmap Bytes × ℕ) :=
  parseHeadersLoop m m.length 0 headers buffer

/-- `struct http_request`; `data` is the allocation of `content_length + 1` bytes. -/
structure HttpRequest where
  method : Bytes
  requestTarget : Bytes
  httpVersion : Bytes
  headers : Hashmap Bytes
  data : Option Bytes

/-- `calloc(content_length + 1, 1)`, an addition in `long`: the size of the allocation. -/
def callocLong (contentLength : ℤ) : Except Fault ℕ :=
  if contentLength + 1 > LONG_MAX ∨ contentLength + 1 ≤ 0 then .error .badAlloc
  else .ok (contentLength + 1).toNat

/-- The lines of `http_request_from_buffer` that fill `request->data`. -/
def copyData (tmp : Bytes) (body : ℕ) (contentLength : ℤ) : Except Fault Bytes := do
  let size ← callocLong contentLength
  let (tmp, src, _) ← strtok tmp (body + 2) (lit "")
  let copied ← memcpyFrom tmp src contentLength.toNat
  .ok (copied ++ List.replicate (size - copied.length) 0)

/-- `http_request_from_buffer` on the C string `buffer`; `none` is NULL. -/
def httpRequestFromBuffer (buffer : Bytes) : Except Fault (Option HttpRequest) := do
  let tmp := buffer ++ [0]
  let (tmp, method, saved) ← strtok tmp 0 (lit " ")
  let (tmp, requestTarget, saved) ← strtok tmp saved (lit " ")
  let (tmp, httpVersion, saved) ← strtok tmp saved (lit "\n")
  match method, requestTarget, httpVersion with
  | some method, some requestTarget, some httpVersion =>
    let request : HttpRequest :=
      { method := ← readStr (tmp.drop method)
        requestTarget := ← readStr (tmp.drop requestTarget)
        httpVersion := ← readStr (tmp.drop httpVersion)
        headers := Hashmap.create
        data := none }
    let (tmp, headersToParse, _) ← strtok tmp saved (lit "")
    match headersToParse with
    | none => .ok (some request)
    | some headersToParse =>
      let (_, headers, body) ← parseHeaders tmp headersToParse request.headers
      match (headers.getCstr (lit "Content-Length")).bind parseLong with
      | none => .ok (some { request with headers })
      | some contentLength =>
        let data ← copyData tmp body contentLength
        .ok (some { request with headers, data := some data })
  | _, _, _ => .ok none

end HttpServer

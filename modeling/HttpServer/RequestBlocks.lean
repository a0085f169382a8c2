import HttpServer.RequestSem
import HttpServer.Blocks

/-!
# The blocks of a request

`http_request_from_buffer` and `http_request_destroy` with their blocks.  The parser leaves the C
string of a declared length (`exchanges_httpRequestFromBuffer`), and everything that it allocated when
it refuses the text.
-/

namespace HttpServer

open Lib

namespace Blocks

structure RequestPtr where
  self : ℕ
  method : CString
  requestTarget : CString
  httpVersion : CString
  headers : HashmapPtr
  data : Option CString

def RequestPtr.value (request : RequestPtr) : HttpRequest where
  method := request.method.text
  requestTarget := request.requestTarget.text
  httpVersion := request.httpVersion.text
  headers := request.headers.value
  data := request.data.map (·.text)

def RequestPtr.blocks (request : RequestPtr) : Multiset ℕ :=
  {request.self} + request.method.blocks + request.requestTarget.blocks + request.httpVersion.blocks +
    request.headers.blocks + blocksOf CString.blocks request.data

/-- `Hashmap_get_cstr(request->headers, name)`. -/
def RequestPtr.header (request : RequestPtr) (name : Bytes) : M (Option BString) := do
  touch {request.self}
  request.headers.getCstr name

/-- The loop of `parse_headers` over the allocation `tmp`, which holds `m`. -/
def parseHeadersLoop (tmp : ℕ) (m : Bytes) : ℕ → ℕ → HashmapPtr → ℕ → M (ℕ × HashmapPtr × ℕ)
  | 0, _, _, _ => raise (.error .diverged)
  | fuel + 1, count, headers, current => do
    touch {tmp}
    if (← raise (deref m current)) = 0 then pure (count, headers, current)
    else
      match ← raise (strstr m current CRLF) with
      | none => pure (count, headers, current)
      | some lineEnd =>
        let lineLen := sizeSub lineEnd current
        -- empty line
        if lineLen = 0 then pure (count, headers, current)
        else
          match ← raise (memchr m current COLON lineLen) with
          | none => parseHeadersLoop tmp m fuel count headers (lineEnd + 2)
          | some colon =>
            let keyLen := sizeSub colon current
            let valueStart := colon + 1 + (← raise (skipSpaces (m.drop (colon + 1))))
            let valueLen := sizeSub lineEnd valueStart
            let key ← raise (snprintfStr 256 m current keyLen)
            let value ← raise (snprintfStr 256 m valueStart valueLen)
            let headers ← headers.setField key value
            parseHeadersLoop tmp m fuel (count + 1) headers (lineEnd + 2)

def parseHeaders (tmp : ℕ) (m : Bytes) (buffer : ℕ) (headers : HashmapPtr) :
    M (ℕ × HashmapPtr × ℕ) :=
  parseHeadersLoop tmp m m.length 0 headers buffer

/-- The part of `http_request_from_buffer` behind the request line. -/
def readHeaders (tmp : ℕ) (m : Bytes) (saved : ℕ) (request : RequestPtr) : M (Option RequestPtr) := do
  touch {tmp}
  let (m, headersToParse, _) ← raise (strtok m saved (lit ""))
  match headersToParse with
  | none => do
    free tmp
    pure (some request)
  | some headersToParse => do
    let (_, headers, body) ← parseHeaders tmp m headersToParse request.headers
    let contentLengthStr ← bstr2cstr (← headers.getCstr (lit "Content-Length"))
    match contentLengthStr.bind (parseLong ·.text) with
    | none => do
      free tmp
      pure (some { request with headers })
    | some contentLength => do
      touch {tmp}
      let data ← strdup (← raise (copyData m body contentLength))
      free tmp
      pure (some { request with headers, data := some data })

def httpRequestFromBuffer (buffer : Bytes) : M (Option RequestPtr) := do
  let tmp ← alloc
  let m := buffer ++ [0]
  let self ← alloc
  let (m, method, saved) ← raise (strtok m 0 (lit " "))
  let (m, requestTarget, saved) ← raise (strtok m saved (lit " "))
  let (m, httpVersion, saved) ← raise (strtok m saved (lit "\n"))
  match method, requestTarget, httpVersion with
  | some method, some requestTarget, some httpVersion => do
    let method ← strdup (← raise (readStr (m.drop method)))
    let requestTarget ← strdup (← raise (readStr (m.drop requestTarget)))
    let httpVersion ← strdup (← raise (readStr (m.drop httpVersion)))
    let headers ← HashmapPtr.create
    readHeaders tmp m saved { self, method, requestTarget, httpVersion, headers, data := none }
  | _, _, _ => pure none

def RequestPtr.destroy (request : RequestPtr) : M Unit := do
  touch {request.self}
  free request.method.block
  free request.requestTarget.block
  free request.httpVersion.block
  request.headers.destroy
  freePtr request.data
  free request.self

section Specs

variable {tmp saved fuel count current : ℕ} {m buffer : Bytes} {headers : HashmapPtr}
  {request : RequestPtr}

theorem exchanges_parseHeadersLoop {r : ℕ × Hashmap Bytes × ℕ}
    (h : HttpServer.parseHeadersLoop m fuel count headers.value current = .ok r) :
    Exchanges (headers.blocks + {tmp}) (parseHeadersLoop tmp m fuel count headers current)
      (fun q => (q.1, q.2.1.value, q.2.2) = r) (fun q => q.2.1.blocks + {tmp}) 0 := by
  induction fuel generalizing count headers current with
  | zero => cases h
  | succ fuel ih =>
    unfold HttpServer.parseHeadersLoop at h
    unfold parseHeadersLoop
    refine (exchanges_touch_all {tmp}).step headers.blocks (add_comm _ _) fun _ _ => ?_
    rw [add_comm]
    refine exchanges_raise_bind h fun c _ h => ?_
    by_cases hc : c = 0
    · rw [if_pos hc] at h ⊢
      cases h
      exact .ret rfl rfl
    rw [if_neg hc] at h ⊢
    refine exchanges_raise_bind h fun lineEnd _ h => ?_
    cases lineEnd with
    | none =>
      cases h
      exact .ret rfl rfl
    | some lineEnd =>
      by_cases hempty : sizeSub lineEnd current = 0
      · simp only [hempty, if_true] at h ⊢
        cases h
        exact .ret rfl rfl
      simp only [hempty, if_false] at h ⊢
      refine exchanges_raise_bind h fun colon _ h => ?_
      cases colon with
      | none => exact ih h
      | some colon =>
        refine exchanges_raise_bind h fun spaces _ h => ?_
        refine exchanges_raise_bind h fun key _ h => ?_
        refine exchanges_raise_bind h fun value _ h => ?_
        refine (headers.exchanges_setField key value).step {tmp} rfl fun headers' hset => ?_
        rw [← hset] at h
        exact ih h

/-- The blocks that nobody has after `http_request_from_buffer`: the copy of the text and the request
when the text is refused, and the C string of a declared length. -/
def parseLeft : Option HttpRequest → ℕ
  | none => 2
  | some request => if (request.headers.getCstr (lit "Content-Length")).isSome then 1 else 0

theorem exchanges_readHeaders {r : Option HttpRequest} (hheaders : request.headers.value = Hashmap.create)
    (hdata : request.data = none) (h : HttpServer.readHeaders m saved request.value = .ok r) :
    Exchanges (request.blocks + {tmp}) (readHeaders tmp m saved request)
      (fun p => p.map RequestPtr.value = r) (blocksOf RequestPtr.blocks) (parseLeft r) := by
  unfold HttpServer.readHeaders at h
  unfold readHeaders
  refine (exchanges_touch_all {tmp}).step request.blocks (add_comm _ _) fun _ _ => ?_
  refine exchanges_raise_bind h fun found _ h => ?_
  obtain ⟨m, headersToParse, saved⟩ := found
  cases headersToParse with
  | none =>
    cases h
    have hleft : parseLeft (some request.value) = 0 := by
      rw [parseLeft, RequestPtr.value, hheaders, Hashmap.getCstr, Hashmap.get_create (by decide)]
      rfl
    rw [hleft]
    refine (exchanges_free tmp).step request.blocks rfl fun _ _ => ?_
    exact .ret rfl (zero_add _)
  | some headersToParse =>
    -- the request without its map
    set rest := {request.self} + request.method.blocks + request.requestTarget.blocks +
      request.httpVersion.blocks with hrest
    have hblocks : {tmp} + request.blocks = request.headers.blocks + {tmp} + rest := by
      rw [RequestPtr.blocks, hdata, hrest]
      simp only [blocksOf, Option.elim_none]
      abel
    rw [hblocks]
    obtain ⟨parsed, hparse, h⟩ := bind_eq_ok.1 h
    refine (exchanges_parseHeadersLoop hparse).step rest rfl ?_
    rintro ⟨count, headers, body⟩ rfl
    refine (headers.exchanges_getCstr (lit "Content-Length")).step ({tmp} + rest) ?_
      fun found hfound => ?_
    · abel
    refine (exchanges_bstr2cstr headers.blocks
      (HashmapPtr.mem_blocks_of_found (by decide) hfound)).step ({tmp} + rest) rfl
      fun contentLengthStr htext => ?_
    rw [hfound, headers.text_found] at htext
    have hdeclared : (headers.value.getCstr (lit "Content-Length")).bind parseLong =
        contentLengthStr.bind (parseLong ·.text) := by
      rw [← htext, Option.bind_map]
      rfl
    have hcard : (if (headers.value.getCstr (lit "Content-Length")).isSome then 1 else 0) =
        (blocksOf CString.blocks contentLengthStr).card + 0 := by
      rw [← htext, Option.isSome_map]
      cases contentLengthStr <;> rfl
    simp only [hdeclared] at h
    cases hlength : contentLengthStr.bind (parseLong ·.text) with
    | none =>
      simp only [hlength] at h ⊢
      cases h
      refine Exchanges.forget (blocksOf CString.blocks contentLengthStr) ?_ hcard
        ((exchanges_free tmp).step (headers.blocks + rest) rfl fun _ _ => .ret rfl ?_)
      · abel
      · rw [zero_add, blocksOf, Option.elim_some, RequestPtr.blocks, hdata, hrest]
        simp only [blocksOf, Option.elim_none]
        abel
    | some contentLength =>
      simp only [hlength] at h ⊢
      obtain ⟨bytes, hcopy, h⟩ := bind_eq_ok.1 h
      cases h
      refine Exchanges.forget (blocksOf CString.blocks contentLengthStr)
        (?_ : _ = {tmp} + (headers.blocks + rest) + _) hcard ?_
      · abel
      refine (exchanges_touch_all {tmp}).step (headers.blocks + rest) rfl fun _ _ => ?_
      refine exchanges_raise_bind (g := Except.ok) (bind_eq_ok.2 ⟨bytes, hcopy, rfl⟩) ?_
      rintro _ - ⟨⟩
      refine (exchanges_strdup bytes).step _ (zero_add _).symm fun data hbytes => ?_
      refine (exchanges_free tmp).step (data.blocks + (headers.blocks + rest)) ?_ fun _ _ => .ret ?_ ?_
      · abel
      · rw [← hbytes]
        rfl
      · rw [zero_add, blocksOf, Option.elim_some, RequestPtr.blocks, hrest]
        simp only [blocksOf, Option.elim_some]
        abel

/-- **The parser** makes the request of the model without blocks, and leaves at most two blocks. -/
theorem exchanges_httpRequestFromBuffer {r : Option HttpRequest}
    (h : HttpServer.httpRequestFromBuffer buffer = .ok r) :
    Exchanges 0 (httpRequestFromBuffer buffer) (fun p => p.map RequestPtr.value = r)
      (blocksOf RequestPtr.blocks) (parseLeft r) := by
  unfold HttpServer.httpRequestFromBuffer at h
  refine exchanges_alloc.step 0 rfl fun tmp _ => ?_
  refine exchanges_alloc.step {tmp} (by simp) fun self _ => ?_
  refine exchanges_raise_bind h ?_
  rintro ⟨m, method, saved⟩ - h
  refine exchanges_raise_bind h ?_
  rintro ⟨m, requestTarget, saved⟩ - h
  refine exchanges_raise_bind h ?_
  rintro ⟨m, httpVersion, saved⟩ - h
  have hrefused : ∀ r, (.ok none : Except Fault (Option HttpRequest)) = .ok r →
      Exchanges ({self} + {tmp}) (pure none : M (Option RequestPtr))
        (fun p => p.map RequestPtr.value = r) (blocksOf RequestPtr.blocks) (parseLeft r) := by
    rintro r ⟨⟩
    exact Exchanges.forget (n := 0) ({self} + {tmp}) (zero_add _).symm rfl (.ret rfl rfl)
  rcases method with _ | method
  · exact hrefused r h
  rcases requestTarget with _ | requestTarget
  · exact hrefused r h
  rcases httpVersion with _ | httpVersion
  · exact hrefused r h
  refine exchanges_raise_bind h fun methodText _ h => ?_
  refine (exchanges_strdup methodText).step _ (zero_add _).symm fun method hmethod => ?_
  refine exchanges_raise_bind h fun targetText _ h => ?_
  refine (exchanges_strdup targetText).step _ (zero_add _).symm fun target htarget => ?_
  refine exchanges_raise_bind h fun versionText _ h => ?_
  refine (exchanges_strdup versionText).step _ (zero_add _).symm fun version hversion => ?_
  refine HashmapPtr.exchanges_create.step _ (zero_add _).symm fun headers hheaders => ?_
  have hread : Exchanges _ (readHeaders tmp m saved ⟨self, method, target, version, headers, none⟩)
      _ _ (parseLeft r) := exchanges_readHeaders hheaders rfl
    (by rw [RequestPtr.value, hmethod, htarget, hversion, hheaders]; exact h)
  refine hread.imp (fun _ => id) (fun _ _ => rfl) ?_
  rw [RequestPtr.blocks, blocksOf, Option.elim_none]
  abel

/-- **`http_request_destroy`** leaves two blocks of every field. -/
theorem RequestPtr.exchanges_destroy (request : RequestPtr) : Exchanges request.blocks request.destroy
    (fun _ => True) (fun _ => 0) (2 * request.value.headers.entries.length) := by
  obtain ⟨self, ⟨method, _⟩, ⟨target, _⟩, ⟨version, _⟩, headers, data⟩ := request
  simp only [RequestPtr.blocks, CString.blocks]
  refine (exchanges_touch_all {self}).step
    ({method} + {target} + {version} + headers.blocks + blocksOf CString.blocks data) ?_ fun _ _ => ?_
  · abel
  refine (exchanges_free method).step
    ({self} + {target} + {version} + headers.blocks + blocksOf CString.blocks data) ?_ fun _ _ => ?_
  · abel
  refine (exchanges_free target).step
    ({self} + {version} + headers.blocks + blocksOf CString.blocks data) ?_ fun _ _ => ?_
  · abel
  refine (exchanges_free version).step
    ({self} + headers.blocks + blocksOf CString.blocks data) ?_ fun _ _ => ?_
  · abel
  refine headers.exchanges_destroy.stepLosing (m := 0) ({self} + blocksOf CString.blocks data) ?_
    (add_zero _).symm fun _ _ => ?_
  · abel
  refine (exchanges_freePtr data).step {self} ?_ fun _ _ => ?_
  · abel
  rw [zero_add]
  exact exchanges_free self

theorem RequestPtr.exchanges_header (request : RequestPtr) {name : Bytes} (hname : NulFree name) :
    Exchanges request.blocks (request.header name)
      (fun r => r.map (·.text) = request.value.headers.getCstr name ∧
        ∀ b, r = some b → ∀ x ∈ b.blocks, x ∈ request.blocks)
      (fun _ => request.blocks) 0 := by
  set rest := {request.self} + request.method.blocks + request.requestTarget.blocks +
    request.httpVersion.blocks + blocksOf CString.blocks request.data with hrest
  have hblocks : request.blocks = request.headers.blocks + rest := by
    rw [RequestPtr.blocks, hrest]
    abel
  refine (exchanges_touch fun x hx => ?_).step 0 (add_zero _).symm fun _ _ => ?_
  · rw [Multiset.mem_singleton.1 hx, RequestPtr.blocks]
    simp
  refine ((request.headers.exchanges_getCstr name).frame rest).imp (fun r hr => ⟨?_, ?_⟩)
    (fun _ _ => hblocks.symm) ((add_zero _).trans hblocks)
  · rw [hr]
    exact request.headers.text_found name
  · intro b hb x hx
    rw [hblocks]
    exact Multiset.mem_add.2 (Or.inl (HashmapPtr.mem_blocks_of_found hname hr b hb x hx))

end Specs

end Blocks

end HttpServer

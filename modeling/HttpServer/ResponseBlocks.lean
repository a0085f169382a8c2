import HttpServer.ResponseSem
import HttpServer.Blocks

/-!
# The blocks of a response

The builder and the response of `response.c` with their blocks.  `http_response_builder_construct`
leaves the text that it assembles the header block in (`exchanges_construct`), and the case
`COMPRESSION_GZIP` leaves the strings that it replaces, or its key (`exchanges_compressionGzip`).
-/

namespace HttpServer

open Lib

namespace Blocks

/-! ### Responses -/

structure ResponsePtr where
  self : ℕ
  httpVersion : ℕ
  reasonPhrase : ℕ
  fieldLine : Option ℕ
  value : HttpResponse

def ptrBlocks (p : Option ℕ) : Multiset ℕ := blocksOf (fun b => {b}) p

namespace ResponsePtr

def blocks (response : ResponsePtr) : Multiset ℕ :=
  {response.self} + {response.httpVersion} + {response.reasonPhrase} + ptrBlocks response.fieldLine

def toBuffer (env : Env) (response : ResponsePtr) : M CString := do
  touch response.blocks
  let buffer ← strdup (response.value.buffer env)
  let statusCodeStr ← strdup (decimal response.value.status.code)
  free statusCodeStr.block
  pure buffer

def destroy (response : ResponsePtr) : M Unit := do
  touch {response.self}
  free response.reasonPhrase
  response.fieldLine.forM free
  free response.httpVersion
  free response.self

theorem exchanges_toBuffer (env : Env) (response : ResponsePtr) :
    Exchanges response.blocks (response.toBuffer env) (fun s => s.text = response.value.buffer env)
      (fun s => s.blocks + response.blocks) 0 := by
  refine (exchanges_touch_all _).step 0 (add_zero _).symm fun _ _ => ?_
  refine (exchanges_strdup (response.value.buffer env)).step response.blocks (by simp)
    fun buffer hbuffer => ?_
  refine (exchanges_strdup _).step _ (zero_add _).symm fun statusCodeStr _ => ?_
  refine (exchanges_free statusCodeStr.block).step _ rfl fun _ _ => ?_
  exact .ret hbuffer (zero_add _)

theorem exchanges_freeBare (p : Option ℕ) :
    Exchanges (ptrBlocks p) (p.forM free : M Unit) (fun _ => True) (fun _ => 0) 0 := by
  cases p with
  | none => exact .ret trivial rfl
  | some b => exact exchanges_free b

/-- **`http_response_destroy`** leaves nothing. -/
theorem exchanges_destroy (response : ResponsePtr) :
    Exchanges response.blocks response.destroy (fun _ => True) (fun _ => 0) 0 := by
  obtain ⟨self, httpVersion, reasonPhrase, fieldLine, value⟩ := response
  simp only [blocks]
  refine (exchanges_touch_all {self}).step ({httpVersion} + {reasonPhrase} + ptrBlocks fieldLine) ?_
    fun _ _ => ?_
  · abel
  refine (exchanges_free reasonPhrase).step ({self} + {httpVersion} + ptrBlocks fieldLine) ?_
    fun _ _ => ?_
  · abel
  refine (exchanges_freeBare fieldLine).step ({self} + {httpVersion}) ?_ fun _ _ => ?_
  · abel
  refine (exchanges_free httpVersion).step {self} ?_ fun _ _ => ?_
  · abel
  rw [zero_add]
  exact exchanges_free self

end ResponsePtr

/-! ### Builders -/

structure BuilderPtr where
  self : ℕ
  httpVersion : CString
  statusCode : HttpStatus
  headers : Option HashmapPtr
  data : Option CString
  shouldClose : Bool

namespace BuilderPtr

variable (env : Env) (builder : BuilderPtr)

def value : HttpResponseBuilder where
  httpVersion := builder.httpVersion.text
  statusCode := builder.statusCode
  headers := builder.headers.map (·.value)
  data := builder.data.map (·.text)
  shouldClose := builder.shouldClose

def blocks : Multiset ℕ :=
  {builder.self} + builder.httpVersion.blocks + blocksOf HashmapPtr.blocks builder.headers +
    blocksOf CString.blocks builder.data

def create (statusCode : HttpStatus) : M BuilderPtr := do
  let self ← alloc
  let httpVersion ← strdup (lit "HTTP/1.1")
  pure { self, httpVersion, statusCode, headers := none, data := none, shouldClose := false }

def destroy : M Unit := do
  touch {builder.self}
  free builder.httpVersion.block
  builder.headers.forM HashmapPtr.destroy
  freePtr builder.data
  free builder.self

/-- The line that a closing builder adds to a map. -/
def addClose (called : Bool) (m : HashmapPtr) : M HashmapPtr :=
  if called then m.setField (lit "Connection") (lit "close") else pure m

def setHeaders (m : HashmapPtr) : M BuilderPtr := do
  touch {builder.self}
  let m ← addClose builder.shouldClose m
  pure { builder with headers := some m }

def setBody (body : Bytes) : M BuilderPtr := do
  touch {builder.self}
  let data ← strdup (body.takeWhile (· ≠ 0) ++ [0])
  pure { builder with data := some data }

def close : M BuilderPtr := do
  touch {builder.self}
  match builder.headers with
  | none => pure { builder with shouldClose := true }
  | some m => do
    let m ← m.setField (lit "Connection") (lit "close")
    pure { builder with shouldClose := true, headers := some m }

/-- `gzip_compress`: its output, or NULL when it failed and has freed it. -/
def gzipCompress (input : Bytes) : M (Option CString) := do
  let output ← alloc
  match env.gzipCompress input with
  | none => do
    free output
    pure none
  | some bytes => pure (some ⟨output, bytes⟩)

/-- `realloc` of the data to the size of the output, which frees it when that is empty. -/
def reallocData (data : CString) (output : Bytes) : M (Option CString) :=
  if output = [] then do
    free data.block
    pure none
  else do
    let block ← realloc data.block
    pure (some ⟨block, output⟩)

/-- The end of the case `COMPRESSION_GZIP`, with what `gzip_compress` put out. -/
def replaceData (headers : HashmapPtr) (key : BString) (data output : CString) : M BuilderPtr := do
  let outputLenStr ← strdup (decimal output.text.length)
  let deleted ← headers.delete key
  let outputLen ← bfromcstr outputLenStr.text
  let headers ← deleted.2.set key outputLen
  let headers ← headers.setField (lit "Content-Encoding") (lit "gzip")
  let data ← reallocData data output.text
  free output.block
  free outputLenStr.block
  pure { builder with headers := some headers, data }

def compressionGzip : M BuilderPtr := do
  touch {builder.self}
  match builder.data, builder.headers with
  | some data, some headers => do
    let key ← bfromcstr (lit "Content-Length")
    match ← headers.get key with
    | none => pure builder
    | some contentLengthStr => do
      touch (contentLengthStr.blocks + data.blocks)
      let contentLength := (parseLong contentLengthStr.text).getD 0
      match ← gzipCompress env (env.readPast data.text (sizeAdd 0 contentLength)) with
      | none => pure builder
      | some output => builder.replaceData headers key data output
  | _, _ => pure builder

/-- `http_response_builder_plain_message`; the message is a string of the caller. -/
def plainMessage (message : BString) : M BuilderPtr := do
  let headers ← HashmapPtr.create
  let headers ← headers.setField (lit "Content-Type") (lit "text/plain")
  touch message.blocks
  let contentLength ← strdup (decimal message.text.length)
  let headers ← headers.setField (lit "Content-Length") contentLength.text
  free contentLength.block
  let builder ← builder.setHeaders headers
  touch message.blocks
  builder.setBody message.text

/-! `http_response_builder_construct`. -/

/-- The calls of `traverse_hashmap` on `*buffer`. -/
def traverseSlots : List Slot → Option ℕ → M (Option ℕ)
  | [], buffer => pure buffer
  | p :: slots, buffer => do
    touch p.blocks
    let buffer ← buffer.elim alloc realloc
    let newBuffer ← alloc
    touch ({buffer} + {newBuffer})
    free newBuffer
    traverseSlots slots (some buffer)

def giveHeaders : M BuilderPtr :=
  match builder.headers with
  | some _ => pure builder
  | none =>
    if builder.shouldClose then do
      let m ← HashmapPtr.create
      let m ← m.setField (lit "Connection") (lit "close")
      pure { builder with headers := some m }
    else pure builder

/-- The field line of the response: the header block is duplicated, and makes room for the body. -/
def layOut : M (Option ℕ) :=
  match builder.headers with
  | none => pure none
  | some headers => do
    let buffer ← traverseSlots (headers.map.nodes.map (·.data)) none
    let buffer ← buffer.elim alloc realloc
    touch {buffer}
    let fieldLine ← alloc
    match builder.data with
    | none => pure (some fieldLine)
    | some data => do
      match ← headers.getCstr (lit "Content-Length") with
      | none => pure (some fieldLine)
      | some contentLengthStr => do
        touch (contentLengthStr.blocks + data.blocks)
        if (builder.value.construct env).fieldLine = [] then do
          free fieldLine
          pure none
        else do
          let fieldLine ← realloc fieldLine
          pure (some fieldLine)

def construct : M (ResponsePtr × BuilderPtr) := do
  touch {builder.self}
  let self ← alloc
  touch builder.httpVersion.blocks
  let httpVersion ← alloc
  let reasonPhrase ← alloc
  let final ← builder.giveHeaders
  let fieldLine ← final.layOut env
  pure ({ self, httpVersion, reasonPhrase, fieldLine, value := builder.value.construct env }, final)

/-- The end of every handler. -/
def respond : M ResponsePtr := do
  let built ← builder.construct env
  built.2.destroy
  pure built.1

section Specs

variable {env : Env} {builder : BuilderPtr} {m : HashmapPtr} {lent : Multiset ℕ}

theorem exchanges_create (statusCode : HttpStatus) : Exchanges 0 (create statusCode)
    (fun builder => builder.value = createHttpResponseBuilder statusCode ∧ builder.headers = none ∧
      builder.data = none) blocks 0 := by
  refine exchanges_alloc.step 0 rfl fun self _ => ?_
  refine (exchanges_strdup (lit "HTTP/1.1")).step {self} (by simp) fun httpVersion h => ?_
  refine .ret ⟨?_, rfl, rfl⟩ ?_
  · rw [value, h]
    rfl
  · simp only [blocks, blocksOf, Option.elim_none]
    abel

def headersLeft (headers : Option (Hashmap Bytes)) : ℕ := headers.elim 0 fun m => 2 * m.entries.length

theorem exchanges_destroyHeaders (headers : Option HashmapPtr) :
    Exchanges (blocksOf HashmapPtr.blocks headers) (headers.forM HashmapPtr.destroy) (fun _ => True)
      (fun _ => 0) (headersLeft (headers.map (·.value))) := by
  cases headers with
  | none => exact .ret trivial rfl
  | some m => exact m.exchanges_destroy

theorem exchanges_destroy (builder : BuilderPtr) : Exchanges builder.blocks builder.destroy
    (fun _ => True) (fun _ => 0) (headersLeft builder.value.headers) := by
  obtain ⟨self, ⟨version, _⟩, statusCode, headers, data, shouldClose⟩ := builder
  simp only [blocks, CString.blocks]
  refine (exchanges_touch_all {self}).step
    ({version} + blocksOf HashmapPtr.blocks headers + blocksOf CString.blocks data) ?_ fun _ _ => ?_
  · abel
  refine (exchanges_free version).step
    ({self} + blocksOf HashmapPtr.blocks headers + blocksOf CString.blocks data) ?_ fun _ _ => ?_
  · abel
  refine (exchanges_destroyHeaders headers).stepLosing (m := 0) ({self} + blocksOf CString.blocks data)
    ?_ (add_zero _).symm fun _ _ => ?_
  · abel
  refine (exchanges_freePtr data).step {self} ?_ fun _ _ => ?_
  · abel
  rw [zero_add]
  exact exchanges_free self

theorem exchanges_addClose (called : Bool) (m : HashmapPtr) : Exchanges m.blocks (addClose called m)
    (fun m' => m'.value =
      if called then m.value.set (lit "Connection") (lit "close") else m.value)
    HashmapPtr.blocks 0 := by
  cases called with
  | true => exact m.exchanges_setField _ _
  | false => exact .ret rfl rfl

def withoutHeaders (builder : BuilderPtr) : Multiset ℕ :=
  {builder.self} + builder.httpVersion.blocks + blocksOf CString.blocks builder.data

theorem blocks_eq (builder : BuilderPtr) :
    builder.blocks = blocksOf HashmapPtr.blocks builder.headers + builder.withoutHeaders := by
  rw [blocks, withoutHeaders]
  abel

theorem exchanges_touchSelf (builder : BuilderPtr) :
    Exchanges builder.blocks (touch {builder.self} : M Unit) (fun _ => True) (fun _ => builder.blocks)
      0 := by
  refine exchanges_touch fun x hx => ?_
  rw [Multiset.mem_singleton.1 hx, blocks]
  simp

theorem exchanges_setHeaders (env : Env) (hheaders : builder.headers = none) (m : HashmapPtr) :
    Exchanges (builder.blocks + m.blocks) (builder.setHeaders m)
      (fun b => b.value = builder.value.option env (.headers m.value) ∧ b.data = builder.data)
      blocks 0 := by
  refine builder.exchanges_touchSelf.step m.blocks rfl fun _ _ => ?_
  refine (exchanges_addClose builder.shouldClose m).step builder.blocks (add_comm _ _) fun m' hm' => ?_
  refine .ret ⟨?_, rfl⟩ ?_
  · simp only [value, Option.map_some, hm']
    rfl
  · rw [blocks_eq, blocks_eq, hheaders]
    simp only [blocksOf, Option.elim_none, Option.elim_some, zero_add]
    rfl

theorem exchanges_setBody (env : Env) (hdata : builder.data = none) (body : Bytes) :
    Exchanges builder.blocks (builder.setBody body)
      (fun b => b.value = builder.value.option env (.body body)) blocks 0 := by
  refine builder.exchanges_touchSelf.step 0 (add_zero _).symm fun _ _ => ?_
  refine (exchanges_strdup _).step builder.blocks (by simp) fun data h => ?_
  refine .ret ?_ ?_
  · simp only [value, Option.map_some, h]
    rfl
  · simp only [blocks, blocksOf, hdata, Option.elim_none, Option.elim_some]
    abel

theorem exchanges_close (env : Env) (builder : BuilderPtr) : Exchanges builder.blocks builder.close
    (fun b => b.value = builder.value.option env .close) blocks 0 := by
  refine builder.exchanges_touchSelf.step 0 (add_zero _).symm fun _ _ => ?_
  rw [add_zero]
  cases hheaders : builder.headers with
  | none =>
    refine .ret ?_ ?_
    · simp only [value, hheaders, HttpResponseBuilder.option, Option.map_none]
    · rw [blocks, blocks, hheaders]
  | some m =>
    refine (m.exchanges_setField _ _).step builder.withoutHeaders ?_ fun m' hm' => .ret ?_ ?_
    · rw [blocks_eq, hheaders]
      rfl
    · simp only [value, hheaders, HttpResponseBuilder.option, Option.map_some, hm']
    · rw [blocks_eq]
      rfl

theorem exchanges_gzipCompress (env : Env) (input : Bytes) : Exchanges 0 (gzipCompress env input)
    (fun output => output.map (·.text) = env.gzipCompress input) (blocksOf CString.blocks) 0 := by
  refine exchanges_alloc.step 0 rfl fun output _ => ?_
  rw [add_zero]
  cases env.gzipCompress input with
  | none =>
    refine (exchanges_free output).step 0 (add_zero _).symm fun _ _ => ?_
    exact .ret rfl rfl
  | some bytes => exact .ret rfl rfl

theorem exchanges_reallocData (data : CString) (output : Bytes) :
    Exchanges data.blocks (reallocData data output)
      (fun p => p.map (·.text) = if output = [] then none else some output)
      (blocksOf CString.blocks) 0 := by
  unfold reallocData
  by_cases h : output = []
  · rw [if_pos h, if_pos h]
    refine (exchanges_free data.block).step 0 (add_zero _).symm fun _ _ => ?_
    exact .ret rfl rfl
  · rw [if_neg h, if_neg h]
    refine (exchanges_realloc data.block).step 0 (add_zero _).symm fun block _ => ?_
    exact .ret rfl (add_zero _)

/-- What is replaced is lost: the key, and the value that `Hashmap_delete` returns. -/
theorem exchanges_replaceData {key : BString} {data output : CString} {p : Slot}
    (hkey : key.text = lit "Content-Length") (hp : m.map.get key.text = some p) :
    Exchanges ({builder.self} + builder.httpVersion.blocks + m.blocks + data.blocks + key.blocks +
        output.blocks) (builder.replaceData m key data output)
      (fun b => b.value = { builder.value with
        headers := some (((m.value.delete (lit "Content-Length")).2.set (lit "Content-Length")
          (decimal output.text.length)).set (lit "Content-Encoding") (lit "gzip"))
        data := if output.text = [] then none else some output.text })
      blocks 4 := by
  set own := {builder.self} + builder.httpVersion.blocks with hown
  refine (exchanges_strdup (decimal output.text.length)).step _ (zero_add _).symm
    fun outputLenStr hlen => ?_
  refine (HashmapPtr.exchanges_delete (by rw [hkey]; decide) hp).stepLosing (m := 2)
    (own + data.blocks + output.blocks + outputLenStr.blocks) ?_ rfl ?_
  · abel
  rintro ⟨_, headers⟩ ⟨-, hdeleted⟩
  rw [hkey] at hdeleted
  refine Exchanges.forget (n := 0) p.data.blocks (?_ : _ = headers.blocks + key.blocks + own +
    data.blocks + output.blocks + outputLenStr.blocks + _) rfl ?_
  · abel
  refine (exchanges_bfromcstr outputLenStr.text).step _ (zero_add _).symm fun outputLen hval => ?_
  refine (headers.exchanges_set key outputLen).step
    (own + data.blocks + output.blocks + outputLenStr.blocks) ?_ fun headers' hset => ?_
  · abel
  refine (headers'.exchanges_setField _ _).step _ rfl fun headers'' hfield => ?_
  refine (exchanges_reallocData data output.text).step
    (headers''.blocks + own + output.blocks + outputLenStr.blocks) ?_ fun data' hdata => ?_
  · abel
  refine (exchanges_free output.block).step
    (blocksOf CString.blocks data' + headers''.blocks + own + outputLenStr.blocks) ?_ fun _ _ => ?_
  · rw [CString.blocks]
    abel
  refine (exchanges_free outputLenStr.block).step
    (blocksOf CString.blocks data' + headers''.blocks + own) ?_ fun _ _ => .ret ?_ ?_
  · rw [CString.blocks]
    abel
  · simp only [value, Option.map_some, hfield, hset, hval, hlen, hdeleted, hkey, hdata]
  · rw [blocks, hown]
    simp only [blocksOf, Option.elim_some]
    abel

/-- The blocks that the case `COMPRESSION_GZIP` leaves. -/
def gzipLeft (env : Env) (builder : HttpResponseBuilder) : ℕ :=
  match builder.data, builder.headers with
  | some data, some headers =>
    match headers.get (lit "Content-Length") with
    | none => 2
    | some contentLengthStr =>
      let contentLength := (parseLong contentLengthStr).getD 0
      if (env.gzipCompress (env.readPast data (sizeAdd 0 contentLength))).isSome then 4 else 2
  | _, _ => 0

theorem exchanges_compressionGzip (env : Env) (builder : BuilderPtr) :
    Exchanges builder.blocks (builder.compressionGzip env)
      (fun b => b.value = builder.value.compressionGzip env) blocks
      (gzipLeft env builder.value) := by
  refine builder.exchanges_touchSelf.step 0 (add_zero _).symm fun _ _ => ?_
  rw [add_zero]
  have hdataV : builder.value.data = builder.data.map (·.text) := rfl
  have hheadersV : builder.value.headers = builder.headers.map (·.value) := rfl
  cases hdata : builder.data with
  | none =>
    simp only [HttpResponseBuilder.compressionGzip, gzipLeft, hdataV, hdata, Option.map_none]
    exact .ret rfl rfl
  | some data =>
    cases hheaders : builder.headers with
    | none =>
      simp only [HttpResponseBuilder.compressionGzip, gzipLeft, hdataV, hheadersV, hdata, hheaders,
        Option.map_none, Option.map_some]
      exact .ret rfl rfl
    | some m =>
      have hblocks : builder.blocks =
          {builder.self} + builder.httpVersion.blocks + m.blocks + data.blocks := by
        rw [blocks, hheaders, hdata]
        rfl
      refine (exchanges_bfromcstr (lit "Content-Length")).step _ (zero_add _).symm fun key hkey => ?_
      rw [hblocks]
      refine (m.exchanges_get key).step ({builder.self} + builder.httpVersion.blocks + data.blocks) ?_
        fun found hfound => ?_
      · abel
      rw [hkey] at hfound
      have hget : m.value.get (lit "Content-Length") = found.map (·.text) := by
        rw [hfound]
        exact (m.text_found _).symm
      have hkeyleft : 2 = key.blocks.card + 0 := rfl
      simp only [HttpResponseBuilder.compressionGzip, gzipLeft, hdataV, hheadersV, hdata, hheaders,
        Option.map_some, hget]
      cases found with
      | none =>
        refine Exchanges.forget key.blocks ?_ hkeyleft (.ret rfl hblocks.symm)
        abel
      | some contentLengthStr =>
        have hlent := HashmapPtr.mem_blocks_of_found (by decide) hfound _ rfl
        simp only [Option.map_some]
        set rest := {builder.self} + builder.httpVersion.blocks + key.blocks with hrest
        refine (exchanges_touch (fun x hx => ?_) : Exchanges (m.blocks + data.blocks) _ _ _ _).step
          rest ?_ fun _ _ => ?_
        · rcases Multiset.mem_add.1 hx with hx | hx
          · exact Multiset.mem_add.2 (Or.inl (hlent x hx))
          · exact Multiset.mem_add.2 (Or.inr hx)
        · rw [hrest]
          abel
        refine (exchanges_gzipCompress env _).step _ (zero_add _).symm fun output houtput => ?_
        rw [← houtput]
        cases output with
        | none =>
          refine Exchanges.forget key.blocks ?_ hkeyleft (.ret rfl hblocks.symm)
          rw [blocksOf, Option.elim_none, hrest]
          abel
        | some output =>
          obtain ⟨p, hp, -⟩ := Option.map_eq_some_iff.1 hfound.symm
          refine (exchanges_replaceData hkey (by rw [hkey]; exact hp)).imp (fun b hb => ?_)
            (fun _ _ => rfl) ?_
          · rw [hb]
            simp only [Option.map_some]
          · rw [blocksOf, Option.elim_some, hrest]
            abel

theorem exchanges_plainMessage (env : Env) {message : BString} (hheaders : builder.headers = none)
    (hdata : builder.data = none) (hmessage : ∀ x ∈ message.blocks, x ∈ lent) :
    Exchanges (builder.blocks + lent) (builder.plainMessage message)
      (fun b => b.value = builder.value.plainMessage env message.text) (fun b => b.blocks + lent) 0 := by
  refine HashmapPtr.exchanges_create.step _ (zero_add _).symm fun m₀ h₀ => ?_
  refine (m₀.exchanges_setField _ _).step _ rfl fun m₁ h₁ => ?_
  refine (exchanges_touch hmessage).step (m₁.blocks + builder.blocks) ?_ fun _ _ => ?_
  · abel
  refine (exchanges_strdup (decimal message.text.length)).step _ (zero_add _).symm
    fun contentLength hlen => ?_
  refine (m₁.exchanges_setField _ _).step (contentLength.blocks + lent + builder.blocks) ?_
    fun m₂ h₂ => ?_
  · abel
  refine (exchanges_free contentLength.block).step (m₂.blocks + lent + builder.blocks) ?_
    fun _ _ => ?_
  · rw [CString.blocks]
    abel
  refine (exchanges_setHeaders env hheaders m₂).step lent ?_ ?_
  · abel
  rintro b ⟨hb, hbdata⟩
  refine (exchanges_touch hmessage).step b.blocks (add_comm _ _) fun _ _ => ?_
  have hbody := (exchanges_setBody env (hbdata.trans hdata) message.text).frame lent
  refine hbody.imp (fun b' hb' => ?_) (fun _ _ => rfl) (add_comm _ _)
  rw [hb', hb, h₂, hlen, h₁, h₀]
  rfl

/-! What `http_response_builder_construct` does with the blocks. -/

theorem exchanges_reallocPtr (p : Option ℕ) : Exchanges (ptrBlocks p) (p.elim alloc realloc : M ℕ)
    (fun _ => True) (fun b => {b}) 0 := by
  cases p with
  | none => exact exchanges_alloc
  | some b => exact exchanges_realloc b

theorem exchanges_traverseSlots {slots : List Slot} (h : ∀ p ∈ slots, ∀ x ∈ p.blocks, x ∈ lent)
    (buffer : Option ℕ) : Exchanges (ptrBlocks buffer + lent) (traverseSlots slots buffer)
      (fun _ => True) (fun p => ptrBlocks p + lent) 0 := by
  induction slots generalizing buffer with
  | nil => exact .ret trivial rfl
  | cons p slots ih =>
    refine (exchanges_touch (h p List.mem_cons_self)).step (ptrBlocks buffer) (add_comm _ _)
      fun _ _ => ?_
    refine (exchanges_reallocPtr buffer).step lent (add_comm _ _) fun moved _ => ?_
    refine exchanges_alloc.step ({moved} + lent) (zero_add _).symm fun newBuffer _ => ?_
    refine (exchanges_touch_all ({moved} + {newBuffer})).step lent ?_ fun _ _ => ?_
    · abel
    refine (exchanges_free newBuffer).step ({moved} + lent) ?_ fun _ _ => ?_
    · abel
    rw [zero_add]
    exact ih (fun q hq => h q (List.mem_cons_of_mem _ hq)) (some moved)

theorem exchanges_giveHeaders (builder : BuilderPtr) : Exchanges builder.blocks builder.giveHeaders
    (fun b => b.value = { builder.value with headers := builder.value.finalHeaders }) blocks 0 := by
  unfold giveHeaders
  cases hheaders : builder.headers with
  | some m =>
    refine .ret ?_ rfl
    simp only [HttpResponseBuilder.finalHeaders, value, hheaders, Option.map_some]
  | none =>
    cases hclose : builder.shouldClose with
    | false =>
      refine .ret ?_ rfl
      simp only [HttpResponseBuilder.finalHeaders, value, hheaders, hclose, Option.map_none,
        Bool.false_eq_true, if_false]
    | true =>
      refine HashmapPtr.exchanges_create.step _ (zero_add _).symm fun m₀ h₀ => ?_
      refine (m₀.exchanges_setField _ _).step _ rfl fun m h => .ret ?_ ?_
      · simp only [HttpResponseBuilder.finalHeaders, value, hheaders, hclose, Option.map_none,
          Option.map_some, if_true, h, h₀]
      · rw [blocks_eq, blocks_eq, hheaders]
        simp only [blocksOf, Option.elim_none, Option.elim_some, zero_add]
        rfl

theorem exchanges_layOut (env : Env) (builder : BuilderPtr) : Exchanges builder.blocks
    (builder.layOut env) (fun _ => True) (fun p => ptrBlocks p + builder.blocks)
    (if builder.value.headers.isSome then 1 else 0) := by
  unfold layOut
  have hheadersV : builder.value.headers = builder.headers.map (·.value) := rfl
  cases hheaders : builder.headers with
  | none =>
    rw [hheadersV, hheaders]
    exact .ret trivial (zero_add _).symm
  | some m =>
    have hone : (if builder.value.headers.isSome then 1 else 0) = 1 := by
      rw [hheadersV, hheaders]
      rfl
    rw [hone]
    have hmap : ∀ x ∈ m.blocks, x ∈ builder.blocks := by
      intro x hx
      rw [blocks_eq, hheaders]
      exact Multiset.mem_add.2 (Or.inl hx)
    have hnodes : ∀ p ∈ m.map.nodes.map (·.data), ∀ x ∈ p.blocks, x ∈ builder.blocks := by
      intro p hp x hx
      obtain ⟨n, hn, rfl⟩ := List.mem_map.1 hp
      exact hmap x (HashmapPtr.mem_blocks_of_node hn x hx)
    refine (exchanges_traverseSlots hnodes none).step 0 ?_ fun assembled _ => ?_
    · rw [ptrBlocks, blocksOf, Option.elim_none, zero_add, add_zero]
    refine (exchanges_reallocPtr assembled).step builder.blocks (add_zero _) fun buffer _ => ?_
    refine (exchanges_touch_all {buffer}).step builder.blocks rfl fun _ _ => ?_
    refine exchanges_alloc.step _ (zero_add _).symm fun fieldLine _ => ?_
    refine Exchanges.forget (n := 0) {buffer} (?_ : _ = {fieldLine} + builder.blocks + _) rfl ?_
    · abel
    cases hdata : builder.data with
    | none => exact .ret trivial rfl
    | some data =>
      refine (m.exchanges_getCstr (lit "Content-Length")).step ({fieldLine} + builder.withoutHeaders) ?_
        fun found hfound => ?_
      · rw [blocks_eq, hheaders]
        simp only [blocksOf, Option.elim_some]
        abel
      have hown : m.blocks + ({fieldLine} + builder.withoutHeaders) = {fieldLine} + builder.blocks := by
        rw [blocks_eq, hheaders]
        simp only [blocksOf, Option.elim_some]
        abel
      rw [hown]
      cases found with
      | none => exact .ret trivial rfl
      | some contentLengthStr =>
        have hlent := HashmapPtr.mem_blocks_of_found (by decide) hfound _ rfl
        refine (exchanges_touch (fun x hx => ?_) : Exchanges builder.blocks _ _ _ _).step {fieldLine}
          (add_comm _ _) fun _ _ => ?_
        · rcases Multiset.mem_add.1 hx with hx | hx
          · exact hmap x (hlent x hx)
          · rw [blocks, hdata]
            exact Multiset.mem_add.2 (Or.inr hx)
        by_cases hempty : (builder.value.construct env).fieldLine = []
        · rw [if_pos hempty]
          refine (exchanges_free fieldLine).step builder.blocks (add_comm _ _) fun _ _ => ?_
          exact .ret trivial rfl
        · rw [if_neg hempty]
          refine (exchanges_realloc fieldLine).step builder.blocks (add_comm _ _) fun _ _ => ?_
          exact .ret trivial rfl

/-- **The construction** makes the response of the model without blocks, and leaves the text of the
header block. -/
theorem exchanges_construct (env : Env) (builder : BuilderPtr) :
    Exchanges builder.blocks (builder.construct env)
      (fun r => r.1.value = builder.value.construct env ∧
        r.2.value = { builder.value with headers := builder.value.finalHeaders })
      (fun r => r.1.blocks + r.2.blocks) (if builder.value.finalHeaders.isSome then 1 else 0) := by
  refine builder.exchanges_touchSelf.step 0 (add_zero _).symm fun _ _ => ?_
  refine exchanges_alloc.step _ (zero_add _).symm fun self _ => ?_
  refine (exchanges_touch (fun x hx => ?_) : Exchanges builder.blocks _ _ _ _).step {self} ?_
    fun _ _ => ?_
  · rw [blocks]
    exact Multiset.mem_add.2 (Or.inl (Multiset.mem_add.2 (Or.inl (Multiset.mem_add.2 (Or.inr hx)))))
  · abel
  refine exchanges_alloc.step _ (zero_add _).symm fun httpVersion _ => ?_
  refine exchanges_alloc.step _ (zero_add _).symm fun reasonPhrase _ => ?_
  refine builder.exchanges_giveHeaders.step ({self} + {httpVersion} + {reasonPhrase}) ?_
    fun final hfinal => ?_
  · abel
  refine (exchanges_layOut env final).stepLosing (m := 0) ({self} + {httpVersion} + {reasonPhrase}) rfl
    ?_ fun fieldLine _ => .ret ⟨rfl, hfinal⟩ ?_
  · rw [hfinal, add_zero]
  · rw [ResponsePtr.blocks]
    abel

/-- The blocks that the end of a handler leaves. -/
def builderLeft (builder : HttpResponseBuilder) : ℕ :=
  match builder.finalHeaders with
  | none => 0
  | some headers => 1 + 2 * headers.entries.length

/-- **The end of a handler** leaves the text of the header block, and two blocks of every header. -/
theorem exchanges_respond (env : Env) (builder : BuilderPtr) :
    Exchanges builder.blocks (builder.respond env) (fun r => r.value = builder.value.construct env)
      ResponsePtr.blocks (builderLeft builder.value) := by
  have hleft : builderLeft builder.value = (if builder.value.finalHeaders.isSome then 1 else 0) +
      headersLeft builder.value.finalHeaders := by
    unfold builderLeft headersLeft
    cases builder.value.finalHeaders <;> rfl
  rw [hleft]
  refine (builder.exchanges_construct env).bind ?_
  rintro ⟨response, final⟩ ⟨hvalue, hfinal⟩
  refine (exchanges_destroy final).stepLosing (m := 0) response.blocks (add_comm _ _) ?_ fun _ _ => ?_
  · rw [hfinal, add_zero]
  · exact .ret hvalue (zero_add _)

end Specs

end BuilderPtr

end Blocks

end HttpServer

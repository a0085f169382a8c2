import HttpServer.Response
import HttpServer.HashmapSem
import HttpServer.Lib.Message

/-!
# What the response builder writes

The stores of `http_response_to_buffer` lay one text out from offset 0 on (`Stores.Laid`), and the
buffer is the part of that text that `total_size` covers.  The text is then computed for the three
kinds of builder: without headers it is a message (`buffer_bare`), with headers and a body it is a
message (`buffer_body`), and with headers alone it is a message and a second line end
(`buffer_fields`).
-/

namespace HttpServer

open Lib

/-! ### Stores in order -/

/-- `s` stored the bytes `bs`, one after the other from offset 0 on. -/
structure Stores.Laid (s : Stores) (bs : Bytes) : Prop where
  offset : s.offset = bs.length
  done : s.done = bs.mapIdx fun i c => (i, c)

namespace Stores

variable {s : Stores} {bs cs : Bytes}

theorem Laid.start : Laid ⟨0, []⟩ [] := ⟨rfl, rfl⟩

theorem Laid.put (h : s.Laid bs) (cs : Bytes) : (s.put cs).Laid (bs ++ cs) := by
  refine ⟨by simp [Stores.put, h.offset], ?_⟩
  simp only [Stores.put, h.done, h.offset, List.mapIdx_append, Nat.add_comm]

theorem Laid.length_done (h : s.Laid bs) : s.done.length = bs.length := by
  simp [h.done]

theorem Laid.lt_iff (h : s.Laid bs) (n : ℕ) : (∀ p ∈ s.done, p.1 < n) ↔ bs.length ≤ n := by
  simp only [h.done, List.mem_mapIdx]
  constructor
  · intro hlt
    by_contra hn
    have hn' : n < bs.length := not_le.1 hn
    have := hlt (n, bs[n]) ⟨n, hn', rfl⟩
    simp at this
  · rintro hle p ⟨i, hi, rfl⟩
    simp only
    omega

theorem foldl_set_replicate (bs : Bytes) (n : ℕ) :
    (bs.mapIdx fun i c => (i, c)).foldl (fun m p => m.set p.1 p.2) (List.replicate n (0 : UInt8)) =
      (bs ++ List.replicate (n - bs.length) 0).take n := by
  induction bs using List.reverseRecOn with
  | nil => simp
  | append_singleton bs c ih =>
    rw [List.mapIdx_append, List.foldl_append, ih]
    simp only [List.mapIdx_cons, List.mapIdx_nil, Nat.zero_add, List.foldl_cons, List.foldl_nil]
    by_cases hn : bs.length < n
    · obtain ⟨k, hk⟩ : ∃ k, n - bs.length = k + 1 := ⟨n - bs.length - 1, by omega⟩
      have hk' : n - (bs ++ [c]).length = k := by simp; omega
      have h1 : (bs ++ List.replicate (k + 1) (0 : UInt8)).take n = bs ++ List.replicate (k + 1) 0 :=
        List.take_of_length_le (by simp; omega)
      have h2 : (bs ++ [c] ++ List.replicate k (0 : UInt8)).take n = bs ++ [c] ++ List.replicate k 0 :=
        List.take_of_length_le (by simp; omega)
      rw [hk, hk', h1, h2, List.replicate_succ, List.set_append_right _ _ le_rfl]
      simp
    · have h1 : n - bs.length = 0 := by omega
      have h2 : n - (bs ++ [c]).length = 0 := by simp; omega
      have hlen : ((bs ++ List.replicate 0 (0 : UInt8)).take n).length ≤ bs.length := by simp
      rw [h1, h2, List.set_eq_of_length_le hlen]
      simp [List.take_append_of_le_length (Nat.not_lt.1 hn)]

theorem Laid.block_eq (h : s.Laid bs) (n : ℕ) :
    s.block n = (bs ++ List.replicate (n - bs.length) 0).take n := by
  rw [block, h.done, foldl_set_replicate]

theorem length_foldl_set (ps : List (ℕ × UInt8)) (m : Bytes) :
    (ps.foldl (fun m p => m.set p.1 p.2) m).length = m.length := by
  induction ps generalizing m with
  | nil => rfl
  | cons p ps ih => simp [ih]

@[simp] theorem length_block (s : Stores) (n : ℕ) : (s.block n).length = n := by
  simp [block, length_foldl_set]

end Stores

/-! ### Reads past an end -/

section Read

variable {env : Env} {block : Bytes} {n : ℕ}

@[simp] theorem length_readPast (env : Env) (block : Bytes) (n : ℕ) :
    (env.readPast block n).length = n := by
  simp [Env.readPast]

theorem readPast_of_le (h : n ≤ block.length) : env.readPast block n = block.take n := by
  refine List.ext_getElem (by simp [h]) ?_
  intro i h1 h2
  have hi : i < block.length := by simp at h1; omega
  simp [Env.readPast, Env.peek, hi]

theorem take_readPast (h : n ≤ k) : (env.readPast block k).take n = env.readPast block n := by
  simp [Env.readPast, ← List.map_take, List.take_range, h]

end Read

theorem sizeAdd_of_lt {n d : ℕ} (h : n + d < 2 ^ 64) : sizeAdd n d = n + d := by
  unfold sizeAdd
  omega

theorem HttpStatus.code_range (s : HttpStatus) : 100 ≤ s.code ∧ s.code < 1000 := by
  cases s <;> decide

theorem HttpStatus.take_decimal_code (s : HttpStatus) :
    (decimal s.code).take 3 = decimal s.code :=
  List.take_of_length_le (length_decimal_code s.code_range).le

theorem HttpStatus.reasonPhrase_ok (s : HttpStatus) : CR ∉ s.reasonPhrase ∧ NulFree s.reasonPhrase := by
  cases s <;> decide

/-! ### The text of a response -/

namespace HttpResponse

def head (response : HttpResponse) : Bytes :=
  statusLine response.httpVersion response.status.code response.reasonPhrase ++ CRLF

/-- The bytes of the field line that `http_response_to_buffer` copies. -/
def fieldCount (response : HttpResponse) : ℕ :=
  sizeAdd response.head.length response.fieldLineLen - response.head.length

/-- **The stores of `http_response_to_buffer`** lay out the status line, the field line and a line
end. -/
theorem toBuffer_laid (env : Env) (response : HttpResponse) : (response.toBuffer env).Laid
    (response.head ++ env.readPast response.fieldLine response.fieldCount ++ CRLF) := by
  have hhead := ((((((Stores.Laid.start.put response.httpVersion).put [SP]).put
    ((decimal response.status.code).take 3)).put [SP]).put response.reasonPhrase).put CRLF)
  have htext : [] ++ response.httpVersion ++ [SP] ++ (decimal response.status.code).take 3 ++ [SP] ++
      response.reasonPhrase ++ CRLF = response.head := by
    simp [head, statusLine, HttpStatus.take_decimal_code]
  rw [htext] at hhead
  have hcopy := (hhead.put (env.readPast response.fieldLine response.fieldCount)).put CRLF
  unfold fieldCount at hcopy ⊢
  simp only [toBuffer, hhead.offset]
  exact hcopy

@[simp] theorem length_buffer (env : Env) (response : HttpResponse) :
    (response.buffer env).length = response.totalSize := by
  simp [buffer]

end HttpResponse

/-! ### The header block -/

/-- What the callback of the traversal has built for the text `t`. -/
structure Built (t : Bytes) (s : Option StrBuf × ℕ) : Prop where
  size : s.2 = t.length
  text : t ≠ [] → s.1 = some ⟨t.length + 1, t⟩

theorem length_fieldLine (f : Bytes × Bytes) : (fieldLine f).length = f.1.length + 2 + f.2.length := by
  simp [fieldLine]
  omega

theorem built_nil : Built [] (none, 0) := ⟨rfl, fun h => absurd rfl h⟩

/-- One call of `traverse_hashmap` adds the line of its node. -/
theorem Built.step {t : Bytes} {s : Option StrBuf × ℕ} (h : Built t s) (env : Env)
    (node : HashmapNode Bytes) : (traverseHashmap env node s).1 = 0 ∧
      Built (t ++ (fieldLine (node.key, node.data) ++ CRLF)) (traverseHashmap env node s).2 := by
  obtain ⟨buffer, currentSize⟩ := s
  obtain ⟨rfl, htext⟩ := h
  have hline : node.key ++ lit ": " ++ node.data ++ CRLF = fieldLine (node.key, node.data) ++ CRLF := by
    simp [fieldLine, lit]
  have hlen := length_fieldLine (node.key, node.data)
  have htotal : t.length + node.key.length + 2 + node.data.length + 2 =
      (t ++ (fieldLine (node.key, node.data) ++ CRLF)).length := by
    simp only [List.length_append, hlen, List.length_cons, List.length_nil]
    omega
  have htake : (fieldLine (node.key, node.data) ++ CRLF).take
      (t ++ (fieldLine (node.key, node.data) ++ CRLF)).length =
        fieldLine (node.key, node.data) ++ CRLF :=
    List.take_of_length_le (by simp)
  refine ⟨rfl, ?_, fun _ => ?_⟩
  · simp only [traverseHashmap, htotal]
  · simp only [traverseHashmap, htotal, hline, htake, reallocStr]
    by_cases ht : t = []
    · simp [ht]
    · have hbuffer : buffer = some ⟨t.length + 1, t⟩ := htext ht
      simp only [hbuffer, Option.map_some, Option.getD_some, List.length_eq_zero_iff, ht, if_false]

theorem traverseNodes_built (env : Env) (nodes : List (HashmapNode Bytes)) {t : Bytes}
    {s : Option StrBuf × ℕ} (h : Built t s) :
    Built (t ++ fieldLines (nodes.map fun n => (n.key, n.data)))
      (Hashmap.traverseNodes (traverseHashmap env) nodes s).2 := by
  induction nodes generalizing t s with
  | nil => simpa [Hashmap.traverseNodes, fieldLines] using h
  | cons node nodes ih =>
    obtain ⟨hrc, hstep⟩ := h.step env node
    have := ih hstep
    simpa [Hashmap.traverseNodes, hrc, fieldLines] using this

theorem fieldLines_ne_nil {fs : List (Bytes × Bytes)} (h : fs ≠ []) : fieldLines fs ≠ [] := by
  obtain ⟨f, fs, rfl⟩ := List.exists_cons_of_ne_nil h
  simp [fieldLines, fieldLine]

theorem headerBlock_size (env : Env) (headers : Hashmap Bytes) :
    (headerBlock env headers).2 = (fieldLines headers.entries).length + 2 := by
  have h := traverseNodes_built env headers.nodes built_nil
  simp only [headerBlock, Hashmap.traverse, h.size]
  rfl

/-- **The header block**: the lines of the entries and an empty line. -/
theorem headerBlock_text {env : Env} {headers : Hashmap Bytes} (hne : headers.entries ≠ []) :
    (headerBlock env headers).1.text = fieldLines headers.entries ++ CRLF := by
  have h := traverseNodes_built env headers.nodes built_nil
  rw [List.nil_append] at h
  have htext := h.text (fieldLines_ne_nil hne)
  simp only [headerBlock, Hashmap.traverse, htext, h.size, reallocStr]
  rw [List.take_of_length_le (by simp)]
  rfl

/-! ### The buffer of a constructed response -/

namespace HttpResponseBuilder

variable {env : Env} {builder : HttpResponseBuilder} {headers : Hashmap Bytes} {data : Bytes}

def message (builder : HttpResponseBuilder) (fields : List (Bytes × Bytes)) (body : Bytes) : Message :=
  ⟨builder.httpVersion, builder.statusCode.code, builder.statusCode.reasonPhrase, fields, body⟩

def head (builder : HttpResponseBuilder) : Bytes :=
  statusLine builder.httpVersion builder.statusCode.code builder.statusCode.reasonPhrase ++ CRLF

theorem length_head (builder : HttpResponseBuilder) : builder.httpVersion.length + 1 + 4 +
    builder.statusCode.reasonPhrase.length + 2 = builder.head.length := by
  have := length_decimal_code builder.statusCode.code_range
  simp [head, statusLine, this]
  omega

theorem head_construct (env : Env) (builder : HttpResponseBuilder) :
    (builder.construct env).head = builder.head := by
  unfold construct
  cases builder.finalHeaders with
  | none => rfl
  | some headers =>
    cases builder.data with
    | none => rfl
    | some data =>
      simp only
      cases headers.getCstr (lit "Content-Length") <;> rfl

/-- The number of bytes stored: the copy of the field line ends where `total_size` says, unless that
is inside the status line, and two bytes follow. -/
theorem offset_toBuffer (env : Env) (builder : HttpResponseBuilder) :
    ((builder.construct env).toBuffer env).offset =
      max (sizeAdd builder.head.length (builder.construct env).fieldLineLen) builder.head.length + 2 := by
  rw [((builder.construct env).toBuffer_laid env).offset]
  simp only [HttpResponse.fieldCount, head_construct, List.length_append, length_readPast,
    List.length_cons, List.length_nil]
  omega

theorem construct_bare (env : Env) (h : builder.finalHeaders = none) :
    (builder.construct env).totalSize = builder.head.length + 2 ∧
      (builder.construct env).fieldLine = [] ∧ (builder.construct env).fieldLineLen = 0 := by
  simp only [construct, h, length_head, and_self]

theorem construct_fields (env : Env) (h : builder.finalHeaders = some headers)
    (hd : builder.data = none) :
    (builder.construct env).totalSize =
        builder.head.length + ((fieldLines headers.entries).length + 2) + 2 ∧
      (builder.construct env).fieldLine = (headerBlock env headers).1.text ++ [0] ∧
      (builder.construct env).fieldLineLen = (fieldLines headers.entries).length + 2 := by
  simp only [construct, h, hd, length_head, headerBlock_size, and_self]

theorem sizeAdd_sizeAdd (a b : ℕ) (d : ℤ) : sizeAdd a (sizeAdd b d) = sizeAdd (a + b) d := by
  unfold sizeAdd
  omega

/-- With headers and a body, whatever length is declared, `total_size` and the length of the field
line go by the same additions. -/
theorem construct_sizes (env : Env) (h : builder.finalHeaders = some headers)
    (hd : builder.data = some data) :
    (builder.construct env).totalSize =
        sizeAdd builder.head.length (builder.construct env).fieldLineLen ∨
      (builder.construct env).totalSize =
        builder.head.length + (builder.construct env).fieldLineLen := by
  simp only [construct, h, hd, length_head, headerBlock_size]
  cases headers.getCstr (lit "Content-Length") with
  | none => exact Or.inr rfl
  | some s => exact Or.inl (sizeAdd_sizeAdd _ _ _).symm

/-- The counters of `http_response_to_buffer` are of type `int`. -/
abbrev INT_MAX : ℕ := 2 ^ 31 - 1

/-- With headers that declare a length, two bytes are stored after those that `total_size` counts. -/
theorem offset_of_length (h : builder.finalHeaders = some headers) (hd : builder.data = some data)
    {v : Bytes} (hcl : headers.getCstr (lit "Content-Length") = some v) :
    ((builder.construct env).toBuffer env).offset =
      max (builder.construct env).totalSize builder.head.length + 2 := by
  have htotal : (builder.construct env).totalSize =
      sizeAdd builder.head.length (builder.construct env).fieldLineLen := by
    simp only [construct, h, hd, hcl, appendBody, length_head, headerBlock_size]
    exact (sizeAdd_sizeAdd _ _ _).symm
  rw [offset_toBuffer, htotal]

theorem buffer_eq_take {response : HttpResponse} {text : Bytes}
    (h : (response.toBuffer env).Laid text) (hle : response.totalSize ≤ text.length) :
    response.buffer env = text.take response.totalSize := by
  rw [HttpResponse.buffer, h.block_eq, Nat.sub_eq_zero_of_le hle]
  simp

/-- **Without headers** the buffer is a message without fields. -/
theorem buffer_bare (env : Env) (h : builder.finalHeaders = none) :
    (builder.construct env).buffer env = (builder.message [] []).render := by
  obtain ⟨htotal, -, hlen⟩ := construct_bare env h
  have hlaid := (builder.construct env).toBuffer_laid env
  have hcount : (builder.construct env).fieldCount = 0 := by
    rw [HttpResponse.fieldCount, hlen, head_construct]
    unfold sizeAdd
    omega
  rw [hcount, head_construct] at hlaid
  rw [buffer_eq_take hlaid (by simp [htotal]), List.take_of_length_le (by simp [htotal])]
  simp [Env.readPast, message, Message.render, head, fieldLines]

/-- **With headers alone** the buffer is a message without body, and a line end after it. -/
theorem buffer_fields (env : Env) (h : builder.finalHeaders = some headers)
    (hd : builder.data = none) (hne : headers.entries ≠ [])
    (hlen : builder.head.length + (fieldLines headers.entries).length + 2 < 2 ^ 64) :
    (builder.construct env).buffer env = (builder.message headers.entries []).render ++ CRLF := by
  obtain ⟨htotal, hline, hcount⟩ := construct_fields env h hd
  rw [headerBlock_text hne] at hline
  have hlaid := (builder.construct env).toBuffer_laid env
  have hcount' : (builder.construct env).fieldCount = (fieldLines headers.entries ++ CRLF).length := by
    rw [HttpResponse.fieldCount, hcount, head_construct, sizeAdd_of_lt (by omega)]
    simp
  have hread : env.readPast (fieldLines headers.entries ++ CRLF ++ [0])
      (fieldLines headers.entries ++ CRLF).length = fieldLines headers.entries ++ CRLF := by
    rw [readPast_of_le (by simp), List.take_left]
  rw [hcount', hline, hread, head_construct] at hlaid
  have hsize : (builder.construct env).totalSize =
      (builder.head ++ (fieldLines headers.entries ++ CRLF) ++ CRLF).length := by
    rw [htotal]
    simp
    omega
  rw [buffer_eq_take hlaid hsize.le, hsize, List.take_length]
  simp [message, Message.render, head]

theorem takeWhile_text {t : Bytes} (h : NulFree t) : (t ++ [0]).takeWhile (· ≠ 0) = t :=
  (takeWhile_ne_append [] h).1

/-- **With headers that declare the length of the body** the buffer is a message; the two bytes
stored after it are outside. -/
theorem buffer_body {n : ℕ} (h : builder.finalHeaders = some headers) (hd : builder.data = some data)
    (hne : headers.entries ≠ []) (hfree : NulFree (fieldLines headers.entries))
    (hcl : headers.getCstr (lit "Content-Length") = some (decimal n))
    (hlen : builder.head.length + (fieldLines headers.entries).length + 2 + n + 2 < 2 ^ 63) :
    (builder.construct env).buffer env =
      (builder.message headers.entries (env.readPast data n)).render := by
  have hlaid := (builder.construct env).toBuffer_laid env
  set text := fieldLines headers.entries ++ CRLF with htext
  have htlen : text.length = (fieldLines headers.entries).length + 2 := by simp [htext]
  have hparse := parseLong_decimal (n := n) (show n < 2 ^ 63 by omega)
  have hcur : (text ++ [0]).takeWhile (· ≠ 0) = text := takeWhile_text (by
    simpa [htext, hfree] using (by decide : ¬ CR = 0 ∧ ¬ LF = 0))
  have hnew : sizeAdd text.length ((n : ℤ) + 1) = text.length + (n + 1) := by
    have := sizeAdd_of_lt (n := text.length) (d := n + 1) (by omega)
    exact_mod_cast this
  have hfield : (builder.construct env).fieldLine = text ++ env.readPast data (n + 1) := by
    have hblock : (headerBlock env headers).1.text = text := headerBlock_text hne
    have htake : text.take (text.length + (n + 1)) = text := List.take_of_length_le (by omega)
    simp only [construct, h, hd, hcl, hparse, Option.getD_some, appendBody, hblock, hcur, hnew,
      Nat.add_sub_cancel_left, List.take_left, htake]
  have hfieldLen : (builder.construct env).fieldLineLen = text.length + n := by
    simp only [construct, h, hd, hcl, hparse, Option.getD_some, appendBody, headerBlock_size]
    rw [sizeAdd_of_lt (by omega), htlen]
  have htotal : (builder.construct env).totalSize = builder.head.length + text.length + n := by
    simp only [construct, h, hd, hcl, hparse, Option.getD_some, appendBody, headerBlock_size,
      length_head]
    rw [sizeAdd_of_lt (by omega), htlen]
  have hcount : (builder.construct env).fieldCount = text.length + n := by
    rw [HttpResponse.fieldCount, hfieldLen, head_construct, sizeAdd_of_lt (by omega)]
    omega
  have hread : env.readPast (text ++ env.readPast data (n + 1)) (text.length + n) =
      text ++ env.readPast data n := by
    rw [readPast_of_le (by simp), List.take_length_add_append, take_readPast (by omega)]
  rw [hcount, hfield, hread, head_construct] at hlaid
  have hsize : (builder.construct env).totalSize =
      (builder.head ++ (text ++ env.readPast data n)).length := by
    rw [htotal]
    simp
    omega
  rw [buffer_eq_take hlaid (by rw [hsize]; simp), hsize, List.take_left]
  simp [message, Message.render, head, htext]

end HttpResponseBuilder

end HttpServer

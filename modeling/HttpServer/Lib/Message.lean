import HttpServer.Lib.Decimal

/-!
# Messages with a status line

A message is a status line, fields and a body whose length the fields declare.  `Message.render`
writes one and `readMessage` takes one off the front of a stream, the way a client does that keeps
the connection open.  What is rendered is read back, with the stream after it left as it was
(`readMessage_render`).
-/

namespace HttpServer.Lib

/-- A message; the names and values of its fields are in the order of the lines. -/
structure Message where
  version : Bytes
  code : ℕ
  reason : Bytes
  fields : List (Bytes × Bytes)
  body : Bytes

def fieldLine (f : Bytes × Bytes) : Bytes := f.1 ++ COLON :: SP :: f.2

def fieldLines (fs : List (Bytes × Bytes)) : Bytes := fs.flatMap fun f => fieldLine f ++ CRLF

section Lines

variable {f : Bytes × Bytes} {fs : List (Bytes × Bytes)}

theorem cr_fieldLine (h : CR ∉ f.1 ∧ CR ∉ f.2) : CR ∉ fieldLine f := by
  have hsep : CR ≠ COLON ∧ CR ≠ SP := by decide
  intro hmem
  rcases List.mem_append.1 hmem with hmem | hmem
  · exact h.1 hmem
  · simp only [List.mem_cons, hsep, false_or] at hmem
    exact h.2 hmem

theorem nulFree_fieldLines (h : ∀ f ∈ fs, NulFree f.1 ∧ NulFree f.2) : NulFree (fieldLines fs) := by
  have hsep : NulFree [COLON, SP] ∧ NulFree CRLF := by decide
  intro hmem
  obtain ⟨f, hf, hmem⟩ := List.mem_flatMap.1 hmem
  have hsplit : fieldLine f ++ CRLF = f.1 ++ [COLON, SP] ++ f.2 ++ CRLF := by simp [fieldLine]
  rw [hsplit] at hmem
  revert hmem
  exact nulFree_append.2 ⟨nulFree_append.2 ⟨nulFree_append.2 ⟨(h f hf).1, hsep.1⟩, (h f hf).2⟩, hsep.2⟩

/-- Lines are taken apart where they were put together, up to the empty line. -/
theorem splitHead_fieldLines (h : ∀ f ∈ fs, CR ∉ f.1 ∧ CR ∉ f.2) (rest : Bytes) :
    splitHead (fieldLines fs ++ CRLF ++ rest) = (fs.map fieldLine, CRLF ++ rest) := by
  have := splitHead_flatMap (fs.map fieldLine) rest fun l hl => by
    obtain ⟨f, hf, rfl⟩ := List.mem_map.1 hl
    exact ⟨by simp [fieldLine], cr_fieldLine (h f hf)⟩
  rwa [List.flatMap_map] at this

end Lines

def statusLine (version : Bytes) (code : ℕ) (reason : Bytes) : Bytes :=
  version ++ SP :: decimal code ++ SP :: reason

/-- The number of bytes that the fields declare for the body. -/
def bodyLength (fs : List (Bytes × Bytes)) : ℕ :=
  match fs.find? fun f => f.1 = lit "Content-Length" with
  | some f => ofDigits 10 f.2
  | none => 0

namespace Message

/-- The text of a message: its status line, its fields, an empty line and its body. -/
def render (m : Message) : Bytes :=
  statusLine m.version m.code m.reason ++ CRLF ++ fieldLines m.fields ++ CRLF ++ m.body

/-- A message that can be told from the text after it. -/
structure WF (m : Message) : Prop where
  version : SP ∉ m.version ∧ CR ∉ m.version
  code : 100 ≤ m.code ∧ m.code < 1000
  reason : CR ∉ m.reason
  fields : ∀ f ∈ m.fields, COLON ∉ f.1 ∧ CR ∉ f.1 ∧ CR ∉ f.2
  body : m.body.length = bodyLength m.fields

end Message

/-! ### Reading -/

/-- The three parts of a status line; the code has three digits. -/
def readStatusLine (line : Bytes) : Option (Bytes × ℕ × Bytes) :=
  (cutAt SP line).bind fun (version, line) =>
  (cutAt SP line).bind fun (code, reason) =>
  if code.length = 3 ∧ ∀ c ∈ code, digitVal c < 10 then some (version, ofDigits 10 code, reason)
  else none

def readField (line : Bytes) : Option (Bytes × Bytes) :=
  (cutAt COLON line).bind fun (name, value) =>
  if value.head? = some SP then some (name, value.drop 1) else none

/-- **One message off a stream**, and the stream after it. -/
def readMessage (s : Bytes) : Option (Message × Bytes) :=
  (cutLine s).bind fun (line, s) =>
  (readStatusLine line).bind fun (version, code, reason) =>
  ((splitHead s).1.mapM readField).bind fun fields =>
  if CRLF.isPrefixOf (splitHead s).2 then
    let s := (splitHead s).2.drop 2
    let n := bodyLength fields
    if n ≤ s.length then some (⟨version, code, reason, fields, s.take n⟩, s.drop n) else none
  else none

theorem readField_fieldLine {f : Bytes × Bytes} (h : COLON ∉ f.1) :
    readField (fieldLine f) = some f := by
  simp [readField, fieldLine, cutAt_append _ h]

theorem mapM_readField {fs : List (Bytes × Bytes)} (h : ∀ f ∈ fs, COLON ∉ f.1) :
    (fs.map fieldLine).mapM readField = some fs := by
  induction fs with
  | nil => rfl
  | cons f fs ih =>
    have hf := readField_fieldLine (h f (by simp))
    have := ih fun g hg => h g (List.mem_cons_of_mem _ hg)
    simp [hf, this]

theorem length_decimal_code {n : ℕ} (h : 100 ≤ n ∧ n < 1000) : (decimal n).length = 3 := by
  rw [decimal_of_le (by omega), decimal_of_le (n := n / 10) (by omega), decimal_of_lt (by omega)]
  rfl

theorem not_mem_decimal {n : ℕ} {c : UInt8} (h : c < 48) : c ∉ decimal n := by
  intro hc
  exact absurd (decimal_range hc).1 (UInt8.not_le.2 h)

theorem readStatusLine_statusLine {version reason : Bytes} {code : ℕ} (hv : SP ∉ version)
    (hc : 100 ≤ code ∧ code < 1000) :
    readStatusLine (statusLine version code reason) = some (version, code, reason) := by
  have hd : ∀ c ∈ decimal code, digitVal c < 10 := fun _ => digitVal_of_mem_decimal
  have h1 : statusLine version code reason = version ++ SP :: (decimal code ++ SP :: reason) := by
    simp [statusLine]
  have h2 := cutAt_append reason (not_mem_decimal (n := code) (c := SP) (by decide))
  simp only [readStatusLine, h1, cutAt_append _ hv, h2, Option.bind_some, ofDigits_decimal]
  rw [if_pos ⟨length_decimal_code hc, hd⟩]

theorem cr_statusLine {version reason : Bytes} {code : ℕ} (hv : CR ∉ version) (hr : CR ∉ reason) :
    CR ∉ statusLine version code reason := by
  have hsep : CR ≠ SP := by decide
  simp only [statusLine, List.append_assoc, List.cons_append, List.mem_append, List.mem_cons]
  rintro (h | h | h | h | h)
  · exact hv h
  · exact hsep h
  · exact not_mem_decimal (by decide) h
  · exact hsep h
  · exact hr h

/-- **What is rendered is read back**, and nothing of the stream after it. -/
theorem readMessage_render {m : Message} (h : m.WF) (rest : Bytes) :
    readMessage (m.render ++ rest) = some (m, rest) := by
  obtain ⟨version, code, reason, fields, body⟩ := m
  obtain ⟨⟨hv, hv'⟩, hc, hr, hf, hb⟩ := h
  simp only at hv hv' hc hr hf hb
  have hcr : CR ∉ statusLine version code reason := cr_statusLine hv' hr
  have hline := cutLine_append (fieldLines fields ++ CRLF ++ body ++ rest) hcr
  have hsplit := splitHead_fieldLines (fun f hmem => (hf f hmem).2) (body ++ rest)
  rw [← List.append_assoc] at hsplit
  have hfields := mapM_readField fun f hmem => (hf f hmem).1
  have hrender : Message.render ⟨version, code, reason, fields, body⟩ ++ rest =
      statusLine version code reason ++ CR :: LF :: (fieldLines fields ++ CRLF ++ body ++ rest) := by
    simp [Message.render]
  simp only [readMessage, hrender, hline, readStatusLine_statusLine hv hc, hsplit, hfields,
    Option.bind_some]
  simp [List.isPrefixOf, ← hb]

/-! ### Header lines -/

/-- The lines after the first one of `s`, up to the empty line. -/
def headerLines (s : Bytes) : List Bytes :=
  match cutLine s with
  | some (_, s) => (splitHead s).1
  | none => []

theorem headerLines_render {m : Message} (h : m.WF) (rest : Bytes) :
    headerLines (m.render ++ rest) = m.fields.map fieldLine := by
  have hcr : CR ∉ statusLine m.version m.code m.reason := cr_statusLine h.version.2 h.reason
  have hline := cutLine_append (fieldLines m.fields ++ CRLF ++ (m.body ++ rest)) hcr
  have hsplit := splitHead_fieldLines (fun f hf => (h.fields f hf).2) (m.body ++ rest)
  have hrender : m.render ++ rest = statusLine m.version m.code m.reason ++
      CR :: LF :: (fieldLines m.fields ++ CRLF ++ (m.body ++ rest)) := by
    simp [Message.render]
  simp only [headerLines, hrender, hline, hsplit]

theorem mem_map_fieldLine {f : Bytes × Bytes} {fs : List (Bytes × Bytes)} (hf : COLON ∉ f.1)
    (hfs : ∀ g ∈ fs, COLON ∉ g.1) : fieldLine f ∈ fs.map fieldLine ↔ f ∈ fs := by
  refine ⟨fun h => ?_, fun h => List.mem_map.2 ⟨f, h, rfl⟩⟩
  obtain ⟨g, hg, hline⟩ := List.mem_map.1 h
  have hread := readField_fieldLine hf
  rw [← hline, readField_fieldLine (hfs g hg)] at hread
  rwa [← Option.some.inj hread]

end HttpServer.Lib

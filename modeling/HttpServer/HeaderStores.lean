import HttpServer.Lib.CInt
import HttpServer.BuilderSem

/-!
# The stores of the header block

`construct` puts the header block together in a buffer that it resizes for every line.  The model of
this module has the blocks, with what memory contains that was not written, and the accesses that
write to them.  Every call of `traverse_hashmap` stays inside its block (`traverse_calls`); the
buffer is then resized to the length of the text, with no room for its NUL, which lands one byte
behind it (`last_access`).
-/

namespace HttpServer

open Lib HttpResponseBuilder

/-- `strncat(block, src, n)`, for a C string `src`: the block after it, and the access that writes. -/
def strncat (block src : Bytes) (n : ℕ) : Except Fault (Bytes × Access) :=
  (readStr block).map fun text =>
    (storeAt block text.length (src.take n ++ [0]),
      ⟨text.length, (src.take n).length + 1, block.length⟩)

/-- An addition in `int`, which must not overflow. -/
def addInt (a b : ℤ) : Except Fault ℤ :=
  if -2 ^ 31 ≤ a + b ∧ a + b < 2 ^ 31 then .ok (a + b) else .error .badAlloc

/-- One call of `traverse_hashmap`: the accesses that write, and `*buffer` and `*current_size` after
it. -/
structure TraverseCall where
  accesses : List Access
  buffer : Option Bytes
  currentSize : ℤ

/-- `traverse_hashmap`: `total_size` is a `size_t`, `*current_size` an `int`. -/
def traverseStores (junk : ℕ → UInt8) (node : HashmapNode Bytes) (s : Option Bytes × ℤ) :
    Except Fault TraverseCall := do
  let (buffer, currentSize) := s
  let totalSize := toSize (currentSize + node.key.length + 2 + node.data.length + 2)
  let buffer := reallocBytes junk (buffer.getD []) (toSize (totalSize + 1))
  let first : List Access := if currentSize = 0 then [⟨0, 1, buffer.length⟩] else []
  let buffer := if currentSize = 0 then storeAt buffer 0 [0] else buffer
  let currentSize := toInt totalSize
  -- `sprintf` into the `1 + total_size` bytes of `new_buffer`
  let newBuffer := node.key.takeWhile (· ≠ 0) ++ lit ": " ++ node.data.takeWhile (· ≠ 0) ++ CRLF
  let printed : Access := ⟨0, newBuffer.length + 1, toSize (1 + totalSize)⟩
  let (buffer, appended) ← strncat buffer newBuffer totalSize
  .ok ⟨first ++ [printed, appended], some buffer, currentSize⟩

/-- The calls of a traversal, and `buffer` and `map_to_buffer_size` after them. -/
def traverseCalls (junk : ℕ → UInt8) : List (HashmapNode Bytes) → Option Bytes × ℤ →
    Except Fault (List TraverseCall × Option Bytes × ℤ)
  | [], s => .ok ([], s)
  | node :: nodes, s => do
    let call ← traverseStores junk node s
    let (calls, s) ← traverseCalls junk nodes (call.buffer, call.currentSize)
    .ok (call :: calls, s)

/-- The header block of `construct`: the calls of `traverse_hashmap`, the access of the last
`strncat`, and the block. -/
def headerStores (junk : ℕ → UInt8) (headers : Hashmap Bytes) :
    Except Fault (List TraverseCall × Access × Bytes) := do
  let (calls, buffer, mapToBufferSize) ← traverseCalls junk headers.nodes (none, 0)
  -- Add empty line
  let mapToBufferSize ← addInt mapToBufferSize 2
  let buffer := reallocBytes junk (buffer.getD []) (toSize mapToBufferSize)
  let (buffer, appended) ← strncat buffer CRLF (toSize mapToBufferSize)
  .ok (calls, appended, buffer)

/-- The buffer is a C string of `current_size` bytes in an allocation of `current_size + 1`. -/
def HoldsExactly (buffer : Option Bytes) (currentSize : ℤ) : Prop :=
  ∃ text, NulFree text ∧ buffer = some (text ++ [0]) ∧ (text.length : ℤ) = currentSize

/-- Every byte is written inside the block allocated at that moment, and after each call of
`traverse_hashmap` the buffer holds exactly `current_size` bytes. -/
def AssemblesInside (junk : ℕ → UInt8) (headers : Hashmap Bytes) : Prop :=
  ∃ calls last block, headerStores junk headers = .ok (calls, last, block) ∧
    (∀ call ∈ calls, (∀ t ∈ call.accesses, t.Inside) ∧
      HoldsExactly call.buffer call.currentSize) ∧ last.Inside

variable (junk : ℕ → UInt8) {node : HashmapNode Bytes} {nodes : List (HashmapNode Bytes)}
  {headers : Hashmap Bytes} {text src post : Bytes} {n : ℕ}

/-! ### One call -/

theorem strncat_text (htext : NulFree text) (hn : src.length ≤ n) :
    strncat (text ++ 0 :: post) src n =
      .ok (storeAt (text ++ 0 :: post) text.length (src ++ [0]),
        ⟨text.length, src.length + 1, (text ++ 0 :: post).length⟩) := by
  simp only [strncat, readStr_text htext, Except.map, List.take_of_length_le hn]

/-- A text and its NUL, written over the NUL of the text before, when there is room. -/
theorem storeAt_text (h : text.length + (src.length + 1) = (text ++ 0 :: post).length) :
    storeAt (text ++ 0 :: post) text.length (src ++ [0]) = text ++ src ++ [0] := by
  have hlen : (src ++ [0]).length = src.length + 1 := by simp
  have hle : (src ++ [0]).length ≤ (text ++ 0 :: post).length - text.length := by omega
  unfold storeAt
  rw [List.take_left, List.take_of_length_le hle, List.drop_eq_nil_of_le (by omega)]
  simp

/-- The state before a call: no buffer yet, or one that holds the text so far. -/
def Assembled (text : Bytes) (s : Option Bytes × ℤ) : Prop :=
  s.2 = text.length ∧ (text = [] ∨ s.1 = some (text ++ [0]))

def nodeLine (node : HashmapNode Bytes) : Bytes := fieldLine (node.key, node.data) ++ CRLF

theorem length_nodeLine (node : HashmapNode Bytes) :
    (nodeLine node).length = node.key.length + 2 + node.data.length + 2 := by
  simp [nodeLine, length_fieldLine]

theorem toSize_total (h : (text ++ nodeLine node).length < 2 ^ 31) :
    toSize ((text.length : ℤ) + node.key.length + 2 + node.data.length + 2) =
      text.length + (nodeLine node).length := by
  have hlen := length_nodeLine node
  rw [List.length_append] at h
  have hcast := toSize_of_fits (n := text.length + (node.key.length + 2 + node.data.length + 2))
    (by omega)
  rw [hlen, ← hcast]
  congr 1
  push_cast
  ring

theorem reallocBytes_grow {block : Bytes} {size : ℕ} (h : block.length ≤ size) :
    ∃ added, reallocBytes junk block size = block ++ added ∧
      (block ++ added).length = size := by
  refine ⟨(List.range' block.length (size - block.length)).map junk, ?_, ?_⟩
  · rw [reallocBytes, List.take_of_length_le h]
  · simp only [List.length_append, List.length_map, List.length_range']
    omega

theorem prepared_block {s : Option Bytes × ℤ} (h : Assembled text s) {size : ℕ}
    (hsize : text.length < size) : ∃ post,
      (if s.2 = 0 then storeAt (reallocBytes junk (s.1.getD []) size) 0 [0]
        else reallocBytes junk (s.1.getD []) size) = text ++ 0 :: post ∧
      (text ++ 0 :: post).length = size := by
  obtain ⟨hcount, hbuffer⟩ := h
  by_cases htext : text = []
  · subst htext
    obtain ⟨c, rest, hblock⟩ : ∃ c rest, reallocBytes junk (s.1.getD []) size = c :: rest := by
      apply List.exists_cons_of_length_pos
      rw [reallocBytes_length]
      exact hsize
    have hlen := @reallocBytes_length (s.1.getD []) size junk
    rw [hblock, List.length_cons] at hlen
    rw [if_pos (by simpa using hcount), hblock]
    exact ⟨rest, by simp [storeAt], by simpa using hlen⟩
  · have hbuffer' := hbuffer.resolve_left htext
    have hne : ¬ s.2 = 0 := by
      rw [hcount]
      simpa using htext
    obtain ⟨added, hgrow, hlen⟩ :=
      reallocBytes_grow junk (show (text ++ [0]).length ≤ size by simpa using hsize)
    rw [if_neg hne, hbuffer', Option.getD_some, hgrow]
    rw [List.append_assoc] at hlen ⊢
    exact ⟨added, rfl, hlen⟩

/-- One call of `traverse_hashmap` appends the line of its node, and stays inside its blocks. -/
theorem traverseStores_step {s : Option Bytes × ℤ} (h : Assembled text s) (htext : NulFree text)
    (hnode : NulFree node.key ∧ NulFree node.data)
    (hfits : (text ++ nodeLine node).length < 2 ^ 31) :
    ∃ accesses, traverseStores junk node s = .ok ⟨accesses, some (text ++ nodeLine node ++ [0]),
        (text ++ nodeLine node).length⟩ ∧ ∀ t ∈ accesses, t.Inside := by
  obtain ⟨buffer, currentSize⟩ := s
  have hcount : currentSize = text.length := h.1
  have htotal : toSize (currentSize + node.key.length + 2 + node.data.length + 2) =
      text.length + (nodeLine node).length := by
    rw [hcount]
    exact toSize_total hfits
  rw [List.length_append] at hfits ⊢
  have hsize : toSize ((text.length + (nodeLine node).length : ℕ) + 1) =
      text.length + (nodeLine node).length + 1 :=
    mod_cast toSize_of_fits (n := text.length + (nodeLine node).length + 1) (by omega)
  have hsize' : toSize (1 + (text.length + (nodeLine node).length : ℕ)) =
      text.length + (nodeLine node).length + 1 := by
    rw [add_comm]
    exact hsize
  have hline : node.key ++ lit ": " ++ node.data ++ CRLF = nodeLine node := by
    simp [nodeLine, fieldLine, lit]
  obtain ⟨post, hblock, hblen⟩ := prepared_block junk h
    (show text.length < text.length + (nodeLine node).length + 1 by omega)
  have hfill : text.length + ((nodeLine node).length + 1) = (text ++ 0 :: post).length := by
    rw [hblen]
    omega
  simp only [traverseStores, htotal, hsize, hsize', hnode.1.takeWhile, hnode.2.takeWhile, hline]
  simp only at hblock
  rw [hblock, strncat_text htext (by omega), storeAt_text hfill,
    toInt_of_fits (n := text.length + (nodeLine node).length) (by omega)]
  refine ⟨_, rfl, ?_⟩
  intro t ht
  rcases List.mem_append.1 ht with ht | ht
  · split at ht
    · rw [List.mem_singleton.1 ht]
      simp only [Access.Inside, reallocBytes_length]
      omega
    · cases ht
  · simp only [List.mem_cons, List.not_mem_nil, or_false] at ht
    rcases ht with rfl | rfl
    · simp only [Access.Inside]
      omega
    · simp only [Access.Inside]
      omega

/-! ### The traversal -/

theorem traverse_calls (nodes : List (HashmapNode Bytes))
    (hnodes : ∀ n ∈ nodes, NulFree n.key ∧ NulFree n.data) {s : Option Bytes × ℤ}
    (h : Assembled text s) (htext : NulFree text)
    (hfits : (text ++ nodes.flatMap nodeLine).length < 2 ^ 31) :
    ∃ calls s', traverseCalls junk nodes s = .ok (calls, s') ∧
      Assembled (text ++ nodes.flatMap nodeLine) s' ∧
      ∀ call ∈ calls, (∀ t ∈ call.accesses, t.Inside) ∧
        HoldsExactly call.buffer call.currentSize := by
  induction nodes generalizing text s with
  | nil =>
    refine ⟨[], s, rfl, ?_, by simp⟩
    simpa using h
  | cons node nodes ih =>
    have hnode := hnodes node (by simp)
    have hline : NulFree (nodeLine node) := by
      have hsep : NulFree [COLON, SP] ∧ NulFree CRLF := by decide
      have hsplit : nodeLine node = node.key ++ [COLON, SP] ++ node.data ++ CRLF := by
        simp [nodeLine, fieldLine]
      rw [hsplit]
      exact nulFree_append.2
        ⟨nulFree_append.2 ⟨nulFree_append.2 ⟨hnode.1, hsep.1⟩, hnode.2⟩, hsep.2⟩
    have htext' : NulFree (text ++ nodeLine node) := nulFree_append.2 ⟨htext, hline⟩
    rw [List.flatMap_cons, ← List.append_assoc] at hfits ⊢
    have hfits' : (text ++ nodeLine node).length < 2 ^ 31 := by
      rw [List.length_append] at hfits
      omega
    obtain ⟨accesses, hcall, hinside⟩ := traverseStores_step junk h htext hnode hfits'
    obtain ⟨calls, s', hcalls, hend, hrest⟩ :=
      ih (fun n hn => hnodes n (List.mem_cons_of_mem _ hn))
        (show Assembled (text ++ nodeLine node) (some (text ++ nodeLine node ++ [0]),
          ((text ++ nodeLine node).length : ℤ)) from ⟨rfl, Or.inr rfl⟩) htext' hfits
    refine ⟨⟨accesses, some (text ++ nodeLine node ++ [0]), (text ++ nodeLine node).length⟩ :: calls,
      s', ?_, hend, ?_⟩
    · simp only [traverseCalls, hcall, bind, Except.bind, hcalls]
    · intro call hmem
      rcases List.mem_cons.1 hmem with rfl | hmem
      · exact ⟨hinside, _, htext', rfl, rfl⟩
      · exact hrest call hmem

/-- The last `strncat` of a buffer that holds exactly its text writes one byte behind the block. -/
theorem last_strncat {buffer : Option Bytes} {currentSize size : ℤ}
    (h : HoldsExactly buffer currentSize) (hsize : addInt currentSize 2 = .ok size) :
    ∃ block text, NulFree text ∧ buffer = some (text ++ [0]) ∧
      strncat (reallocBytes junk (buffer.getD []) (toSize size)) CRLF (toSize size) =
        .ok (block, ⟨text.length, 3, text.length + 2⟩) ∧ block = text ++ CRLF := by
  obtain ⟨text, htext, rfl, rfl⟩ := h
  unfold addInt at hsize
  split at hsize
  · rename_i hrange
    obtain rfl : (text.length : ℤ) + 2 = size := Except.ok.inj hsize
    have hfits : toSize ((text.length : ℤ) + 2) = text.length + 2 :=
      mod_cast toSize_of_fits (n := text.length + 2) (by omega)
    obtain ⟨added, hgrow, hlen⟩ :=
      reallocBytes_grow junk (show (text ++ [0]).length ≤ text.length + 2 by simp)
    rw [hfits, Option.getD_some, hgrow]
    have hassoc : text ++ [0] ++ added = text ++ 0 :: added := by simp
    rw [hassoc] at hlen ⊢
    have hcrlf : CRLF.length ≤ text.length + 2 := by simp
    rw [strncat_text htext hcrlf, hlen]
    refine ⟨_, text, htext, rfl, rfl, ?_⟩
    have htwo : (CRLF ++ [0]).take (text.length + 2 - text.length) = CRLF := by
      rw [Nat.add_sub_cancel_left]
      rfl
    unfold storeAt
    rw [List.take_left, hlen, htwo, List.drop_eq_nil_of_le (by simp [hlen]), List.append_nil]
  · cases hsize

/-! ### The header block -/

theorem traverseCalls_last {junk : ℕ → UInt8} {s s' : Option Bytes × ℤ} {calls : List TraverseCall}
    (h : traverseCalls junk nodes s = .ok (calls, s')) :
    nodes = [] ∨ ∃ call ∈ calls, s' = (call.buffer, call.currentSize) := by
  induction nodes generalizing s calls with
  | nil => exact Or.inl rfl
  | cons node nodes ih =>
    right
    obtain ⟨call, -, h⟩ := bind_eq_ok.1 h
    obtain ⟨⟨calls', s''⟩, hrest, h⟩ := bind_eq_ok.1 h
    cases h
    rcases ih hrest with rfl | ⟨last, hmem, hlast⟩
    · cases hrest
      exact ⟨call, by simp, rfl⟩
    · exact ⟨last, List.mem_cons_of_mem _ hmem, hlast⟩

/-- A header block that is put together inside its blocks is one of no lines. -/
theorem AssemblesInside.nodes_nil {junk : ℕ → UInt8} (h : AssemblesInside junk headers) :
    headers.nodes = [] := by
  obtain ⟨calls, last, block, hrun, hcalls, hlast⟩ := h
  unfold headerStores at hrun
  obtain ⟨⟨calls', buffer, size⟩, htraverse, hrun⟩ := bind_eq_ok.1 hrun
  obtain ⟨size', hsize, hrun⟩ := bind_eq_ok.1 hrun
  obtain ⟨⟨block', access⟩, hcat, hrun⟩ := bind_eq_ok.1 hrun
  cases hrun
  rcases traverseCalls_last htraverse with hnil | ⟨call, hmem, hstate⟩
  · exact hnil
  · cases hstate
    obtain ⟨_, text, -, -, hstrncat, -⟩ := last_strncat junk (hcalls call hmem).2 hsize
    rw [hcat] at hstrncat
    cases hstrncat
    simp only [Access.Inside] at hlast
    omega

theorem flatMap_nodeLine (headers : Hashmap Bytes) :
    headers.nodes.flatMap nodeLine = fieldLines headers.entries := by
  simp only [fieldLines, Hashmap.entries, List.flatMap_map]
  rfl

/-- A header block whose length is an `int` is put together with one byte outside, the last NUL; the
block then is the text of the model without blocks. -/
theorem last_access (hne : headers.entries ≠ [])
    (hfree : ∀ p ∈ headers.entries, NulFree p.1 ∧ NulFree p.2)
    (hfits : (fieldLines headers.entries).length + 2 < 2 ^ 31) (env : Env) :
    ∃ calls, headerStores junk headers = .ok (calls, ⟨(fieldLines headers.entries).length, 3,
        (fieldLines headers.entries).length + 2⟩, (headerBlock env headers).1.text) ∧
      ∀ call ∈ calls, (∀ t ∈ call.accesses, t.Inside) ∧
        HoldsExactly call.buffer call.currentSize := by
  have hnodes : ∀ n ∈ headers.nodes, NulFree n.key ∧ NulFree n.data := fun n hn =>
    hfree (n.key, n.data) (List.mem_map.2 ⟨n, hn, rfl⟩)
  obtain ⟨calls, s', hcalls, hend, hinside⟩ := traverse_calls junk headers.nodes hnodes
    (show Assembled [] (none, 0) from ⟨rfl, Or.inl rfl⟩) (by simp)
    (by rw [List.nil_append, flatMap_nodeLine]; omega)
  rw [List.nil_append, flatMap_nodeLine] at hend
  obtain ⟨hcount, hbuffer⟩ := hend
  have hbuffer' := hbuffer.resolve_left (fieldLines_ne_nil hne)
  have hlines : NulFree (fieldLines headers.entries) := nulFree_fieldLines hfree
  have hsize : addInt s'.2 2 = .ok (s'.2 + 2) := by
    rw [addInt, if_pos (by omega)]
  obtain ⟨block, text, -, htext, hstrncat, hblock⟩ :=
    last_strncat junk ⟨_, hlines, hbuffer', hcount.symm⟩ hsize
  rw [hbuffer'] at htext
  obtain rfl : fieldLines headers.entries = text :=
    List.append_cancel_right (Option.some.inj htext)
  refine ⟨calls, ?_, hinside⟩
  rw [headerBlock_text hne, ← hblock]
  simp only [headerStores, hcalls, hsize, hstrncat, bind, Except.bind]

/-- No header block of any lines is put together inside its blocks. -/
theorem not_assemblesInside (junk : ℕ → UInt8) {headers : Hashmap Bytes}
    (hne : headers.entries ≠ []) : ¬ AssemblesInside junk headers := by
  intro h
  apply hne
  rw [Hashmap.entries, h.nodes_nil]
  rfl

/-- The map that a closing response without headers is given. -/
def closeMap : Hashmap Bytes := Hashmap.create.set (lit "Connection") (lit "close")

theorem nulFree_closeMap : ∀ p ∈ closeMap.entries, NulFree p.1 ∧ NulFree p.2 := by
  rw [closeMap, entries_close]
  decide

theorem not_assemblesInside_close : ¬ AssemblesInside (fun _ => 0) closeMap :=
  not_assemblesInside (fun _ => 0) (by simp [closeMap, entries_close])

/-- The 21 bytes of the header block `Connection: close` are put into a block of 21 bytes, and the NUL
behind them outside. -/
theorem closeMap_last_access : ∃ calls block,
    headerStores (fun _ => 0) closeMap = .ok (calls, ⟨19, 3, 21⟩, block) ∧
      ¬ Access.Inside ⟨19, 3, 21⟩ ∧ ¬ AssemblesInside (fun _ => 0) closeMap := by
  have hentries : closeMap.entries = [connectionClose] := entries_close
  have hlen : (fieldLines closeMap.entries).length = 19 := by
    rw [hentries]
    decide
  obtain ⟨calls, hrun, -⟩ := last_access (fun _ => 0) (by simp [hentries])
    nulFree_closeMap (by omega) Env.plain
  rw [hlen] at hrun
  refine ⟨calls, _, hrun, by decide, ?_⟩
  intro h
  have hnil : closeMap.entries = [] := by
    rw [Hashmap.entries, h.nodes_nil]
    rfl
  rw [hentries] at hnil
  cases hnil

end HttpServer

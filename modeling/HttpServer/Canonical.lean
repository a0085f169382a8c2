import HttpServer.Lib.Lines
import HttpServer.Lookups

/-!
# The canonical text of a request

The parser accepts more than it keeps: spaces and line ends in front of tokens, lines without a colon,
a head without an end, names and values that are too long.  `HttpRequest.print` writes down what is
kept, and nothing of the rest matters: every request that is accepted is parsed again from its own
text, in the same order of headers, and answered the same (`parse_print`).
-/

namespace HttpServer

open Lib

/-- The text of a parsed request; the version still has its CR, and the body is a C string. -/
def HttpRequest.print (request : HttpRequest) : Bytes :=
  request.method ++ SP :: (request.requestTarget ++ SP :: (request.httpVersion ++ LF ::
    (fieldLines request.headers.entries ++ CRLF ++
      (request.data.map (·.takeWhile (· ≠ 0))).getD [])))

/-! ### The order of the headers -/

/-- The pairs in the order of the buckets of their keys. -/
def byBucket (ps : List (Bytes × Bytes)) : List (Bytes × Bytes) :=
  (List.range DEFAULT_NUMBER_OF_BUCKETS).flatMap fun i => ps.filter fun p => bucketOf p.1 = i

theorem byBucket_byBucket (ps : List (Bytes × Bytes)) : byBucket (byBucket ps) = byBucket ps := by
  unfold byBucket
  refine List.flatMap_congr fun i hi => ?_
  exact filter_flatMap_range (f := fun p : Bytes × Bytes => bucketOf p.1) (List.mem_range.1 hi)
    fun j _ p hp => by simpa using (List.mem_filter.1 hp).2

theorem mem_byBucket {ps : List (Bytes × Bytes)} {p : Bytes × Bytes} :
    p ∈ byBucket ps ↔ p ∈ ps := by
  unfold byBucket
  rw [List.mem_flatMap]
  constructor
  · rintro ⟨i, -, hp⟩
    exact (List.mem_filter.1 hp).1
  · intro hp
    exact ⟨bucketOf p.1, List.mem_range.2 (Hashmap.bucketOf_lt p.1), List.mem_filter.2 ⟨hp, by simp⟩⟩

theorem holds_headerMap (ps : List (Bytes × Bytes)) : (headerMap ps).Holds fun i =>
    (ps.filter fun p => bucketOf p.1 = i).map fun p => ⟨p.1, p.2, defaultHash p.1⟩ := by
  induction ps using List.reverseRecOn with
  | nil => exact Hashmap.holds_create
  | append_singleton ps p ih =>
    have hset : headerMap (ps ++ [p]) = (headerMap ps).set p.1 p.2 := by
      rw [headerMap, setAll_append]
      rfl
    have hholds := ih.set p.1 p.2
    rw [hset]
    convert hholds using 1
    funext i
    by_cases hi : i = bucketOf p.1
    · subst hi
      simp
    · have hne : ¬ bucketOf p.1 = i := fun h => hi h.symm
      simp [Function.update_of_ne hi, hne]

/-- **The order of a traversal** is that of the buckets. -/
theorem entries_headerMap (ps : List (Bytes × Bytes)) : (headerMap ps).entries = byBucket ps := by
  unfold Hashmap.entries byBucket
  rw [(holds_headerMap ps).nodes, List.map_flatMap]
  refine List.flatMap_congr fun i _ => ?_
  rw [List.map_map]
  exact List.map_id _

/-- The same pairs, in the order of a traversal, make a map with the same lookups. -/
theorem get_byBucket (ps : List (Bytes × Bytes)) {k : Bytes} (hk : NulFree k) :
    (headerMap (byBucket ps)).get k = (headerMap ps).get k := by
  have hwf : (headerMap ps).WF := ⟨_, holds_headerMap ps⟩
  rw [get_headerMap hk, ← entries_headerMap, Hashmap.get_eq_find? hwf hk]

/-! ### The lines -/

structure Kept (f : Bytes × Bytes) : Prop where
  name : COLON ∉ f.1 ∧ ¬ CRLF <:+: f.1 ∧ NulFree f.1 ∧ f.1.length ≤ 255
  value : ¬ CRLF <:+: f.2 ∧ NulFree f.2 ∧ f.2.length ≤ 255 ∧ f.2.head? ≠ some SP

theorem kept_of_fieldOf {l : Bytes} {f : Bytes × Bytes} (hfree : NulFree l) (hl : ¬ CRLF <:+: l)
    (h : fieldOf l = some f) : Kept f := by
  unfold fieldOf at h
  split at h
  · cases h
    set name := l.takeWhile (· ≠ COLON) with hname
    set value := ((l.dropWhile (· ≠ COLON)).drop 1).dropWhile (· = SP) with hvalue
    have hname' : name.take 255 <:+: l :=
      (List.take_prefix _ _).isInfix.trans (List.takeWhile_prefix _).isInfix
    have hvalue' : value.take 255 <:+: l := (List.take_prefix _ _).isInfix.trans
      ((List.dropWhile_suffix _).isInfix.trans
        ((List.drop_suffix _ _).isInfix.trans (List.dropWhile_suffix _).isInfix))
    refine ⟨⟨?_, fun h => hl (h.trans hname'), hfree.sublist hname'.sublist, ?_⟩,
      ⟨fun h => hl (h.trans hvalue'), hfree.sublist hvalue'.sublist, ?_, ?_⟩⟩
    · intro hmem
      have := List.mem_takeWhile_imp (List.mem_of_mem_take hmem)
      simp at this
    · rw [List.length_take]
      omega
    · rw [List.length_take]
      omega
    · intro hhead
      have hfirst : value.head? = some SP := by
        cases hv : value with
        | nil => simp [hv] at hhead
        | cons c v => simpa [hv] using hhead
      have hnot := List.head?_dropWhile_not (fun c => decide (c = SP))
        ((l.dropWhile (· ≠ COLON)).drop 1)
      rw [← hvalue, hfirst] at hnot
      simp at hnot
  · cases h

theorem kept_of_mem_fields {s : Bytes} (hs : NulFree s) {f : Bytes × Bytes} (hf : f ∈ fields s) :
    Kept f := by
  obtain ⟨l, hl, hfield⟩ := List.mem_filterMap.1 hf
  have hlines := headLines_splitHead s
  have hfree : NulFree l := by
    intro hmem
    refine hs ?_
    rw [hlines.text]
    exact List.mem_append_left _ (List.mem_flatMap.2 ⟨l, hl, List.mem_append_left _ hmem⟩)
  exact kept_of_fieldOf hfree (hlines.line l hl).2 hfield

theorem fieldOf_kept {f : Bytes × Bytes} (h : Kept f) : fieldOf (fieldLine f) = some f := by
  obtain ⟨htake, hdrop⟩ := takeWhile_ne_append (SP :: f.2) h.name.1
  have hmem : COLON ∈ fieldLine f := by simp [fieldLine]
  have hvalue : (SP :: f.2).dropWhile (· = SP) = f.2 := by
    rw [List.dropWhile_cons_of_pos (by simp), dropWhile_value h.value.2.2.2]
  rw [fieldOf, if_pos hmem, fieldLine, htake, hdrop, List.drop_one, List.tail_cons, hvalue,
    List.take_of_length_le h.name.2.2.2, List.take_of_length_le h.value.2.2.1]

theorem splitHead_kept {fs : List (Bytes × Bytes)} (h : ∀ f ∈ fs, Kept f) (rest : Bytes) :
    fields (fieldLines fs ++ CRLF ++ rest) = fs ∧
      afterHead (fieldLines fs ++ CRLF ++ rest) = CRLF ++ rest := by
  have hsep : COLON ∉ CRLF ∧ SP ∉ CRLF := by decide
  have hsplit := splitHead_lines (fs.map fieldLine) rest fun l hl => by
    obtain ⟨f, hf, rfl⟩ := List.mem_map.1 hl
    refine ⟨by simp [fieldLine], not_infix_append_cons hsep.1 (h f hf).name.2.1 ?_⟩
    exact not_infix_append_cons (a := []) hsep.2 (by decide) (h f hf).value.1
  rw [List.flatMap_map] at hsplit
  refine ⟨?_, by rw [afterHead, fieldLines, hsplit]⟩
  rw [fields, fieldLines, hsplit, List.filterMap_map]
  calc fs.filterMap (fieldOf ∘ fieldLine) = fs.filterMap some :=
        List.filterMap_congr fun f hf => fieldOf_kept (h f hf)
    _ = fs := List.filterMap_some

/-! ### The request line and the body -/

theorem requestLine_print {m t v : Bytes} (hm : m ≠ [] ∧ SP ∉ m) (ht : t ≠ [] ∧ SP ∉ t)
    (hv : v ≠ [] ∧ LF ∉ v) (block : Bytes) :
    requestLine (m ++ SP :: (t ++ SP :: (v ++ LF :: block))) = some (m, t, v, block) := by
  have hno : ∀ {s : Bytes} {c : UInt8}, c ∉ s → ∀ x ∈ s, (fun d => decide (d = c)) x = false := by
    intro s c hs x hx
    have : x ≠ c := fun hxc => hs (hxc ▸ hx)
    simpa using this
  have h₁ := token_append (d := fun c => decide (c = SP)) (c := SP) (t ++ SP :: (v ++ LF :: block))
    hm.1 (hno hm.2) (by simp)
  have h₂ := token_append (d := fun c => decide (c = SP)) (c := SP) (v ++ LF :: block)
    ht.1 (hno ht.2) (by simp)
  have h₃ := token_append (d := fun c => decide (c = LF)) (c := LF) block hv.1 (hno hv.2) (by simp)
  simp only [requestLine, h₁, h₂, h₃]

theorem token_ok {c : UInt8} {s t r : Bytes} (h : token (· = c) s = some (t, r)) :
    t ≠ [] ∧ c ∉ t := by
  have hno : ∀ {t : Bytes}, (∀ x ∈ t, decide (x = c) = false) → c ∉ t := by
    intro t ht hc
    simpa using ht c hc
  rcases token_cases (fun x => decide (x = c)) s with ⟨-, ht⟩ |
    ⟨t', hne, htd, ⟨-, ht⟩ | ⟨d, r', -, -, ht⟩⟩ <;> rw [ht] at h
  · cases h
  · cases h
    exact ⟨hne, hno htd⟩
  · cases h
    exact ⟨hne, hno htd⟩

/-- **The body is copied again** from its own text, also when its terminator was copied with it. -/
theorem copyBody_print {rest data : Bytes} {n : ℤ} (hrest : NulFree rest)
    (h : copyBody rest n = .ok data) : copyBody (CRLF ++ data.takeWhile (· ≠ 0)) n = .ok data := by
  obtain ⟨⟨⟨h0, hmax⟩, hlen⟩, rfl⟩ := copyBody_eq_ok.1 h
  have hdrop : (rest.drop 2).length = rest.length - 2 := List.length_drop
  have hfree : NulFree (rest.drop 2) := hrest.sublist (List.drop_sublist _ _)
  rw [copyBody_eq_ok]
  by_cases hn : n.toNat ≤ (rest.drop 2).length
  · -- the declared bytes are there
    have htake : (rest.drop 2 ++ [0]).take n.toNat = (rest.drop 2).take n.toNat :=
      List.take_append_of_le_length hn
    have hbody := (takeWhile_ne_append [] (hfree.sublist (List.take_sublist n.toNat _))).1
    have hcut : ((rest.drop 2).take n.toNat).length = n.toNat := by
      rw [List.length_take]
      omega
    rw [htake, hbody]
    refine ⟨⟨⟨h0, hmax⟩, ?_⟩, ?_⟩
    · simp only [List.length_append, List.length_cons, List.length_nil, hcut]
      omega
    · have hskip : (CRLF ++ (rest.drop 2).take n.toNat).drop 2 = (rest.drop 2).take n.toNat := rfl
      rw [hskip, List.take_append_of_le_length hcut.ge, List.take_of_length_le hcut.le]
  · have hall : (rest.drop 2 ++ [0]).take n.toNat = rest.drop 2 ++ [0] :=
      List.take_of_length_le (by simp only [List.length_append, List.length_singleton]; omega)
    have hbody : (rest.drop 2 ++ [0] ++ [0]).takeWhile (· ≠ 0) = rest.drop 2 := by
      rw [List.append_assoc]
      exact (takeWhile_ne_append [0] hfree).1
    rw [hall, hbody]
    refine ⟨⟨⟨h0, hmax⟩, ?_⟩, ?_⟩
    · simp only [List.length_append, List.length_cons, List.length_nil]
      omega
    · have hskip : (CRLF ++ rest.drop 2).drop 2 = rest.drop 2 := rfl
      rw [hskip, hall]

/-! ### The round trip -/

/-- **Every accepted request is parsed again from its own text**: with the same tokens, the same
headers in the same order, the same lookups and the same body; its own text is then the same, and the
server does the same with either text. -/
theorem parse_print {s : Bytes} {request : HttpRequest} (hs : NulFree s)
    (h : httpRequestFromBuffer s = .ok (some request)) :
    (∃ again, httpRequestFromBuffer request.print = .ok (some again) ∧
      (again.method = request.method ∧ again.requestTarget = request.requestTarget ∧
        again.httpVersion = request.httpVersion ∧ again.data = request.data) ∧
      again.headers.entries = request.headers.entries ∧
      (∀ k, NulFree k → again.headers.getCstr k = request.headers.getCstr k) ∧
      again.print = request.print) ∧
    ∀ env directory w,
      serveChunk env directory w request.print = serveChunk env directory w s := by
  have hdecode := h
  rw [httpRequestFromBuffer_eq hs] at hdecode
  obtain ⟨m, t, v, block, data, hline, rfl⟩ := request_of_decode hdecode
  obtain ⟨hm, ht, hv, hblock⟩ := nulFree_requestLine hs hline
  obtain ⟨r₁, r₂, htok₁, htok₂, htok₃⟩ := requestLine_eq_some hline
  set ps := fields block with hps
  set body := (data.map (·.takeWhile (· ≠ 0))).getD [] with hbody
  have hkept : ∀ f ∈ byBucket ps, Kept f := fun f hf =>
    kept_of_mem_fields hblock (mem_byBucket.1 hf)
  obtain ⟨hfields, hafter⟩ := splitHead_kept hkept body
  have hprint : HttpRequest.print ⟨m, t, v, headerMap ps, data⟩ =
      m ++ SP :: (t ++ SP :: (v ++ LF :: (fieldLines (byBucket ps) ++ CRLF ++ body))) := by
    rw [HttpRequest.print, entries_headerMap]
  have hline' := requestLine_print (token_ok htok₁) (token_ok htok₂) (token_ok htok₃)
    (fieldLines (byBucket ps) ++ CRLF ++ body)
  have hfree : NulFree (HttpRequest.print ⟨m, t, v, headerMap ps, data⟩) := by
    have hsep : ¬ SP = 0 ∧ ¬ CR = 0 ∧ ¬ LF = 0 := by decide
    have hlines : NulFree (fieldLines (byBucket ps)) :=
      nulFree_fieldLines fun f hf => ⟨(hkept f hf).name.2.2.1, (hkept f hf).value.2.1⟩
    have hbodyfree : NulFree body := by
      rw [hbody]
      cases data with
      | none => exact nulFree_nil
      | some d => exact nulFree_takeWhile d
    rw [hprint]
    simp [hm, ht, hv, hlines, hbodyfree, hsep]
  have hget : ∀ k, NulFree k → (headerMap (byBucket ps)).getCstr k = (headerMap ps).getCstr k :=
    fun k hk => get_byBucket ps hk
  have hlength : declaredLength (fieldLines (byBucket ps) ++ CRLF ++ body) = declaredLength block := by
    have hleft := @contentLength_headerMap m t v
      (fieldLines (byBucket ps) ++ CRLF ++ body) data
    have hright := @contentLength_headerMap m t v block data
    rw [← hleft, ← hright, hfields]
    exact congrArg (fun value => value.bind parseLong) (hget (lit "Content-Length") (by decide))
  have hparse : httpRequestFromBuffer (HttpRequest.print ⟨m, t, v, headerMap ps, data⟩) =
      .ok (some ⟨m, t, v, headerMap (byBucket ps), data⟩) := by
    rw [httpRequestFromBuffer_eq hfree, hprint]
    cases hn : declaredLength block with
    | none =>
      rw [decode_of_line hline hn] at hdecode
      cases hdecode
      rw [decode_of_line hline' (hlength.trans hn), hfields]
    | some n =>
      rw [decode_of_length hline hn] at hdecode
      obtain ⟨d, hcopy, heq⟩ := map_eq_ok.1 hdecode
      cases heq
      have hrest : NulFree (afterHead block) := hblock.sublist (splitHead_suffix block).sublist
      rw [decode_of_length hline' (hlength.trans hn), hfields, hafter]
      have hcopy' := copyBody_print hrest hcopy
      have hsame : body = d.takeWhile (· ≠ 0) := rfl
      rw [hsame, hcopy']
      rfl
  have hentries : (headerMap (byBucket ps)).entries = (headerMap ps).entries := by
    rw [entries_headerMap, entries_headerMap, byBucket_byBucket]
  refine ⟨⟨_, hparse, ⟨rfl, rfl, rfl, rfl⟩, hentries, hget, ?_⟩, fun env directory w => ?_⟩
  · simp only [HttpRequest.print, hentries]
  · have hsame : SameRequest ⟨m, t, v, headerMap (byBucket ps), data⟩ ⟨m, t, v, headerMap ps, data⟩ :=
      ⟨rfl, rfl, rfl, fun k hk => hget k (lookedUp_ok hk).1⟩
    rw [serveChunk_of_some hfree hparse, serveChunk_of_some hs h, answer_congr hsame, hsame.closes]

/-- A request with more spaces than it needs, a line without colon and a head without end. -/
def untidy : Bytes := lit "  GET  / HTTP/1.1\nHost:a\r\nno colon\r\nB:  2\r\nC"

theorem parse_print_untidy : ∃ request again, httpRequestFromBuffer untidy = .ok (some request) ∧
    httpRequestFromBuffer request.print = .ok (some again) ∧ again.print = request.print ∧
    serveChunk Env.plain none World.empty request.print =
      serveChunk Env.plain none World.empty untidy := by
  have hfree : NulFree untidy := by decide
  have hparse : httpRequestFromBuffer untidy = .ok (some ⟨lit "GET", lit "/", lit "HTTP/1.1",
      headerMap [(lit "Host", lit "a"), (lit "B", lit "2")], none⟩) := by
    rw [httpRequestFromBuffer_eq hfree]
    rfl
  obtain ⟨⟨again, hagain, -, -, -, hprint⟩, hserve⟩ := parse_print hfree hparse
  exact ⟨_, again, hparse, hagain, hprint, hserve Env.plain none World.empty⟩

end HttpServer

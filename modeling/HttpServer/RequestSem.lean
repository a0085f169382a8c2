import HttpServer.Request
import HttpServer.HashmapSem

/-!
# The request parser on texts

What `parse_headers` and `http_request_from_buffer` compute, said of the text alone: the lines of the
head, the fields they carry, the request line as three tokens, and the body as what is left two bytes
into the rest of the head (`decode`).  The parser of `request.c` is shown to be `decode`
(`httpRequestFromBuffer_eq`), faults included; what follows about requests is proved of `decode`.
-/

namespace HttpServer

open Lib

/-! ### The fields of a head -/

/-- The field of a header line: the text before the first colon and the text after it without its
leading spaces, both cut to 255 bytes.  A line without colon has none. -/
def fieldOf (line : Bytes) : Option (Bytes × Bytes) :=
  if COLON ∈ line then
    some ((line.takeWhile (· ≠ COLON)).take 255,
      (((line.dropWhile (· ≠ COLON)).drop 1).dropWhile (· = SP)).take 255)
  else none

/-- The fields of the head that starts at `s`, in order. -/
def fields (s : Bytes) : List (Bytes × Bytes) := (splitHead s).1.filterMap fieldOf

/-- The text from the empty line that ends the head, or from its unterminated rest. -/
def afterHead (s : Bytes) : Bytes := (splitHead s).2

def setAll (m : Hashmap Bytes) (ps : List (Bytes × Bytes)) : Hashmap Bytes :=
  ps.foldl (fun m p => m.set p.1 p.2) m

theorem setAll_append (m : Hashmap Bytes) (ps qs : List (Bytes × Bytes)) :
    setAll m (ps ++ qs) = setAll (setAll m ps) qs :=
  List.foldl_append

section Loop

variable {s l r : Bytes}

theorem deref_text (pre post : Bytes) (c : UInt8) : deref (pre ++ c :: post) pre.length = .ok c := by
  simp [deref]

theorem sizeSub_add (a b : ℕ) : sizeSub (a + b) a = b := by simp [sizeSub]

theorem parseHeaders_line (pre r : Bytes) (hl : NulFree l) (hcolon : COLON ∈ l) :
    ∃ spaces k v, fieldOf l = some (k, v) ∧
      skipSpaces ((pre ++ l ++ CR :: LF :: r).drop
        (pre.length + (l.takeWhile (· ≠ COLON)).length + 1)) = .ok spaces ∧
      snprintfStr 256 (pre ++ l ++ CR :: LF :: r) pre.length (l.takeWhile (· ≠ COLON)).length = .ok k ∧
      snprintfStr 256 (pre ++ l ++ CR :: LF :: r)
        (pre.length + (l.takeWhile (· ≠ COLON)).length + 1 + spaces)
        (sizeSub (pre.length + l.length)
          (pre.length + (l.takeWhile (· ≠ COLON)).length + 1 + spaces)) = .ok v := by
  set k := l.takeWhile (· ≠ COLON) with hk
  obtain ⟨w, hw⟩ := dropWhile_ne_of_mem hcolon
  have hl' : l = k ++ COLON :: w := by rw [← hw, hk, List.takeWhile_append_dropWhile]
  set a := w.takeWhile (· = SP) with ha
  set v := w.dropWhile (· = SP) with hv
  have hw' : w = a ++ v := by rw [ha, hv, List.takeWhile_append_dropWhile]
  have hfree : NulFree k ∧ NulFree v := by
    rw [hl', hw'] at hl
    simp only [nulFree_append, nulFree_cons] at hl
    exact ⟨hl.1, hl.2.2.2⟩
  refine ⟨a.length, k.take 255, v.take 255, ?_, ?_, ?_, ?_⟩
  · rw [fieldOf, if_pos hcolon, hw]
    rfl
  · have : (pre ++ l ++ CR :: LF :: r).drop (pre.length + k.length + 1) = w ++ CR :: LF :: r := by
      have hm : pre ++ l ++ CR :: LF :: r = (pre ++ k ++ [COLON]) ++ (w ++ CR :: LF :: r) := by
        simp [hl']
      rw [hm, show pre.length + k.length + 1 = (pre ++ k ++ [COLON]).length by simp; omega, drop_pre]
    rw [this, skipSpaces_text (by decide)]
  · have := snprintfStr_text 256 pre (COLON :: w ++ CR :: LF :: r) hfree.1 le_rfl
    simpa [hl'] using this
  · have hm : pre ++ l ++ CR :: LF :: r = (pre ++ k ++ [COLON] ++ a) ++ v ++ CR :: LF :: r := by
      simp [hl', hw']
    have hp : pre.length + k.length + 1 + a.length = (pre ++ k ++ [COLON] ++ a).length := by
      simp
      omega
    have hlen : pre.length + l.length = (pre ++ k ++ [COLON] ++ a).length + v.length := by
      simp [hl', hw']
      omega
    rw [hm, hlen, hp, sizeSub_add, snprintfStr_text 256 _ _ hfree.2 le_rfl]
    simp

/-- The loop of `parse_headers` stops at the end of the text, at a rest without line end and at an
empty line. -/
theorem parseHeadersLoop_stop (pre post : Bytes) (fuel count : ℕ) (headers : Hashmap Bytes)
    (hs : NulFree s) (h : cutLine s = none ∨ ∃ r, cutLine s = some ([], r)) :
    parseHeadersLoop (pre ++ s ++ 0 :: post) (fuel + 1) count headers pre.length =
      .ok (count, headers, pre.length) := by
  rw [parseHeadersLoop]
  have hstr := strstr_crlf pre post hs
  cases s with
  | nil =>
    have hd := deref_text pre post 0
    simp [hd, bind, Except.bind]
  | cons c s =>
    obtain ⟨hc, -⟩ := nulFree_cons.1 hs
    have hd : deref (pre ++ c :: s ++ 0 :: post) pre.length = .ok c := by
      simpa using deref_text pre (s ++ 0 :: post) c
    rcases h with h | ⟨r, h⟩ <;> rw [h] at hstr
    · simp only [hd, hstr, hc, bind, Except.bind, if_false, Option.map_none]
    · simp only [hd, hstr, hc, bind, Except.bind, if_false, Option.map_some, sizeSub_add,
        List.length_nil, if_true]

/-- A turn of the loop on a line adds its field, if it has one, and goes on behind the line. -/
theorem parseHeadersLoop_line (pre post : Bytes) (fuel count : ℕ) (headers : Hashmap Bytes)
    (hs : NulFree s) (h : cutLine s = some (l, r)) (hl : l ≠ []) :
    parseHeadersLoop (pre ++ s ++ 0 :: post) (fuel + 1) count headers pre.length =
      parseHeadersLoop (pre ++ s ++ 0 :: post) fuel (count + (fieldOf l).toList.length)
        (setAll headers (fieldOf l).toList) (pre ++ l ++ CRLF).length := by
  have hsl := eq_of_cutLine h
  have hfree : NulFree l := by
    rw [hsl] at hs
    exact (nulFree_append.1 hs).1
  obtain ⟨c, l', rfl⟩ := List.exists_cons_of_ne_nil hl
  have hd : deref (pre ++ s ++ 0 :: post) pre.length = .ok c := by
    simpa [hsl] using deref_text pre (l' ++ CR :: LF :: r ++ 0 :: post) c
  have hstr := strstr_crlf pre post hs
  rw [h] at hstr
  have hm : pre ++ s ++ 0 :: post = pre ++ (c :: l') ++ CR :: LF :: (r ++ 0 :: post) := by simp [hsl]
  have hp : pre.length + (c :: l').length + 2 = (pre ++ (c :: l') ++ CRLF).length := by
    simp
    omega
  have hmem := memchr_text pre (CR :: LF :: (r ++ 0 :: post)) COLON (c :: l')
  have hlen : ¬ (c :: l').length = 0 := by simp
  rw [parseHeadersLoop]
  simp only [hd, hstr, bind, Except.bind, (nulFree_cons.1 hfree).1, if_false, Option.map_some,
    sizeSub_add]
  rw [if_neg hlen, hm, hmem, ← hp]
  by_cases hcolon : COLON ∈ c :: l'
  · obtain ⟨spaces, k, v, hf, h1, h2, h3⟩ := parseHeaders_line pre (r ++ 0 :: post) hfree hcolon
    simp only [hcolon, if_true, h1, h2, h3, sizeSub_add, hf]
    rfl
  · have hf : fieldOf (c :: l') = none := by simp [fieldOf, hcolon]
    simp only [hcolon, if_false, hf]
    rfl

/-- **The loop of `parse_headers`**: with enough turns left it takes the fields of the text in
order and stops at the end of its head. -/
theorem parseHeadersLoop_eq (pre post : Bytes) (count : ℕ) (headers : Hashmap Bytes) {fuel : ℕ}
    (hs : NulFree s) (hfuel : s.length < fuel) :
    parseHeadersLoop (pre ++ s ++ 0 :: post) fuel count headers pre.length =
      .ok (count + (fields s).length, setAll headers (fields s),
        pre.length + (s.length - (afterHead s).length)) := by
  induction fuel generalizing pre s count headers with
  | zero => omega
  | succ fuel ih =>
    cases hcut : cutLine s with
    | none =>
      rw [parseHeadersLoop_stop pre post fuel count headers hs (Or.inl hcut)]
      simp [fields, afterHead, splitHead_of_none hcut, setAll]
    | some p =>
      obtain ⟨l, r⟩ := p
      by_cases hl : l = []
      · subst hl
        rw [parseHeadersLoop_stop pre post fuel count headers hs (Or.inr ⟨r, hcut⟩)]
        simp [fields, afterHead, splitHead_of_empty hcut, setAll]
      have hsl := eq_of_cutLine hcut
      have hfree : NulFree r := by
        rw [hsl] at hs
        exact (nulFree_cons.1 (nulFree_cons.1 (nulFree_append.1 hs).2).2).2
      have hm : pre ++ s ++ 0 :: post = (pre ++ l ++ CRLF) ++ r ++ 0 :: post := by simp [hsl]
      have hfields : fields s = (fieldOf l).toList ++ fields r := by
        simp only [fields, splitHead_of_line hcut hl, List.filterMap_cons]
        cases fieldOf l <;> rfl
      have hrest : pre.length + (s.length - (afterHead s).length) =
          (pre ++ l ++ CRLF).length + (r.length - (afterHead r).length) := by
        have hafter : afterHead s = afterHead r := by
          simp only [afterHead, splitHead_of_line hcut hl]
        have hsuf : (afterHead r).length ≤ r.length := (splitHead_suffix r).length_le
        rw [hafter]
        simp only [hsl, List.length_append, List.length_cons, List.length_nil]
        omega
      have hshort : r.length < fuel := by
        have := cutLine_length_lt hcut
        omega
      have hcount : ((fieldOf l).toList ++ fields r).length =
          (fieldOf l).toList.length + (fields r).length := List.length_append
      rw [parseHeadersLoop_line pre post fuel count headers hs hcut hl, hm, ih _ _ _ hfree hshort,
        hrest, hfields, setAll_append, hcount, Nat.add_assoc]

/-- **`parse_headers` reads the fields of the text** and stops at the end of its head. -/
theorem parseHeaders_eq (pre post : Bytes) (headers : Hashmap Bytes) (hs : NulFree s) :
    parseHeaders (pre ++ s ++ 0 :: post) pre.length headers =
      .ok ((fields s).length, setAll headers (fields s),
        pre.length + (s.length - (afterHead s).length)) := by
  have hfuel : s.length < (pre ++ s ++ 0 :: post).length := by
    simp
    omega
  simpa [parseHeaders] using parseHeadersLoop_eq pre post 0 headers hs hfuel

end Loop

/-! ### Requests -/

/-- The method, the target and the version of a request, and the text after its request line: two
tokens between spaces and one to the next LF. -/
def requestLine (s : Bytes) : Option (Bytes × Bytes × Bytes × Bytes) :=
  match token (· = SP) s with
  | none => none
  | some (method, r₁) =>
    match token (· = SP) r₁ with
    | none => none
    | some (target, r₂) =>
      match token (· = LF) r₂ with
      | none => none
      | some (version, block) => some (method, target, version, block)

/-- The `content_length + 1` bytes of `data`, copied from two bytes into the rest of the head: with
its terminator the copy is in bounds one byte past the text. -/
def copyBody (rest : Bytes) (n : ℤ) : Except Fault Bytes :=
  if n + 1 > LONG_MAX ∨ n + 1 ≤ 0 then .error .badAlloc
  else if rest.length < 2 then .error .outOfBounds
  else if rest.drop 2 = [] then (if n = 0 then .ok [0] else .error .nullPointer)
  else if n ≤ (rest.drop 2).length + 1 then .ok ((rest.drop 2 ++ [0]).take n.toNat ++ [0])
  else .error .outOfBounds

/-- The copy of `n` bytes from two bytes into `rest` stays inside, the terminator included; nothing
is left of a `rest` of two bytes. -/
def CopyInside (rest : Bytes) (n : ℤ) : Prop :=
  (0 ≤ n ∧ n < LONG_MAX) ∧
    (rest.length = 2 ∧ n = 0 ∨ 2 < rest.length ∧ n + 1 ≤ rest.length)

theorem copyBody_eq_ok {rest data : Bytes} {n : ℤ} : copyBody rest n = .ok data ↔
    CopyInside rest n ∧ data = (rest.drop 2 ++ [0]).take n.toNat ++ [0] := by
  have hdrop : (rest.drop 2).length = rest.length - 2 := List.length_drop
  have hnil : rest.drop 2 = [] ↔ rest.length ≤ 2 := List.drop_eq_nil_iff
  have hfault : ∀ {e : Fault}, ¬ CopyInside rest n → (.error e = Except.ok data ↔
      CopyInside rest n ∧ data = (rest.drop 2 ++ [0]).take n.toNat ++ [0]) := by
    intro e hout
    exact ⟨fun h => (by cases h), fun h => absurd h.1 hout⟩
  unfold CopyInside at hfault ⊢
  unfold copyBody
  by_cases hfit : n + 1 > LONG_MAX ∨ n + 1 ≤ 0
  · rw [if_pos hfit]
    exact hfault (by omega)
  rw [if_neg hfit]
  by_cases hshort : rest.length < 2
  · rw [if_pos hshort]
    exact hfault (by omega)
  rw [if_neg hshort]
  by_cases hrest : rest.drop 2 = []
  · have hlen := hnil.1 hrest
    rw [if_pos hrest]
    by_cases hn : n = 0
    · subst hn
      rw [if_pos rfl, hrest, Except.ok.injEq, eq_comm]
      exact ⟨fun h => ⟨by omega, h⟩, fun h => h.2⟩
    · rw [if_neg hn]
      exact hfault (by omega)
  · have hlen : ¬ rest.length ≤ 2 := fun h => hrest (hnil.2 h)
    rw [if_neg hrest]
    by_cases hle : n ≤ (rest.drop 2).length + 1
    · rw [if_pos hle, Except.ok.injEq, eq_comm]
      exact ⟨fun h => ⟨by omega, h⟩, fun h => h.2⟩
    · rw [if_neg hle]
      exact hfault (by omega)

/-- The length that the head of `block` declares, when `parse_long` accepts it. -/
def declaredLength (block : Bytes) : Option ℤ :=
  (((fields block).find? fun p => p.1 = lit "Content-Length").map (·.2)).bind parseLong

def headerMap (ps : List (Bytes × Bytes)) : Hashmap Bytes := setAll Hashmap.create ps

/-- **What a text decodes to.** -/
def decode (s : Bytes) : Except Fault (Option HttpRequest) :=
  match requestLine s with
  | none => .ok none
  | some (method, target, version, block) =>
    let request : HttpRequest := ⟨method, target, version, headerMap (fields block), none⟩
    match declaredLength block with
    | none => .ok (some request)
    | some n => (copyBody (afterHead block) n).map fun d => some { request with data := some d }

section Decode

variable {s m t v block : Bytes} {n : ℤ}

theorem requestLine_eq_some (h : requestLine s = some (m, t, v, block)) :
    ∃ r₁ r₂, token (· = SP) s = some (m, r₁) ∧ token (· = SP) r₁ = some (t, r₂) ∧
      token (· = LF) r₂ = some (v, block) := by
  unfold requestLine at h
  cases h₁ : token (· = SP) s with
  | none => simp [h₁] at h
  | some p =>
    cases h₂ : token (· = SP) p.2 with
    | none => simp [h₁, h₂] at h
    | some q =>
      cases h₃ : token (· = LF) q.2 with
      | none => simp [h₁, h₂, h₃] at h
      | some u =>
        simp only [h₁, h₂, h₃, Option.some.injEq, Prod.mk.injEq] at h
        obtain ⟨rfl, rfl, rfl, rfl⟩ := h
        exact ⟨p.2, q.2, rfl, h₂, h₃⟩

theorem decode_of_none (h : requestLine s = none) : decode s = .ok none := by
  rw [decode, h]

theorem decode_of_line (h : requestLine s = some (m, t, v, block))
    (hn : declaredLength block = none) :
    decode s = .ok (some ⟨m, t, v, headerMap (fields block), none⟩) := by
  simp only [decode, h, hn]

theorem decode_of_length (h : requestLine s = some (m, t, v, block))
    (hn : declaredLength block = some n) :
    decode s = (copyBody (afterHead block) n).map fun d =>
      some ⟨m, t, v, headerMap (fields block), some d⟩ := by
  simp only [decode, h, hn]

end Decode

section Map

variable {m : Hashmap Bytes} {ps : List (Bytes × Bytes)} {k : Bytes}

theorem get_setAll (h : m.WF) (hk : NulFree k) :
    (setAll m ps).get k = (m.get k).or ((ps.find? fun p => p.1 = k).map (·.2)) := by
  induction ps generalizing m with
  | nil => simp [setAll]
  | cons p ps ih =>
    have hstep : setAll m (p :: ps) = setAll (m.set p.1 p.2) ps := rfl
    rw [hstep, ih (h.set p.1 p.2), Hashmap.get_set h p.1 p.2 hk, Option.or_assoc,
      List.find?_cons]
    by_cases hpk : p.1 = k
    · simp [hpk]
    · have : k ≠ p.1 := fun h => hpk h.symm
      simp [hpk, this]

theorem get_headerMap (hk : NulFree k) :
    (headerMap ps).get k = (ps.find? fun p => p.1 = k).map (·.2) := by
  rw [headerMap, get_setAll Hashmap.wf_create hk, Hashmap.get_create hk, Option.none_or]

end Map

theorem request_of_decode {s : Bytes} {request : HttpRequest} (h : decode s = .ok (some request)) :
    ∃ m t v block data, requestLine s = some (m, t, v, block) ∧
      request = ⟨m, t, v, headerMap (fields block), data⟩ := by
  cases hline : requestLine s with
  | none =>
    rw [decode_of_none hline] at h
    cases h
  | some p =>
    obtain ⟨m, t, v, block⟩ := p
    cases hn : declaredLength block with
    | none =>
      rw [decode_of_line hline hn] at h
      cases h
      exact ⟨m, t, v, block, none, rfl, rfl⟩
    | some n =>
      rw [decode_of_length hline hn] at h
      obtain ⟨d, -, hd⟩ := map_eq_ok.1 h
      exact ⟨m, t, v, block, some d, rfl, (Option.some.inj hd).symm⟩

theorem nulFree_requestLine {s m t v b : Bytes} (hs : NulFree s)
    (h : requestLine s = some (m, t, v, b)) :
    NulFree m ∧ NulFree t ∧ NulFree v ∧ NulFree b := by
  obtain ⟨r₁, r₂, h1, h2, h3⟩ := requestLine_eq_some h
  obtain ⟨hm, hr1⟩ := nulFree_of_token hs h1
  obtain ⟨ht, hr2⟩ := nulFree_of_token hr1 h2
  obtain ⟨hv, hb⟩ := nulFree_of_token hr2 h3
  exact ⟨hm, ht, hv, hb⟩

theorem length_token_le {d : UInt8 → Bool} {s t r : Bytes} (h : token d s = some (t, r)) :
    t.length + r.length ≤ s.length := by
  have hs := (List.dropWhile_suffix (l := s) d).length_le
  rcases token_cases d s with ⟨-, ht⟩ | ⟨t', -, -, ⟨hr, ht⟩ | ⟨c, r', -, hr, ht⟩⟩ <;> rw [ht] at h
  · cases h
  · cases h
    simpa [hr] using hs
  · cases h
    rw [hr] at hs
    simp only [List.length_append, List.length_cons] at hs
    omega

theorem length_target_le {s m t v b : Bytes} (h : requestLine s = some (m, t, v, b)) :
    t.length ≤ s.length := by
  obtain ⟨r₁, r₂, h1, h2, -⟩ := requestLine_eq_some h
  have := length_token_le h1
  have := length_token_le h2
  omega

theorem length_value_le {s : Bytes} {f : Bytes × Bytes} (h : f ∈ fields s) : f.2.length ≤ 255 := by
  obtain ⟨l, -, hl⟩ := List.mem_filterMap.1 h
  unfold fieldOf at hl
  split at hl
  · cases hl
    simp only [List.length_take]
    omega
  · cases hl

theorem strtok_rest (pre : Bytes) {s : Bytes} (hs : NulFree s) (hne : s ≠ []) :
    ∃ saved, strtok (pre ++ s ++ [0]) pre.length (lit "") =
      .ok (pre ++ s ++ [0], some pre.length, saved) := by
  have hno : (fun c => decide (c ∈ lit "")) = fun _ => false := by
    funext c
    simp [lit]
  have hstart : (s.takeWhile fun _ => false) = [] := by cases s <;> rfl
  have hdone : strtokDone (fun _ => false) s = s := by
    simp [strtokDone, token_none_delim hne, hstart]
  have h := strtok_text pre [] (lit "") hs
  simp only [hno, hdone, token_none_delim hne, hstart, strtokRest_of_token (token_none_delim hne),
    Option.map_some, List.append_nil, List.length_nil, Nat.add_zero] at h
  exact ⟨_, h⟩

theorem strtok_rest_nil (pre : Bytes) :
    ∃ saved, strtok (pre ++ [0]) pre.length (lit "") = .ok (pre ++ [0], none, saved) := by
  have h := strtok_text pre [] (lit "") nulFree_nil
  simp only [strtokDone, strtokRest, token_nil, List.append_nil, Option.map_none, Option.getD_none] at h
  exact ⟨_, h⟩

theorem copyData_eq (pre hd : Bytes) {rest : Bytes} (n : ℤ) (hrest : NulFree rest) :
    copyData (pre ++ (hd ++ rest) ++ [0]) (pre.length + hd.length) n = copyBody rest n := by
  unfold copyData callocLong copyBody
  by_cases hn : n + 1 > LONG_MAX ∨ n + 1 ≤ 0
  · simp only [if_pos hn, bind, Except.bind]
  simp only [hn, if_false, bind, Except.bind]
  by_cases hshort : rest.length < 2
  · -- `body + 2` is outside the allocation
    have hout : (pre ++ (hd ++ rest) ++ [0]).drop (pre.length + hd.length + 2) = [] :=
      List.drop_eq_nil_of_le (by simp; omega)
    simp only [strtok, hout, readStr, Except.map, if_pos hshort]
  rw [if_neg hshort]
  obtain ⟨x, y, b, rfl⟩ : ∃ x y b, rest = x :: y :: b := by
    rcases rest with _ | ⟨x, _ | ⟨y, b⟩⟩ <;> simp at hshort
    exact ⟨x, y, b, rfl⟩
  have hb : NulFree b := by
    simp only [nulFree_cons] at hrest
    exact hrest.2.2
  have hm : pre ++ (hd ++ x :: y :: b) ++ [0] = (pre ++ hd ++ [x, y]) ++ b ++ [0] := by simp
  have hp : pre.length + hd.length + 2 = (pre ++ hd ++ [x, y]).length := by simp; omega
  rw [hm, hp]
  by_cases hnil : b = []
  · subst hnil
    obtain ⟨saved, h⟩ := strtok_rest_nil (pre ++ hd ++ [x, y])
    rw [List.append_nil, h]
    by_cases hn0 : n = 0
    · subst hn0
      simp [memcpyFrom]
    · have : ¬ n.toNat = 0 := by omega
      simp [memcpyFrom, hn0, this]
  obtain ⟨saved, h⟩ := strtok_rest (pre ++ hd ++ [x, y]) hb hnil
  simp only [h, memcpyFrom, readBytes, List.drop_succ_cons, List.drop_zero, hnil, if_false]
  rw [List.append_assoc (pre ++ hd ++ [x, y]), drop_pre]
  by_cases hfit : n ≤ b.length + 1
  · have hle : n.toNat ≤ (b ++ [0]).length := by simp; omega
    have hsize : (n + 1).toNat - n.toNat = 1 := by omega
    simp only [hfit, if_true, if_pos hle, List.length_take, Nat.min_eq_left hle, hsize]
    rfl
  · have hgt : ¬ n.toNat ≤ (b ++ [0]).length := by simp; omega
    simp only [hfit, if_false, if_neg hgt]

theorem nulFree_strtokRest {d : UInt8 → Bool} {s : Bytes} (hs : NulFree s) :
    NulFree (strtokRest d s) := by
  cases h : token d s with
  | none => simp [strtokRest, h]
  | some p => simpa [strtokRest, h] using (nulFree_of_token hs h).2

/-- A token read back through the pointer of `strtok`: it is a C string, since a NUL was stored behind
it, or it ends the text and the memory goes on with one. -/
theorem readStr_strtok {d : UInt8 → Bool} (pre x : Bytes) {s t r : Bytes} (hs : NulFree s)
    (h : token d s = some (t, r)) (hx : r = [] → ∃ y, x = 0 :: y) :
    readStr ((pre ++ strtokDone d s ++ x).drop (pre ++ s.takeWhile d).length) = .ok t := by
  have ht := (nulFree_of_token hs h).1
  have hread : ∀ y, readStr ((pre ++ s.takeWhile d ++ (t ++ 0 :: y)).drop
      (pre ++ s.takeWhile d).length) = .ok t := by
    intro y
    rw [drop_pre, readStr_text ht]
  rcases strtokDone_of_token h with hd | ⟨hd, hr⟩
  · rw [← hread x, hd]
    simp
  · obtain ⟨y, rfl⟩ := hx hr
    rw [← hread y, hd]
    simp

theorem ne_nil_of_token {d : UInt8 → Bool} {s : Bytes} {p : Bytes × Bytes} (h : token d s = some p) :
    s ≠ [] := by
  rintro rfl
  rw [token_nil] at h
  cases h

/-- `http_request_from_buffer` after the request line. -/
def readHeaders (tmp : Bytes) (saved : ℕ) (request : HttpRequest) :
    Except Fault (Option HttpRequest) := do
  let (tmp, headersToParse, _) ← strtok tmp saved (lit "")
  match headersToParse with
  | none => .ok (some request)
  | some headersToParse =>
    let (_, headers, body) ← parseHeaders tmp headersToParse request.headers
    match (headers.getCstr (lit "Content-Length")).bind parseLong with
    | none => .ok (some { request with headers })
    | some contentLength =>
      let data ← copyData tmp body contentLength
      .ok (some { request with headers, data := some data })

/-- **The request line**: the three calls of `strtok` find the tokens of `requestLine`, and the
headers start where the last one stops. -/
theorem httpRequestFromBuffer_line {s : Bytes} (hs : NulFree s) : ∃ pre,
    httpRequestFromBuffer s = match requestLine s with
      | none => .ok none
      | some (m, t, v, block) =>
        readHeaders (pre ++ block ++ [0]) pre.length ⟨m, t, v, Hashmap.create, none⟩ := by
  have hsp : (fun c => decide (c ∈ lit " ")) = fun c => decide (c = SP) := by
    funext c
    simp [lit]
  have hlf : (fun c => decide (c ∈ lit "\n")) = fun c => decide (c = LF) := by
    funext c
    simp [lit]
  obtain ⟨d₁, hd₁⟩ : ∃ d, strtokDone (fun c => decide (c = SP)) s = d := ⟨_, rfl⟩
  obtain ⟨r₁, hr₁⟩ : ∃ r, strtokRest (fun c => decide (c = SP)) s = r := ⟨_, rfl⟩
  obtain ⟨d₂, hd₂⟩ : ∃ d, strtokDone (fun c => decide (c = SP)) r₁ = d := ⟨_, rfl⟩
  obtain ⟨r₂, hr₂⟩ : ∃ r, strtokRest (fun c => decide (c = SP)) r₁ = r := ⟨_, rfl⟩
  obtain ⟨d₃, hd₃⟩ : ∃ d, strtokDone (fun c => decide (c = LF)) r₂ = d := ⟨_, rfl⟩
  obtain ⟨r₃, hr₃⟩ : ∃ r, strtokRest (fun c => decide (c = LF)) r₂ = r := ⟨_, rfl⟩
  have hf₁ : NulFree r₁ := hr₁ ▸ nulFree_strtokRest hs
  have hf₂ : NulFree r₂ := hr₂ ▸ nulFree_strtokRest hf₁
  have h₁ := strtok_text [] [] (lit " ") hs
  have h₂ := strtok_text d₁ [] (lit " ") hf₁
  have h₃ := strtok_text (d₁ ++ d₂) [] (lit "\n") hf₂
  simp only [hsp, hlf, List.nil_append, List.length_nil, Nat.zero_add, hd₁, hr₁, hd₂, hr₂, hd₃, hr₃,
    ← List.length_append] at h₁ h₂ h₃
  refine ⟨d₁ ++ d₂ ++ d₃, ?_⟩
  unfold httpRequestFromBuffer requestLine
  simp only [h₁, h₂, h₃, bind, Except.bind]
  cases ht₁ : token (fun c => decide (c = SP)) s with
  | none => rfl
  | some p₁ =>
    obtain ⟨method, r⟩ := p₁
    obtain rfl : r₁ = r := hr₁ ▸ strtokRest_of_token ht₁
    cases ht₂ : token (fun c => decide (c = SP)) r₁ with
    | none => simp only [Option.map_some, Option.map_none, ht₂]
    | some p₂ =>
      obtain ⟨target, r⟩ := p₂
      obtain rfl : r₂ = r := hr₂ ▸ strtokRest_of_token ht₂
      cases ht₃ : token (fun c => decide (c = LF)) r₂ with
      | none => simp only [Option.map_some, Option.map_none, ht₂, ht₃]
      | some p₃ =>
        obtain ⟨version, r⟩ := p₃
        obtain rfl : r₃ = r := hr₃ ▸ strtokRest_of_token ht₃
        simp only [Option.map_some, ht₂, ht₃]
        -- the three tokens are C strings in the memory after the calls
        have hread₁ := readStr_strtok [] (d₂ ++ d₃ ++ r₃ ++ [0]) hs ht₁
          fun h => absurd h (ne_nil_of_token ht₂)
        have hread₂ := readStr_strtok d₁ (d₃ ++ r₃ ++ [0]) hf₁ ht₂
          fun h => absurd h (ne_nil_of_token ht₃)
        have hread₃ := readStr_strtok (d₁ ++ d₂) (r₃ ++ [0]) hf₂ ht₃ fun h => ⟨[], by rw [h]; rfl⟩
        rw [hd₁, List.nil_append, List.nil_append] at hread₁
        rw [hd₂] at hread₂
        rw [hd₃] at hread₃
        simp only [← List.append_assoc] at hread₁ hread₂ hread₃
        simp only [hread₁, hread₂, hread₃]
        rfl

/-- **After the request line** the parser takes the fields of the block, and the body that they
declare from its rest. -/
theorem readHeaders_eq (pre m t v : Bytes) {block : Bytes} (hb : NulFree block) :
    readHeaders (pre ++ block ++ [0]) pre.length ⟨m, t, v, Hashmap.create, none⟩ =
      match declaredLength block with
      | none => .ok (some ⟨m, t, v, headerMap (fields block), none⟩)
      | some n => (copyBody (afterHead block) n).map fun d =>
          some ⟨m, t, v, headerMap (fields block), some d⟩ := by
  unfold readHeaders
  by_cases hnil : block = []
  · subst hnil
    obtain ⟨saved, h⟩ := strtok_rest_nil pre
    simp only [List.append_nil, h, bind, Except.bind]
    rfl
  obtain ⟨saved, h⟩ := strtok_rest pre hb hnil
  have hparse := parseHeaders_eq pre [] Hashmap.create hb
  obtain ⟨hd, hsuf⟩ := splitHead_suffix block
  change hd ++ afterHead block = block at hsuf
  have hlen : block.length - (afterHead block).length = hd.length := by
    have := congrArg List.length hsuf
    rw [List.length_append] at this
    omega
  have hget : (setAll Hashmap.create (fields block)).getCstr (lit "Content-Length") =
      ((fields block).find? fun p => p.1 = lit "Content-Length").map (·.2) :=
    get_headerMap (by decide)
  have hafter : NulFree (afterHead block) := hb.sublist (splitHead_suffix block).sublist
  have hcopy := fun n => copyData_eq pre hd n hafter
  rw [hsuf] at hcopy
  simp only [h, hparse, hget, hlen, bind, Except.bind]
  unfold declaredLength
  cases hn : (Option.map (·.2) ((fields block).find? fun p => p.1 = lit "Content-Length")).bind
      parseLong with
  | none => rfl
  | some n =>
    simp only [hcopy]
    cases copyBody (afterHead block) n <;> rfl

/-- **The parser computes `decode`**, faults included. -/
theorem httpRequestFromBuffer_eq {s : Bytes} (hs : NulFree s) :
    httpRequestFromBuffer s = decode s := by
  obtain ⟨pre, h⟩ := httpRequestFromBuffer_line hs
  rw [h, decode]
  cases hline : requestLine s with
  | none => rfl
  | some p =>
    obtain ⟨m, t, v, block⟩ := p
    exact readHeaders_eq pre m t v (nulFree_requestLine hs hline).2.2.2

/-- The bounds of what is parsed: the target is a C string of the text, and the values of the headers
are cut to 255 bytes. -/
theorem bounds_of_parse {s : Bytes} {request : HttpRequest} (hs : NulFree s)
    (h : httpRequestFromBuffer s = .ok (some request)) :
    NulFree request.requestTarget ∧ request.requestTarget.length ≤ s.length ∧
      ∀ k v, NulFree k → request.headers.getCstr k = some v → v.length ≤ 255 := by
  rw [httpRequestFromBuffer_eq hs] at h
  obtain ⟨m, t, v, block, data, hline, rfl⟩ := request_of_decode h
  refine ⟨(nulFree_requestLine hs hline).2.1, length_target_le hline, ?_⟩
  intro k v hk hv
  rw [Hashmap.getCstr, get_headerMap hk, Option.map_eq_some_iff] at hv
  obtain ⟨f, hf, rfl⟩ := hv
  exact length_value_le (List.mem_of_find?_eq_some hf)

end HttpServer

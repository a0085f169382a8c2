import HttpServer.MainSem
import HttpServer.Encoding

/-!
# When a chunk is parsed in bounds

`http_request_from_buffer` copies as many bytes as the client declares, from two bytes into what is
left of the head, and looks at neither number before it does.  A chunk is safe when the parser stays
inside its copy of the text, allocates a positive size, and keeps and stores nothing but bytes that
the client sent (`Safe`); it is safe exactly when the declared length is one of the body
(`safe_iff`).
-/

namespace HttpServer

open Lib

variable {s : Bytes}

/-! ### What a parsed request is made of -/

theorem token_suffix {d : UInt8 → Bool} {t r : Bytes} (h : token d s = some (t, r)) : r <:+ s := by
  have hs := List.dropWhile_suffix (l := s) d
  rcases token_cases d s with ⟨-, ht⟩ | ⟨t', -, -, ⟨-, ht⟩ | ⟨c, r', -, hr, ht⟩⟩ <;> rw [ht] at h
  · cases h
  · cases h
    exact List.nil_suffix
  · cases h
    rw [hr] at hs
    exact (List.suffix_append_of_suffix (List.suffix_cons c r)).trans hs

theorem afterHead_suffix {m t v block : Bytes} (h : requestLine s = some (m, t, v, block)) :
    afterHead block <:+ s := by
  obtain ⟨r₁, r₂, h1, h2, h3⟩ := requestLine_eq_some h
  exact (splitHead_suffix block).trans
    ((token_suffix h3).trans ((token_suffix h2).trans (token_suffix h1)))

theorem contentLength_headerMap {m t v block : Bytes} (data : Option Bytes) :
    HttpRequest.contentLength ⟨m, t, v, headerMap (fields block), data⟩ = declaredLength block := by
  rw [HttpRequest.contentLength, Hashmap.getCstr, get_headerMap (by decide), declaredLength]

/-! ### What is parsed is answered -/

theorem length_of_copyBody {rest data : Bytes} {n : ℤ} (h : copyBody rest n = .ok data) :
    0 ≤ n ∧ n < LONG_MAX ∧ data.length = n.toNat + 1 := by
  obtain ⟨⟨⟨h0, hmax⟩, hlen⟩, rfl⟩ := copyBody_eq_ok.1 h
  refine ⟨h0, hmax, ?_⟩
  simp only [List.length_append, List.length_take, List.length_drop, List.length_cons,
    List.length_nil]
  omega

theorem exists_fwriteBytes {rest data : Bytes} {n : ℤ} (h : copyBody rest n = .ok data) :
    ∃ content, fwriteBytes (some data) n = .ok content := by
  obtain ⟨h0, hmax, hlen⟩ := length_of_copyBody h
  have hsize : sizeAdd 0 n = n.toNat := by
    unfold sizeAdd
    simp only [LONG_MAX] at hmax
    omega
  exact ⟨_, by rw [fwriteBytes, hsize, readBytes, if_pos (by omega)]⟩

/-- **A request that is parsed is answered**, whatever it stores. -/
theorem exists_answerWorld {request : HttpRequest} (h : decode s = .ok (some request)) (env : Env)
    (directory : Option Bytes) (w : World) : ∃ w', answerWorld env directory request w = .ok w' := by
  rw [answerWorld_eq]
  cases hst : storesAt env directory request with
  | none => exact ⟨_, rfl⟩
  | some q =>
    obtain ⟨path, n⟩ := q
    obtain ⟨d, name, -, -, hn, -⟩ := storesAt_eq_some.1 hst
    obtain ⟨m, t, v, block, data, hline, rfl⟩ := request_of_decode h
    rw [contentLength_headerMap] at hn
    rw [decode_of_length hline hn] at h
    obtain ⟨body, hbody, hdata⟩ := map_eq_ok.1 h
    cases hdata
    obtain ⟨content, hcontent⟩ := exists_fwriteBytes hbody
    simp only [hcontent]
    exact ⟨_, rfl⟩

theorem exists_serveChunk {chunk : Bytes} {o : Option HttpRequest}
    (h : httpRequestFromBuffer (chunk.takeWhile (· ≠ 0)) = .ok o) (env : Env)
    (directory : Option Bytes) (w : World) :
    ∃ reply stop w', serveChunk env directory w chunk = .ok (reply, stop, w') := by
  unfold serveChunk
  rw [h]
  cases o with
  | none => exact ⟨_, _, _, rfl⟩
  | some request =>
    rw [httpRequestFromBuffer_eq (nulFree_takeWhile chunk)] at h
    obtain ⟨w', hw⟩ := exists_answerWorld h env directory w
    simp only [bind, Except.bind, answer_eq, hw]
    exact ⟨_, _, _, rfl⟩

/-! ### Safety -/

/-- Storing the body of `request` stays in bounds, and what it stores is text of `s`. -/
def StoresOnly (request : HttpRequest) (s : Bytes) : Prop :=
  ∀ env directory w, ∃ w', answerWorld env directory request w = .ok w' ∧
    ∀ path, w'.files path = w.files path ∨ ∃ content, w'.files path = some content ∧ content <:+: s

/-- Parsing the chunk `s`, and storing its body, stays in bounds and takes no byte that is not of the
chunk.  The last byte of `data` is the terminator that the allocation brings. -/
def Safe (s : Bytes) : Prop :=
  ∃ r, httpRequestFromBuffer s = .ok r ∧ ∀ request, r = some request →
    (∀ data, request.data = some data → data.dropLast <:+: s) ∧ StoresOnly request s

/-- A length that `s` declares is not negative, and that many bytes follow the two bytes after the
head. -/
def BodyInBounds (s : Bytes) : Prop :=
  ∀ m t v block n, requestLine s = some (m, t, v, block) → declaredLength block = some n →
    0 ≤ n ∧ n + 2 ≤ (afterHead block).length

theorem copyBody_of_le {rest : Bytes} {n : ℤ} (h0 : 0 ≤ n) (hn : n + 2 ≤ rest.length)
    (hlen : rest.length ≤ HTTP_BUFFER_SIZE) :
    copyBody rest n = .ok ((rest.drop 2).take n.toNat ++ [0]) := by
  have hdrop : (rest.drop 2).length = rest.length - 2 := List.length_drop
  have hinside : CopyInside rest n := by
    simp only [CopyInside, LONG_MAX, HTTP_BUFFER_SIZE] at *
    omega
  rw [copyBody_eq_ok.2 ⟨hinside, rfl⟩, List.take_append_of_le_length (by omega)]

theorem le_of_copyBody {rest data : Bytes} {n : ℤ} (hfree : NulFree s)
    (h : copyBody rest n = .ok data) (hsub : data.dropLast <:+: s) :
    0 ≤ n ∧ n + 2 ≤ rest.length := by
  obtain ⟨⟨⟨h0, -⟩, hlen⟩, rfl⟩ := copyBody_eq_ok.1 h
  have hdrop : (rest.drop 2).length = rest.length - 2 := List.length_drop
  rw [List.dropLast_concat] at hsub
  by_contra hn
  -- one byte more than there are: the terminator of the text is copied
  have hall : (rest.drop 2 ++ [0]).take n.toNat = rest.drop 2 ++ [0] :=
    List.take_of_length_le (by simp only [List.length_append, List.length_singleton]; omega)
  rw [hall] at hsub
  exact hfree (hsub.subset (by simp))

/-- The bytes that `post_files` writes are those that were copied. -/
theorem fwriteBytes_copy {body : Bytes} {n : ℤ} (h0 : 0 ≤ n) (hn : n.toNat ≤ body.length)
    (hlen : body.length ≤ HTTP_BUFFER_SIZE) :
    fwriteBytes (some (body.take n.toNat ++ [0])) n = .ok (body.take n.toNat) := by
  have hsize : sizeAdd 0 n = n.toNat := by
    unfold sizeAdd
    simp only [HTTP_BUFFER_SIZE] at hlen
    omega
  have htake : (body.take n.toNat).length = n.toNat := by simp [hn]
  rw [fwriteBytes, hsize, readBytes, if_pos (by simp [hn])]
  rw [List.take_append_of_le_length (by omega), List.take_of_length_le (by omega)]

theorem storesOnly_of_none {request : HttpRequest} (h : request.contentLength = none) :
    StoresOnly request s := by
  intro env directory w
  have hnone : storesAt env directory request = none := by
    unfold storesAt
    rw [h]
    split <;> first | rfl | contradiction
  rw [answerWorld_eq, hnone]
  refine ⟨_, rfl, fun path => Or.inl ?_⟩
  cases openedPath directory request <;> rfl

theorem storesOnly_of_copy {request : HttpRequest} {body : Bytes} {n : ℤ} (h0 : 0 ≤ n)
    (hn : n.toNat ≤ body.length) (hlen : body.length ≤ HTTP_BUFFER_SIZE)
    (hcl : request.contentLength = some n) (hdata : request.data = some (body.take n.toNat ++ [0]))
    (hsub : body.take n.toNat <:+: s) : StoresOnly request s := by
  intro env directory w
  rw [answerWorld_eq]
  cases hst : storesAt env directory request with
  | none =>
    refine ⟨_, rfl, fun path => Or.inl ?_⟩
    cases openedPath directory request <;> rfl
  | some q =>
    obtain ⟨path, n'⟩ := q
    obtain ⟨d, name, -, -, hn', -⟩ := storesAt_eq_some.1 hst
    obtain rfl : n = n' := Option.some.inj (hcl.symm.trans hn')
    simp only [hdata, fwriteBytes_copy h0 hn hlen]
    refine ⟨_, rfl, ?_⟩
    intro path'
    by_cases hp : path' = path
    · subst hp
      exact Or.inr ⟨_, by simp [World.store], hsub⟩
    · exact Or.inl (by simp [World.store, hp])

theorem safe_of_length {m t v block : Bytes} {n : ℤ} (hs : NulFree s)
    (hlen : s.length ≤ HTTP_BUFFER_SIZE) (hline : requestLine s = some (m, t, v, block))
    (hn : declaredLength block = some n) (h0 : 0 ≤ n) (hle : n + 2 ≤ (afterHead block).length) :
    Safe s := by
  have hsuf := afterHead_suffix hline
  have hshort : (afterHead block).length ≤ HTTP_BUFFER_SIZE := hsuf.length_le.trans hlen
  have hbody : ((afterHead block).drop 2).length = (afterHead block).length - 2 := List.length_drop
  have hsub : ((afterHead block).drop 2).take n.toNat <:+: s :=
    (List.take_prefix _ _).isInfix.trans ((List.drop_suffix _ _).isInfix.trans hsuf.isInfix)
  have hdecode := decode_of_length hline hn
  rw [copyBody_of_le h0 hle hshort, ← httpRequestFromBuffer_eq hs] at hdecode
  refine ⟨_, hdecode, ?_⟩
  intro request hr
  cases hr
  refine ⟨fun data hd => ?_, storesOnly_of_copy h0 (by omega) (by omega)
    ((contentLength_headerMap _).trans hn) rfl hsub⟩
  cases hd
  rwa [List.dropLast_concat]

/-- **A chunk is parsed safely exactly when the length it declares is one of its body.** -/
theorem safe_iff (hs : NulFree s) (hlen : 1 ≤ s.length ∧ s.length ≤ HTTP_BUFFER_SIZE) :
    Safe s ↔ BodyInBounds s := by
  have heq := httpRequestFromBuffer_eq hs
  cases hline : requestLine s with
  | none =>
    rw [decode_of_none hline] at heq
    refine ⟨fun _ m t v block n h => ?_, fun _ => ⟨_, heq, fun request hr => by cases hr⟩⟩
    rw [hline] at h
    cases h
  | some p =>
    obtain ⟨m, t, v, block⟩ := p
    cases hn : declaredLength block with
    | none =>
      rw [decode_of_line hline hn] at heq
      refine ⟨fun _ m' t' v' block' n h hn' => ?_, fun _ => ⟨_, heq, fun request hr => ?_⟩⟩
      · rw [hline] at h
        cases h
        rw [hn] at hn'
        cases hn'
      · cases hr
        exact ⟨nofun, storesOnly_of_none ((contentLength_headerMap none).trans hn)⟩
    | some n =>
      constructor
      · rintro ⟨r, hr, hsafe⟩ m' t' v' block' n' h hn'
        rw [hline] at h
        cases h
        rw [hn] at hn'
        cases hn'
        rw [heq, decode_of_length hline hn] at hr
        obtain ⟨data, hd, rfl⟩ := map_eq_ok.1 hr
        exact le_of_copyBody hs hd ((hsafe _ rfl).1 data rfl)
      · intro hin
        obtain ⟨h0, hle⟩ := hin m t v block n hline hn
        exact safe_of_length hs hlen.2 hline hn h0 hle

/-- A request with a body of three bytes, as it should be. -/
theorem safe_iff_postNote : Safe postNote.encode ↔ BodyInBounds postNote.encode :=
  safe_iff (by decide) (by decide)

/-- A declared length of five bytes over a body of three. -/
def longBody : Bytes := lit "GET / HTTP/1.1\r\nContent-Length: 5\r\n\r\nabc"

/-- Not every chunk that a client can send is parsed safely. -/
theorem not_safe_longBody :
    NulFree longBody ∧ 1 ≤ longBody.length ∧ longBody.length ≤ HTTP_BUFFER_SIZE ∧
      ¬ Safe longBody := by
  refine ⟨by decide, by decide, by decide, ?_⟩
  rintro ⟨r, hr, -⟩
  rw [httpRequestFromBuffer_eq (by decide)] at hr
  have hfault : decode longBody = .error .outOfBounds := rfl
  rw [hfault] at hr
  cases hr

end HttpServer

import HttpServer.RequestSafety

/-!
# The request line and the line ends

`http_request_from_buffer` takes the method and the target off the buffer with `strtok`, for which a
line end is a byte like the others.  A buffer whose first line has two tokens is a request when the
lines after it bring a third, and a line end that touches a token is a part of it.  When the buffer is
read by its first line is said of its bytes (`readByLine_iff`).
-/

namespace HttpServer

open Lib

variable {s l y m t v r block : Bytes}

/-- The tokens of the first line, when a CRLF ends it. -/
def lineTokens (s : Bytes) : Option (List Bytes) := (cutLine s).map fun p => tokens (· = SP) p.1

/-- The parser returns NULL, and the client is sent a 400. -/
def Rejected (s : Bytes) : Prop :=
  httpRequestFromBuffer s = .ok none ∧ ∀ env directory w, ∃ reply,
    serveChunk env directory w s = .ok (reply, true, w) ∧ reply.response.status = .httpBadRequest

/-- The buffer is a request exactly when its first line consists of three tokens; the method and the
target then are the first two, without line ends. -/
def ReadByLine (s : Bytes) : Prop :=
  match lineTokens s with
  | some [method, target, _] => ∃ request, httpRequestFromBuffer s = .ok (some request) ∧
      request.method = method ∧ request.requestTarget = target ∧
      (CR ∉ method ∧ LF ∉ method) ∧ CR ∉ target ∧ LF ∉ target
  | _ => Rejected s

/-- With line ends taken for letters, the buffer starts with two tokens, each with a space behind it,
and goes on with more than LFs. -/
def HasThreeTokens (s : Bytes) : Prop :=
  ∃ a m b t c, s = a ++ m ++ SP :: (b ++ t ++ SP :: c) ∧ (∀ x ∈ a ++ b, x = SP) ∧
    (m ≠ [] ∧ SP ∉ m) ∧ (t ≠ [] ∧ SP ∉ t) ∧ ∃ x ∈ c, x ≠ LF

/-- The copy of a body whose length is declared stays inside the buffer. -/
def CopiesBody (s : Bytes) : Prop :=
  ∀ m t v block n, requestLine s = some (m, t, v, block) → declaredLength block = some n →
    CopyInside (afterHead block) n

/-- When the first line consists of three tokens, the first two have no line end in them, and a body
is copied inside the buffer; when it does not, the buffer has no three tokens either. -/
def SplitByLine (s : Bytes) : Prop :=
  match lineTokens s with
  | some [method, target, _] =>
    (CR ∉ method ∧ LF ∉ method) ∧ (CR ∉ target ∧ LF ∉ target) ∧ CopiesBody s
  | _ => ¬ HasThreeTokens s

/-! ### The tokens of the buffer -/

theorem token_sp_eq_some_iff (hr : r ≠ []) : token (· = SP) s = some (t, r) ↔
    ∃ a, s = a ++ t ++ SP :: r ∧ (∀ x ∈ a, x = SP) ∧ t ≠ [] ∧ SP ∉ t := by
  have hfree : (∀ x ∈ t, decide (x = SP) = false) ↔ SP ∉ t := by
    constructor
    · intro h hmem
      simpa using h SP hmem
    · intro h x hx
      have hne : x ≠ SP := fun hxs => h (hxs ▸ hx)
      simpa using hne
  rw [token_eq_some_iff hr]
  simp only [decide_eq_true_eq, hfree]
  constructor
  · rintro ⟨a, c, hs, ha, hne, ht, rfl⟩
    exact ⟨a, hs, ha, hne, ht⟩
  · rintro ⟨a, hs, ha, hne, ht⟩
    exact ⟨a, SP, hs, ha, hne, ht, rfl⟩

theorem requestLine_ne_none_iff : requestLine s ≠ none ↔ HasThreeTokens s := by
  constructor
  · intro h
    obtain ⟨⟨m, t, v, block⟩, hline⟩ := Option.ne_none_iff_exists'.1 h
    obtain ⟨r₁, r₂, h1, h2, h3⟩ := requestLine_eq_some hline
    have hr1 : r₁ ≠ [] := ne_nil_of_token h2
    have hr2 : r₂ ≠ [] := ne_nil_of_token h3
    obtain ⟨a, rfl, ha, hm⟩ := (token_sp_eq_some_iff hr1).1 h1
    obtain ⟨b, rfl, hb, ht⟩ := (token_sp_eq_some_iff hr2).1 h2
    refine ⟨a, m, b, t, r₂, rfl, ?_, hm, ht, ?_⟩
    · intro x hx
      rcases List.mem_append.1 hx with hx | hx
      · exact ha x hx
      · exact hb x hx
    · by_contra hall
      push Not at hall
      have hnone := (token_eq_none_iff (d := fun c => decide (c = LF))).2 (by simpa using hall)
      rw [hnone] at h3
      cases h3
  · rintro ⟨a, m, b, t, c, rfl, hab, hm, ht, x, hx, hlf⟩
    have hc : c ≠ [] := List.ne_nil_of_mem hx
    have h1 := (token_sp_eq_some_iff (s := a ++ m ++ SP :: (b ++ t ++ SP :: c)) (by simp)).2
      ⟨a, rfl, fun x hx => hab x (List.mem_append_left b hx), hm⟩
    have h2 := (token_sp_eq_some_iff (s := b ++ t ++ SP :: c) hc).2
      ⟨b, rfl, fun x hx => hab x (List.mem_append_right a hx), ht⟩
    have h3 : token (· = LF) c ≠ none := by
      intro hnone
      have hall := token_eq_none_iff.1 hnone x hx
      exact hlf (by simpa using hall)
    obtain ⟨⟨v, block⟩, h3⟩ := Option.ne_none_iff_exists'.1 h3
    simp only [requestLine, h1, h2, h3]
    exact Option.some_ne_none _

theorem token_append_of_ne_nil (h : token (· = SP) l = some (t, r)) (hr : r ≠ []) (y : Bytes) :
    token (· = SP) (l ++ y) = some (t, r ++ y) := by
  obtain ⟨a, rfl, ha, ht⟩ := (token_sp_eq_some_iff hr).1 h
  exact (token_sp_eq_some_iff (by simp [hr])).2 ⟨a, by simp, ha, ht⟩

theorem token_of_tokens {d : UInt8 → Bool} {ts : List Bytes} (h : tokens d s = t :: ts) :
    ∃ r, token d s = some (t, r) ∧ tokens d r = ts := by
  rw [tokens_eq] at h
  cases htok : token d s with
  | none =>
    rw [htok] at h
    cases h
  | some p =>
    rw [htok] at h
    obtain ⟨rfl, rfl⟩ := List.cons.inj h
    exact ⟨p.2, rfl, rfl⟩

theorem ne_nil_of_tokens {d : UInt8 → Bool} {ts : List Bytes} (h : tokens d s = t :: ts) :
    s ≠ [] := by
  obtain ⟨r, htok, -⟩ := token_of_tokens h
  exact ne_nil_of_token htok

theorem requestLine_of_lineTokens (h : lineTokens s = some [m, t, v]) :
    ∃ v' block, requestLine s = some (m, t, v', block) := by
  obtain ⟨⟨l, rest⟩, hcut, htokens⟩ := Option.map_eq_some_iff.1 h
  obtain ⟨r₁, h1, htokens⟩ := token_of_tokens htokens
  obtain ⟨r₂, h2, htokens'⟩ := token_of_tokens htokens
  have h1' := token_append_of_ne_nil h1 (ne_nil_of_tokens htokens) (CR :: LF :: rest)
  have h2' := token_append_of_ne_nil h2 (ne_nil_of_tokens htokens') (CR :: LF :: rest)
  -- what is left of the line ends in a CR, which is no LF
  have h3 : token (· = LF) (r₂ ++ CR :: LF :: rest) ≠ none := by
    intro hnone
    have hcr := token_eq_none_iff.1 hnone CR (by simp)
    revert hcr
    decide
  obtain ⟨⟨v', block⟩, h3⟩ := Option.ne_none_iff_exists'.1 h3
  refine ⟨v', block, ?_⟩
  rw [eq_of_cutLine hcut]
  simp only [requestLine, h1', h2', h3]

/-! ### Reading by line -/

/-- A buffer with a request line is a request when its body is copied inside. -/
theorem decode_eq_ok_iff {v' : Bytes} (h : requestLine s = some (m, t, v', block)) :
    (∃ request, decode s = .ok (some request)) ↔ CopiesBody s := by
  constructor
  · rintro ⟨request, hdecode⟩ m₁ t₁ v₁ block₁ n hline hn
    rw [decode_of_length hline hn] at hdecode
    obtain ⟨data, hcopy, -⟩ := map_eq_ok.1 hdecode
    exact (copyBody_eq_ok.1 hcopy).1
  · intro hcopies
    cases hn : declaredLength block with
    | none => exact ⟨_, decode_of_line h hn⟩
    | some n =>
      rw [decode_of_length h hn, copyBody_eq_ok.2 ⟨hcopies m t v' block n h hn, rfl⟩]
      exact ⟨_, rfl⟩

/-- A buffer without three tokens is rejected, and no other is. -/
theorem rejected_iff (hs : NulFree s) : Rejected s ↔ ¬ HasThreeTokens s := by
  have heq := httpRequestFromBuffer_eq hs
  rw [← requestLine_ne_none_iff, not_not]
  constructor
  · rintro ⟨hnone, -⟩
    rw [heq] at hnone
    by_contra hline
    obtain ⟨⟨m, t, v, block⟩, hline⟩ := Option.ne_none_iff_exists'.1 hline
    cases hn : declaredLength block with
    | none =>
      rw [decode_of_line hline hn] at hnone
      cases hnone
    | some n =>
      rw [decode_of_length hline hn] at hnone
      obtain ⟨data, -, h⟩ := map_eq_ok.1 hnone
      cases h
  · intro hline
    have hnone := heq.trans (decode_of_none hline)
    refine ⟨hnone, ?_⟩
    intro env directory w
    refine ⟨sendBadRequestMessage env false, ?_, ?_⟩
    · unfold serveChunk
      rw [hs.takeWhile, hnone]
      rfl
    · rw [sendBadRequestMessage, sendMeasured, status_construct]
      rfl

/-- When a buffer is read by its first line: a line of three tokens has no line end in the first two,
and any other buffer has no three tokens before or behind its line ends. -/
theorem readByLine_iff (hs : NulFree s) : ReadByLine s ↔ SplitByLine s := by
  unfold ReadByLine SplitByLine
  split
  · rename_i method target v hthree
    obtain ⟨v', block, hline⟩ := requestLine_of_lineTokens hthree
    have hok := decode_eq_ok_iff hline
    rw [← httpRequestFromBuffer_eq hs] at hok
    constructor
    · rintro ⟨request, hrequest, -, -, hm, ht⟩
      exact ⟨hm, ht, hok.1 ⟨request, hrequest⟩⟩
    · rintro ⟨hm, ht, hcopies⟩
      obtain ⟨request, hrequest⟩ := hok.2 hcopies
      have hdecode := hrequest
      rw [httpRequestFromBuffer_eq hs] at hdecode
      obtain ⟨m₁, t₁, v₁, block₁, data, hline₁, rfl⟩ := request_of_decode hdecode
      rw [hline] at hline₁
      cases hline₁
      exact ⟨_, hrequest, rfl, rfl, hm, ht⟩
  · exact rejected_iff hs

def rootText : Bytes := lit "GET / HTTP/1.1\r\nHost: a\r\n\r\n"

theorem readByLine_rootText : ReadByLine rootText := by
  apply (readByLine_iff (by decide)).2
  have hline : requestLine rootText =
      some (lit "GET", lit "/", lit "HTTP/1.1\r", lit "Host: a\r\n\r\n") := rfl
  refine ⟨by decide, by decide, ?_⟩
  intro m t v block n hsome hn
  rw [hline] at hsome
  cases hsome
  cases hn

/-- A target and no version, above a header with a space in its value. -/
def noVersion : Bytes := lit "GET /\r\nHost: a b\r\n\r\n"

/-- No version, and no line end after it either. -/
def noLineEnd : Bytes := lit "GET / HTTP/1.1"

/-- **A request line without a version** is not rejected: the target takes the line end and the name of
the header, and the value is the version.  Nor is one without a line end. -/
theorem not_readByLine : ¬ ReadByLine noVersion ∧ ¬ ReadByLine noLineEnd ∧
    ∃ request, httpRequestFromBuffer noVersion = .ok (some request) ∧
      request.requestTarget = lit "/\r\nHost:" := by
  have hversion : requestLine noVersion =
    some (lit "GET", lit "/\r\nHost:", lit "a b\r", lit "\r\n") := rfl
  have hend : requestLine noLineEnd = some (lit "GET", lit "/", lit "HTTP/1.1", []) := rfl
  refine ⟨?_, ?_, ?_⟩
  · intro h
    have hrejected : Rejected noVersion := h
    exact (rejected_iff (by decide)).1 hrejected
      (requestLine_ne_none_iff.1 (by rw [hversion]; exact Option.some_ne_none _))
  · intro h
    have hrejected : Rejected noLineEnd := h
    exact (rejected_iff (by decide)).1 hrejected
      (requestLine_ne_none_iff.1 (by rw [hend]; exact Option.some_ne_none _))
  · refine ⟨_, (httpRequestFromBuffer_eq (by decide)).trans (decode_of_line hversion rfl), rfl⟩

end HttpServer

import HttpServer.Canonical
import HttpServer.Children
import HttpServer.Methods
import HttpServer.ChildBlocks

/-!
# What a child leaves

The count of `ChildBlocks` from any ledger (`child_blocks`), and the requests that leave nothing
(`leavesNothing`): those for `/` without a field, with a method that begins with `GET`, at a server
without a directory.  Every other chunk that is answered leaves two blocks or more, so a child gives all
of its memory back only when it was sent nothing else (`child_blocks_left`).
-/

namespace HttpServer

open Lib

theorem getCstr_of_entries_nil {s k : Bytes} {request : HttpRequest} (hs : NulFree s)
    (h : httpRequestFromBuffer s = .ok (some request)) (hnil : request.headers.entries = [])
    (hk : NulFree k) : request.headers.getCstr k = none := by
  rw [httpRequestFromBuffer_eq hs] at h
  obtain ⟨m, t, v, block, data, -, rfl⟩ := request_of_decode h
  have hwf : (headerMap (fields block)).WF := ⟨_, holds_headerMap _⟩
  rw [Hashmap.getCstr, Hashmap.get_eq_find? hwf hk]
  simp only at hnil
  rw [hnil]
  rfl

namespace Blocks

variable {env : Env} {directory : Option Bytes} {w w' : World} {chunk : Bytes}
  {chunks : List (Env × Bytes)} {replies : List Reply} {request : HttpRequest}

theorem parsed_getRoot_getClosing :
    ∀ c ∈ [(Env.plain, getRoot.encode), (Env.plain, getClosing.encode)],
      ∃ o, HttpServer.httpRequestFromBuffer (c.2.takeWhile (· ≠ 0)) = .ok o := by
  intro c hc
  rcases List.mem_pair.1 hc with rfl | rfl
  · exact ⟨_, getRoot.parsed_chunk⟩
  · exact ⟨_, getClosing.parsed_chunk⟩

/-- The requests that leave nothing: for `/` and without a field, with a method that begins with `GET`,
at a server without a directory. -/
def leavesNothing (directory : Option Bytes) (chunk : Bytes) : Bool :=
  match HttpServer.httpRequestFromBuffer (chunk.takeWhile (· ≠ 0)) with
  | .ok (some request) => directory = none ∧ request.headers.entries = [] ∧
      request.requestTarget = lit "/" ∧ (lit "GET").isPrefixOf request.method = true
  | _ => false

theorem leavesNothing_iff : leavesNothing directory chunk = true ↔ ∃ request,
    HttpServer.httpRequestFromBuffer (chunk.takeWhile (· ≠ 0)) = .ok (some request) ∧
      directory = none ∧ request.headers.entries = [] ∧ request.requestTarget = lit "/" ∧
        (lit "GET").isPrefixOf request.method = true := by
  unfold leavesNothing
  constructor
  · intro h
    split at h
    · next request hparse => exact ⟨request, hparse, by simpa using h⟩
    · cases h
  · rintro ⟨request, hparse, h⟩
    rw [hparse]
    simpa using h

/-- Such a request is answered without a block that stays. -/
theorem turnLeft_of_leavesNothing (h : leavesNothing directory chunk = true) (env : Env) (w : World) :
    turnLeft env directory w chunk = 0 := by
  obtain ⟨request, hparse, rfl, hnil, htarget, hmethod⟩ := leavesNothing_iff.1 h
  have hnone : ∀ k, NulFree k → request.headers.getCstr k = none := fun k hk =>
    getCstr_of_entries_nil (nulFree_takeWhile _) hparse hnil hk
  have hcloses : request.closes = false := by
    rw [HttpRequest.closes, hnone (lit "Connection") (by decide)]
  have hchosen : chosenBuilder env none request w = some (errorBuilder env .httpOk false) := by
    rw [chosenBuilder, targetOf_root.2 htarget]
    simp only [hmethod, if_true, bareBuilder_eq, hcloses]
  have hlength : parseLeft (some request) = 0 := by
    rw [parseLeft, hnone (lit "Content-Length") (by decide)]
    rfl
  rw [turnLeft, hparse]
  simp only [hlength, hnil, answerLeft, hchosen, targetLeft, targetOf_root.2 htarget]
  rfl

theorem two_le_messageLeft (shouldClose : Bool) : 2 ≤ messageLeft shouldClose := by
  cases shouldClose <;> decide

theorem two_le_targetLeft {builder : HttpResponseBuilder}
    (h : chosenBuilder env directory request w = some builder)
    (hagent : request.headers.getCstr (lit "User-Agent") = none)
    (hnot : ¬ (directory = none ∧ request.requestTarget = lit "/" ∧
      (lit "GET").isPrefixOf request.method = true)) : 2 ≤ targetLeft env directory request w := by
  unfold chosenBuilder at h
  unfold targetLeft
  cases ht : targetOf request.requestTarget with
  | root =>
    simp only [ht] at h ⊢
    have hget : (lit "GET").isPrefixOf request.method = true := by
      by_contra hget
      rw [if_neg hget] at h
      cases h
    cases directory with
    | none => exact absurd ⟨rfl, targetOf_root.1 ht, hget⟩ hnot
    | some directory => exact le_refl 2
  | echo result =>
    simp only
    omega
  | userAgent =>
    simp only [ht, hagent] at h
    cases h
  | files filename =>
    simp only
    omega
  | other =>
    simp only [ht] at h
    cases h

/-- **Every other chunk leaves two blocks or more**: a text that is not a request its builder, a field
its name and value, a parameter likewise, and a request that no handler answers the builder of the
error. -/
theorem two_le_turnLeft {r : Reply × Bool × World}
    (h : HttpServer.serveChunk env directory w chunk = .ok r) (hnot : ¬ leavesNothing directory chunk = true) :
    2 ≤ turnLeft env directory w chunk := by
  unfold HttpServer.serveChunk at h
  obtain ⟨parsed, hparse, -⟩ := bind_eq_ok.1 h
  rw [turnLeft, hparse]
  cases parsed with
  | none => exact le_of_eq_of_le rfl (Nat.le_add_right 2 _)
  | some request =>
    simp only
    by_cases hnil : request.headers.entries = []
    · have hagent := getCstr_of_entries_nil (nulFree_takeWhile _) hparse hnil
        (show NulFree (lit "User-Agent") by decide)
      have hanswer : 2 ≤ answerLeft env directory request w := by
        unfold answerLeft
        cases hchosen : chosenBuilder env directory request w with
        | none => exact (two_le_messageLeft _).trans (Nat.le_add_left _ _)
        | some builder =>
          refine (two_le_targetLeft hchosen hagent ?_).trans (Nat.le_add_right _ _)
          rintro ⟨hdirectory, htarget, hmethod⟩
          exact hnot (leavesNothing_iff.2 ⟨request, hparse, hdirectory, hnil, htarget, hmethod⟩)
      exact hanswer.trans (Nat.le_add_left _ _)
    · have hpos := List.length_pos_iff.2 hnil
      omega

/-! ### The whole connection -/

/-- `left` blocks are what the answers to `answered` leave: none, or two or more for each that leaves
something. -/
structure LeftBy (directory : Option Bytes) (answered : List (Env × Bytes)) (left : ℕ) : Prop where
  two_mul_le : 2 * answered.countP (fun c => ¬ leavesNothing directory c.2 = true) ≤ left
  eq_zero_iff : left = 0 ↔ ∀ c ∈ answered, leavesNothing directory c.2 = true

theorem leftBy_nil (directory : Option Bytes) : LeftBy directory [] 0 := ⟨Nat.zero_le _, by simp⟩

theorem LeftBy.cons {r : Reply × Bool × World} {answered : List (Env × Bytes)} {left : ℕ}
    (h : LeftBy directory answered left)
    (hturn : HttpServer.serveChunk env directory w chunk = .ok r) :
    LeftBy directory ((env, chunk) :: answered) (turnLeft env directory w chunk + left) := by
  have hle := h.two_mul_le
  have hzero := h.eq_zero_iff
  by_cases hl : leavesNothing directory chunk = true
  · rw [turnLeft_of_leavesNothing hl env w, zero_add]
    refine ⟨?_, ?_⟩
    · rwa [List.countP_cons_of_neg (by simpa using hl)]
    · rw [List.forall_mem_cons, hzero]
      exact (and_iff_right hl).symm
  · have htwo := two_le_turnLeft hturn hl
    refine ⟨?_, ?_⟩
    · rw [List.countP_cons_of_pos (by simpa using hl)]
      omega
    · constructor
      · intro hsum
        omega
      · intro hall
        exact absurd (hall _ List.mem_cons_self) hl

theorem leftBy_connectionLeft
    (h : HttpServer.connectionLoop directory chunks w = .ok (replies, w')) :
    LeftBy directory (chunks.take replies.length) (connectionLeft directory chunks w) := by
  induction chunks generalizing w replies with
  | nil =>
    cases h
    exact leftBy_nil directory
  | cons c chunks ih =>
    obtain ⟨env, chunk⟩ := c
    unfold HttpServer.connectionLoop at h
    unfold connectionLeft
    by_cases hend : chunk = []
    · simp only [if_pos hend] at h ⊢
      cases h
      exact leftBy_nil directory
    simp only [if_neg hend] at h ⊢
    obtain ⟨⟨reply, stop, w₁⟩, hturn, h⟩ := bind_eq_ok.1 h
    simp only [hturn]
    cases stop with
    | true =>
      cases h
      exact (leftBy_nil directory).cons hturn
    | false =>
      obtain ⟨⟨rest, w₂⟩, hrest, h⟩ := bind_eq_ok.1 h
      cases h
      exact (ih hrest).cons hturn

/-- **What a child leaves, by what it was sent.**  A child gives back all of its memory exactly when
every request that it answered was one for `/` without a field, with a method that begins with `GET`, at
a server without a directory; of every other chunk that it answered it keeps two blocks or more. -/
theorem child_blocks_left (h : HttpServer.connectionLoop directory chunks w = .ok (replies, w'))
    (L : Ledger) : ∃ L' lost, child directory chunks w L = .ok ((replies, w'), L') ∧
      L'.live = L.live + lost ∧
      2 * (chunks.take replies.length).countP (fun c => ¬ leavesNothing directory c.2 = true) ≤
        lost.card ∧
      (lost = 0 ↔ ∀ c ∈ chunks.take replies.length, leavesNothing directory c.2 = true) := by
  obtain ⟨q, L', lost, hrun, rfl, hcard, hlive⟩ := exchanges_child h L L.live (zero_add _).symm
  obtain ⟨hle, hzero⟩ := leftBy_connectionLeft h
  refine ⟨L', lost, hrun, by rw [hlive, zero_add, add_comm], hcard ▸ hle, ?_⟩
  rw [← Multiset.card_eq_zero, hcard, hzero]

theorem child_blocks_left_getRoot_getClosing : ∃ replies w' L' lost,
    child none [(Env.plain, getRoot.encode), (Env.plain, getClosing.encode)] World.empty
        Ledger.empty = .ok ((replies, w'), L') ∧ L'.live = Ledger.empty.live + lost ∧
      2 * ([(Env.plain, getRoot.encode), (Env.plain, getClosing.encode)].take
        replies.length).countP (fun c => ¬ leavesNothing none c.2 = true) ≤ lost.card ∧
      (lost = 0 ↔ ∀ c ∈ [(Env.plain, getRoot.encode), (Env.plain, getClosing.encode)].take
        replies.length, leavesNothing none c.2 = true) := by
  obtain ⟨replies, w', hloop⟩ := exists_connectionLoop none parsed_getRoot_getClosing World.empty
  obtain ⟨L', lost, h⟩ := child_blocks_left hloop Ledger.empty
  exact ⟨replies, w', L', lost, h⟩

end Blocks

end HttpServer

import HttpServer.RequestSafety
import HttpServer.Platform

/-!
# The loop of the child process, event by event

The loop of `main.c` as it is written: the index that runs over the table, the `continue` of a handler
that declines, the test `index == routes_len`, the flag `should_close` and the two calls of `recv`.
Its trace is one `send` for every chunk that it takes (`childProcess_conversation`), the same for every
order of the table, since no target matches two entries; and its replies are those of
`connectionLoop` (`replies_childLoop`).
-/

namespace HttpServer

open Lib HttpResponseBuilder

variable {env : Env} {directory : Option Bytes} {request : HttpRequest} {w w' : World}
  {reply : Reply} {chunk : Bytes} {table : List Route} {results : List (Env × Bytes)}

/-! ### The loop as it is written -/

/-- What the child process does on its socket. -/
inductive Event where
  | recv (chunk : Bytes)
  | send (reply : Reply)

abbrev routesLen : ℕ := 4

/-- The loop over the table: `index` when it ends, what was sent, and the files. -/
def routeLoop (env : Env) (directory : Option Bytes) (request : HttpRequest) (table : List Route)
    (index : ℕ) (sent : List Reply) (w : World) : Except Fault (ℕ × List Reply × World) :=
  if _ : index < routesLen then
    match table[index]? with
    | none => .error .outOfBounds
    | some route =>
      if routeMatches route request.requestTarget then do
        match ← route.handler env request (routeParams directory route request) w with
        -- continue
        | (none, w) => routeLoop env directory request table (index + 1) sent w
        -- break
        | (some response, w) => .ok (index, sent ++ [sendResponse env response], w)
      else routeLoop env directory request table (index + 1) sent w
  else .ok (index, sent, w)
termination_by routesLen - index

/-- A pass of the loop over the chunks: what was sent, `should_close`, and whether it ends with
`break`. -/
structure Pass where
  sent : List Reply
  shouldClose : Bool
  broke : Bool
  world : World

/-- The body of the loop, up to the second call of `recv`. -/
def childPass (table : List Route) (env : Env) (directory : Option Bytes) (shouldClose : Bool)
    (w : World) (chunk : Bytes) : Except Fault Pass := do
  match ← httpRequestFromBuffer (chunk.takeWhile (· ≠ 0)) with
  | none => .ok ⟨[sendBadRequestMessage env shouldClose], shouldClose, true, w⟩
  | some request =>
    let shouldClose := if request.closes then true else shouldClose
    let (index, sent, w) ← routeLoop env directory request table 0 [] w
    let sent :=
      if index = routesLen then sent ++ [sendNotFoundMessage env shouldClose] else sent
    .ok ⟨sent, shouldClose, false, w⟩

/-- What a call of `recv` delivers when `results` are the results to come; nothing is the end of the
stream, or an error. -/
def received (results : List (Env × Bytes)) : Bytes := (results.head?.map (·.2)).getD []

/-- The loop over the chunks, with the chunk in the buffer at the head of `results`. -/
def childLoop (table : List Route) (directory : Option Bytes) :
    List (Env × Bytes) → Bool → World → Except Fault (List Event × World)
  | [], _, w => .ok ([], w)
  | (env, chunk) :: results, shouldClose, w =>
    if shouldClose = false ∧ chunk ≠ [] then do
      let pass ← childPass table env directory shouldClose w chunk
      let sends := pass.sent.map .send
      if pass.broke then .ok (sends, pass.world)
      else if pass.shouldClose = false then do
        let (events, w) ← childLoop table directory results pass.shouldClose pass.world
        .ok (sends ++ .recv (received results) :: events, w)
      else .ok (sends, pass.world)
    else .ok ([], w)

/-- **At most one entry of the table matches a target.** -/
theorem length_filter_routes (target : Bytes) :
    (routes.filter (routeMatches · target)).length ≤ 1 := by
  have hpair := (routes_pairwise target).filter (routeMatches · target)
  have hmem : ∀ r ∈ routes.filter (routeMatches · target), routeMatches r target = true :=
    fun r hr => (List.mem_filter.1 hr).2
  rcases hf : routes.filter (routeMatches · target) with _ | ⟨r, _ | ⟨r', rest⟩⟩
  · simp
  · simp
  · rw [hf] at hpair hmem
    exact absurd ⟨hmem r (by simp), hmem r' (by simp)⟩ (List.rel_of_pairwise_cons hpair (by simp))

theorem eq_of_routeMatches {route route' : Route} {target : Bytes} (h : route ∈ routes)
    (h' : route' ∈ routes) (hm : routeMatches route target = true)
    (hm' : routeMatches route' target = true) : route = route' := by
  have hr : route ∈ routes.filter (routeMatches · target) := List.mem_filter.2 ⟨h, hm⟩
  have hr' : route' ∈ routes.filter (routeMatches · target) := List.mem_filter.2 ⟨h', hm'⟩
  obtain ⟨a, ha⟩ := List.length_eq_one_iff.1
    (le_antisymm (length_filter_routes target) (List.length_pos_of_mem hr))
  rw [ha] at hr hr'
  rw [List.mem_singleton.1 hr, List.mem_singleton.1 hr']

theorem scanRoutes_perm (hperm : table.Perm routes) :
    scanRoutes env directory request table w = scanRoutes env directory request routes w := by
  have htable := (hperm.pairwise_iff fun h h' => h h'.symm).2 (routes_pairwise request.requestTarget)
  have hfind := List.find?_eq_find?_of_perm (p := (routeMatches · request.requestTarget)) hperm.symm
    fun _ hr _ hr' => eq_of_routeMatches hr.1 hr'.1 hr.2 hr'.2
  rw [scanRoutes_of_pairwise htable, scanRoutes_eq, hfind]

/-! ### One pass -/

/-- **The loop over the table** sends the response that the scan finds, and ends at `routes_len` when
there is none. -/
theorem routeLoop_spec (hlen : table.length = routesLen) (sent : List Reply) {index : ℕ}
    (hi : index ≤ routesLen) (w : World) :
    match scanRoutes env directory request (table.drop index) w with
    | .error e => routeLoop env directory request table index sent w = .error e
    | .ok (found, w') => ∃ i,
        routeLoop env directory request table index sent w =
          .ok (i, sent ++ (found.map (sendResponse env)).toList, w') ∧
        (i = routesLen ↔ found = none) := by
  -- the turns that are left
  induction hn : routesLen - index generalizing index w with
  | zero =>
    have hend : index = routesLen := by omega
    have hnil : table.drop index = [] := List.drop_eq_nil_of_le (by omega)
    rw [hnil, scanRoutes, routeLoop, dif_neg (by omega)]
    exact ⟨index, by simp, by simp [hend]⟩
  | succ n ih =>
    have hlt : index < routesLen := by omega
    have htable : index < table.length := by omega
    have hnext := fun w => @ih (index + 1) (by omega) w (by omega)
    rw [List.drop_eq_getElem_cons htable, scanRoutes, routeLoop, dif_pos hlt,
      List.getElem?_eq_getElem htable]
    by_cases hm : routeMatches table[index] request.requestTarget = true
    · simp only [hm, if_true]
      cases hh : table[index].handler env request (routeParams directory table[index] request) w with
      | error e => rfl
      | ok p =>
        obtain ⟨_ | response, w'⟩ := p
        · exact hnext w'
        · exact ⟨index, rfl, by simp; omega⟩
    · simp only [hm, Bool.false_eq_true, if_false]
      exact hnext w

/-- **A pass** sends the one reply of `serveChunk`, and the loop goes on when that says so. -/
theorem childPass_eq (hperm : table.Perm routes) (env : Env) (directory : Option Bytes) (w : World)
    (chunk : Bytes) :
    match serveChunk env directory w chunk with
    | .error e => childPass table env directory false w chunk = .error e
    | .ok (reply, stop, w') => ∃ pass, childPass table env directory false w chunk = .ok pass ∧
        pass.sent = [reply] ∧ pass.world = w' ∧ (pass.broke || pass.shouldClose) = stop := by
  unfold serveChunk childPass
  cases httpRequestFromBuffer (chunk.takeWhile (· ≠ 0)) with
  | error e => rfl
  | ok parsed =>
    cases parsed with
    | none => exact ⟨_, rfl, rfl, rfl, rfl⟩
    | some request =>
      have hscan := @routeLoop_spec env directory request table hperm.length_eq [] 0
        (Nat.zero_le routesLen) w
      rw [List.drop_zero, scanRoutes_perm hperm] at hscan
      simp only [answer, bind, Except.bind]
      cases hs : scanRoutes env directory request routes w with
      | error e =>
        rw [hs] at hscan
        simp only at hscan
        simp only [hscan]
      | ok p =>
        obtain ⟨found, w'⟩ := p
        rw [hs] at hscan
        obtain ⟨i, hloop, hi⟩ := hscan
        simp only [hloop]
        cases found with
        | none =>
          rw [hi.2 rfl]
          exact ⟨_, rfl, by cases request.closes <;> rfl, rfl, by cases request.closes <;> rfl⟩
        | some response =>
          have hne : i ≠ routesLen := fun h => by simpa using hi.1 h
          simp only [hne, if_false]
          exact ⟨_, rfl, rfl, rfl, by cases request.closes <;> rfl⟩

/-! ### The loop over the chunks -/

theorem childLoop_cons (hperm : table.Perm routes) (hne : chunk ≠ []) :
    childLoop table directory ((env, chunk) :: results) false w = (do
      let (reply, stop, w) ← serveChunk env directory w chunk
      if stop then .ok ([.send reply], w)
      else do
        let (events, w) ← childLoop table directory results false w
        .ok (.send reply :: .recv (received results) :: events, w)) := by
  have hpass := childPass_eq hperm env directory w chunk
  rw [childLoop, if_pos ⟨rfl, hne⟩]
  cases hs : serveChunk env directory w chunk with
  | error e =>
    rw [hs] at hpass
    simp only at hpass
    rw [hpass]
    rfl
  | ok p =>
    obtain ⟨reply, stop, w'⟩ := p
    rw [hs] at hpass
    obtain ⟨⟨sent, shouldClose, broke, w₁⟩, h, hsent, hw, hstop⟩ := hpass
    simp only at hsent hw hstop
    subst hsent hw hstop
    rw [h]
    simp only [bind, Except.bind]
    cases broke with
    | true => rfl
    | false =>
      cases shouldClose with
      | true => rfl
      | false => rfl

theorem childLoop_nil (shouldClose : Bool) :
    childLoop table directory ((env, []) :: results) shouldClose w = .ok ([], w) := by
  rw [childLoop, if_neg (by simp)]

def Event.reply? : Event → Option Reply
  | .recv _ => none
  | .send reply => some reply

/-- **The loop refines `connectionLoop`**: what it sends is its list of replies, faults included. -/
theorem replies_childLoop (hperm : table.Perm routes) :
    (childLoop table directory results false w).map (fun p => (p.1.filterMap Event.reply?, p.2)) =
      connectionLoop directory results w := by
  induction results generalizing w with
  | nil => rfl
  | cons c results ih =>
    obtain ⟨env, chunk⟩ := c
    rw [connectionLoop]
    by_cases hnil : chunk = []
    · subst hnil
      rw [childLoop_nil]
      rfl
    rw [childLoop_cons hperm hnil, if_neg hnil]
    cases serveChunk env directory w chunk with
    | error e => rfl
    | ok p =>
      obtain ⟨reply, stop, w'⟩ := p
      simp only [bind, Except.bind]
      cases stop with
      | true => rfl
      | false =>
        simp only [Bool.false_eq_true, if_false, ← ih]
        cases childLoop table directory results false w' <;> rfl

/-! ### What a conversation is -/

/-- The chunks that are delivered before the end of the stream. -/
def delivered (results : List (Env × Bytes)) : List (Env × Bytes) := results.takeWhile (·.2 ≠ [])

/-- The chunk is parsed, and its headers do not ask for the end of the connection. -/
def Continues (chunk : Bytes) : Prop :=
  ∃ request, httpRequestFromBuffer (chunk.takeWhile (· ≠ 0)) = .ok (some request) ∧
    request.headers.getCstr (lit "Connection") ≠ some (lit "close")

/-- A reply without body: its status, and its bytes, of which the line that closes and the line end
behind it are there when `closes` holds.  What memory has up to the next NUL is sent with it. -/
structure BareReply (env : Env) (status : HttpStatus) (closes : Bool) (reply : Reply) : Prop where
  outcome : reply.response.status = status
  sent : reply.sent =
    ((createHttpResponseBuilder status).message (closeField closes) []).render ++
      (if closes then CRLF else []) ++ env.tail.takeWhile (· ≠ 0)

/-- The reply that is due to a chunk, and the files after it: a 400, the `http_response_size` bytes of
the response of a handler, or a 404. -/
inductive Due (env : Env) (directory : Option Bytes) (w : World) (chunk : Bytes) :
    Reply → World → Prop
  | refused {reply : Reply} (parsed : httpRequestFromBuffer (chunk.takeWhile (· ≠ 0)) = .ok none)
      (sent : BareReply env .httpBadRequest false reply) :
      Due env directory w chunk reply w
  | handled {request : HttpRequest} {route : Route} {reply : Reply} {w' : World}
      (parsed : httpRequestFromBuffer (chunk.takeWhile (· ≠ 0)) = .ok (some request))
      (entry : route ∈ routes) (matched : routeMatches route request.requestTarget = true)
      (handler : route.handler env request (routeParams directory route request) w =
        .ok (some reply.response, w'))
      (sent : reply.sent = reply.response.message env ∧
        reply.sent.length = reply.response.size) :
      Due env directory w chunk reply w'
  | declined {request : HttpRequest} {route : Route} {reply : Reply} {w' : World}
      (parsed : httpRequestFromBuffer (chunk.takeWhile (· ≠ 0)) = .ok (some request))
      (entry : route ∈ routes) (matched : routeMatches route request.requestTarget = true)
      (handler : route.handler env request (routeParams directory route request) w = .ok (none, w'))
      (sent : BareReply env .httpNotFound request.closes reply) :
      Due env directory w chunk reply w'
  | unmatched {request : HttpRequest} {reply : Reply}
      (parsed : httpRequestFromBuffer (chunk.takeWhile (· ≠ 0)) = .ok (some request))
      (entry : ∀ route ∈ routes, routeMatches route request.requestTarget = false)
      (sent : BareReply env .httpNotFound request.closes reply) :
      Due env directory w chunk reply w

/-- Turns with the replies that are due, the files handed on. -/
inductive DueRun (directory : Option Bytes) : World → List Turn → World → Prop
  | nil (w : World) : DueRun directory w [] w
  | cons {w w₁ w₂ : World} {t : Turn} {turns : List Turn}
      (due : Due t.env directory w t.chunk t.reply w₁) (rest : DueRun directory w₁ turns w₂) :
      DueRun directory w (t :: turns) w₂

/-- The turns of a connection that delivers the chunks `chunks`, and the calls of `recv` that end it. -/
structure Conversation (directory : Option Bytes) (chunks : List (Env × Bytes)) (w : World)
    (turns : List Turn) (ending : List Event) (w' : World) : Prop where
  /-- Each turn has the reply that is due. -/
  due : DueRun directory w turns w'
  /-- The turns take the chunks in order. -/
  taken : (turns.map fun t => (t.env, t.chunk)) <+: chunks
  first : chunks ≠ [] → turns ≠ []
  /-- A further chunk is taken exactly when the one before it says so. -/
  next : ∀ i t, i + 1 < chunks.length → turns[i]? = some t →
    (i + 1 < turns.length ↔ Continues t.chunk)
  /-- `recv` is called once more, for the end of the stream, unless a turn ended the connection. -/
  last : (∀ t ∈ turns, Continues t.chunk) ∧ ending = [.recv []] ∨
    (∃ t ∈ turns, ¬ Continues t.chunk) ∧ ending = []

theorem bareReply_error (env : Env) (status : HttpStatus) (closes : Bool) :
    BareReply env status closes (sendMeasured env ((errorBuilder env status closes).construct env)) where
  outcome := (status_construct _).trans (by cases closes <;> rfl)
  sent := by
    simp only [sendMeasured]
    rw [buffer_errorBuilder, (nulFree_errorMessage status closes).takeWhile_append]

theorem sent_sendResponse (env : Env) (response : HttpResponse) :
    (sendResponse env response).sent = response.message env ∧
      (sendResponse env response).sent.length = response.size := by
  refine ⟨rfl, ?_⟩
  rw [sendResponse, List.length_take, HttpResponse.length_buffer]
  exact min_self _

theorem due_of_serveChunk {stop : Bool}
    (h : serveChunk env directory w chunk = .ok (reply, stop, w')) :
    Due env directory w chunk reply w' ∧ (stop = false ↔ Continues chunk) := by
  rcases turn_of_serveChunk h with ⟨hr, rfl, rfl, rfl⟩ | ⟨request, hr, rfl, ha⟩
  · refine ⟨.refused hr (bareReply_error _ _ _), iff_of_false (by simp) ?_⟩
    rintro ⟨request, hr', -⟩
    rw [hr] at hr'
    cases hr'
  constructor
  · obtain ⟨⟨found, w₂⟩, hs, ha⟩ := bind_eq_ok.1 ha
    rw [scanRoutes_eq] at hs
    cases hf : routes.find? (routeMatches · request.requestTarget) with
    | none =>
      rw [hf] at hs
      cases hs
      cases ha
      exact .unmatched hr (fun route hroute => by simpa using List.find?_eq_none.1 hf route hroute)
        (bareReply_error _ _ _)
    | some route =>
      rw [hf] at hs
      have hmem := List.mem_of_find?_eq_some hf
      have hm := List.find?_some (p := (routeMatches · request.requestTarget)) hf
      cases found with
      | none =>
        cases ha
        exact .declined hr hmem hm hs (bareReply_error _ _ _)
      | some response =>
        cases ha
        exact .handled hr hmem hm hs (sent_sendResponse _ _)
  · have hcloses : request.closes = false ↔
        request.headers.getCstr (lit "Connection") ≠ some (lit "close") := by
      unfold HttpRequest.closes
      cases request.headers.getCstr (lit "Connection") <;> simp
    rw [hcloses]
    refine ⟨fun h => ⟨request, hr, h⟩, fun ⟨request', hr', h⟩ => ?_⟩
    rw [hr] at hr'
    cases hr'
    exact h

/-- The turns of a connection, as they are seen on the socket. -/
def Turn.events (t : Turn) : List Event := [.recv t.chunk, .send t.reply]

section Conversation

variable {chunks : List (Env × Bytes)} {turns : List Turn} {ending : List Event} {w₁ w₂ : World}

theorem Conversation.cons (h : Conversation directory chunks w₁ turns ending w₂)
    (due : Due env directory w chunk reply w₁) (hnext : Continues chunk) :
    Conversation directory ((env, chunk) :: chunks) w (⟨env, chunk, reply⟩ :: turns) ending w₂ where
  due := .cons due h.due
  taken := by simpa using h.taken
  first := by simp
  next := by
    intro i t hi ht
    cases i with
    | zero =>
      obtain rfl : ⟨env, chunk, reply⟩ = t := by simpa using ht
      have hchunks : chunks ≠ [] := by
        rintro rfl
        simp at hi
      have hpos := List.length_pos_iff.2 (h.first hchunks)
      exact iff_of_true (by simpa using hpos) hnext
    | succ i =>
      have := h.next i t (by simpa using hi) (by simpa using ht)
      simpa using this
  last := by
    rcases h.last with ⟨hall, he⟩ | ⟨⟨t, ht, hstop⟩, he⟩
    · exact Or.inl ⟨by simpa using ⟨hnext, hall⟩, he⟩
    · exact Or.inr ⟨⟨t, List.mem_cons_of_mem _ ht, hstop⟩, he⟩

end Conversation

end HttpServer

import HttpServer.MainSem
import HttpServer.RouteBlocks

/-!
# The blocks of a child process

The loop of a child with its blocks, down to those of `malloc` that bstrings and nodes are made of.
Whatever the connection brings, as long as its requests are read in bounds, no block is freed twice and
none is used after it is freed; the replies are those of the model without blocks; and what is left at
the end is exactly `connectionLeft`: two blocks for every field of a request and every header and
parameter, and what the parser, the handlers and the error messages leave.
-/

namespace HttpServer

open Lib

namespace Blocks

/-! ### The program -/

/-- The type and path of a route, and its handler. -/
structure TableRoute where
  route : Route
  handler : Handler

def table : List TableRoute :=
  [ ⟨⟨.routeExact, lit "/", HttpServer.routeRoot⟩, routeRoot⟩,
    ⟨⟨.routeParam, lit "/echo/", HttpServer.routeEcho⟩, routeEcho⟩,
    ⟨⟨.routeExact, lit "/user-agent", HttpServer.routeUserAgent⟩, routeUserAgent⟩,
    ⟨⟨.routeParam, lit "/files/", HttpServer.routeFiles⟩, routeFiles⟩ ]

def setParam (route : Route) (request : RequestPtr) (params : HashmapPtr) : M HashmapPtr :=
  if route.type = .routeParam then do
    touch ({request.self} + request.requestTarget.blocks)
    let param ← bfromcstr (request.requestTarget.text.drop route.path.length)
    let key ← bfromcstr (lit "param")
    params.set key param
  else pure params

/-- The parameter `directory`, when the server was started with one. -/
def setDirectory (directory : Option Bytes) (params : HashmapPtr) : M HashmapPtr :=
  match directory with
  | some directory => params.setField (lit "directory") directory
  | none => pure params

def routeParams (directory : Option Bytes) (route : Route) (request : RequestPtr) : M HashmapPtr := do
  let params ← HashmapPtr.create
  let params ← setParam route request params
  setDirectory directory params

/-- The scan of the routes, up to the call of `log_send`. -/
def scanRoutes (env : Env) (directory : Option Bytes) (request : RequestPtr) :
    List TableRoute → World → M (Option Reply × World)
  | [], w => pure (none, w)
  | r :: rest, w => do
    touch ({request.self} + request.requestTarget.blocks)
    if routeMatches r.route request.requestTarget.text then do
      let params ← routeParams directory r.route request
      let handled ← r.handler env request params w
      match handled.response with
      | none => do
        handled.params.destroy
        scanRoutes env directory request rest handled.world
      | some response => do
        let buffer ← response.toBuffer env
        touch (buffer.blocks + response.blocks)
        let reply : Reply :=
          { response := response.value, sent := buffer.text.take response.value.size }
        handled.params.destroy
        response.destroy
        free buffer.block
        pure (some reply, handled.world)
    else scanRoutes env directory request rest w

def closeIf (shouldClose : Bool) (builder : BuilderPtr) : M BuilderPtr :=
  if shouldClose then builder.close else pure builder

/-- `send_bad_request_message` and `send_not_found_message`. -/
def sendMessage (env : Env) (status : HttpStatus) (shouldClose : Bool) : M Reply := do
  let builder ← BuilderPtr.create status
  let builder ← closeIf shouldClose builder
  let built ← builder.construct env
  let message ← built.1.toBuffer env
  touch message.blocks
  let reply : Reply :=
    { response := built.1.value, sent := (message.text ++ env.tail).takeWhile (· ≠ 0) }
  built.1.destroy
  free message.block
  pure reply

/-- The test of `Connection` in `main`. -/
def closes (request : RequestPtr) : M Bool := do
  match ← request.header (lit "Connection") with
  | some connection => do
    touch connection.blocks
    pure (connection.text = lit "close")
  | none => pure false

def sendNotFoundIfNone (env : Env) (shouldClose : Bool) : Option Reply → M Reply
  | some reply => pure reply
  | none => sendMessage env .httpNotFound shouldClose

def serveChunk (env : Env) (directory : Option Bytes) (w : World) (chunk : Bytes) :
    M (Reply × Bool × World) := do
  match ← httpRequestFromBuffer (chunk.takeWhile (· ≠ 0)) with
  | none => do
    let reply ← sendMessage env .httpBadRequest false
    pure (reply, true, w)
  | some request => do
    let shouldClose ← closes request
    let scanned ← scanRoutes env directory request table w
    let reply ← sendNotFoundIfNone env shouldClose scanned.1
    request.destroy
    pure (reply, shouldClose, scanned.2)

/-- The loop of the child over the chunks that come into its buffer. -/
def connectionLoop (buffer : ℕ) (directory : Option Bytes) :
    List (Env × Bytes) → World → M (List Reply × World)
  | [], w => pure ([], w)
  | (env, chunk) :: chunks, w =>
    if chunk = [] then pure ([], w)
    else do
      touch {buffer}
      let turn ← serveChunk env directory w chunk
      if turn.2.1 then pure ([turn.1], turn.2.2)
      else do
        let rest ← connectionLoop buffer directory chunks turn.2.2
        pure (turn.1 :: rest.1, rest.2)

def child (directory : Option Bytes) (chunks : List (Env × Bytes)) (w : World) :
    M (List Reply × World) := do
  let buffer ← alloc
  let sent ← connectionLoop buffer directory chunks w
  free buffer
  pure sent

/-! ### The scan of the routes -/

section Scan

variable {env : Env} {directory : Option Bytes} {request : RequestPtr} {w w' : World} {r : TableRoute}
  {routes : List TableRoute} {builder : Option HttpResponseBuilder} {n : ℕ}

theorem mem_target (request : RequestPtr) :
    ∀ x ∈ {request.self} + request.requestTarget.blocks, x ∈ request.blocks := by
  intro x hx
  rw [RequestPtr.blocks]
  simp only [Multiset.mem_add] at hx ⊢
  tauto

theorem exchanges_setParam (route : Route) (request : RequestPtr) (params : HashmapPtr) :
    Exchanges (params.blocks + request.blocks) (setParam route request params)
      (fun m => m.value = if route.type = .routeParam then
        params.value.set (lit "param") (request.value.requestTarget.drop route.path.length)
        else params.value)
      (fun m => m.blocks + request.blocks) 0 := by
  unfold setParam
  by_cases h : route.type = .routeParam
  · rw [if_pos h]
    refine (exchanges_touch (mem_target request)).step params.blocks (add_comm _ _) fun _ _ => ?_
    refine (exchanges_bfromcstr _).step _ (zero_add _).symm fun param hparam => ?_
    refine (exchanges_bfromcstr _).step _ (zero_add _).symm fun key hkey => ?_
    refine ((params.exchanges_set key param).frame request.blocks).imp (fun m hm => ?_)
      (fun _ _ => rfl) ?_
    · rw [if_pos h, hm, hkey, hparam]
      rfl
    · abel
  · rw [if_neg h]
    exact .ret (if_neg h).symm rfl

theorem exchanges_setDirectory (directory : Option Bytes) (params : HashmapPtr) :
    Exchanges params.blocks (setDirectory directory params)
      (fun m => m.value = match directory with
        | some directory => params.value.set (lit "directory") directory
        | none => params.value)
      HashmapPtr.blocks 0 := by
  cases directory with
  | none => exact .ret rfl rfl
  | some directory => exact params.exchanges_setField _ _

theorem exchanges_routeParams (directory : Option Bytes) (route : Route) (request : RequestPtr) :
    Exchanges request.blocks (routeParams directory route request)
      (fun m => m.value = HttpServer.routeParams directory route request.value)
      (fun m => m.blocks + request.blocks) 0 := by
  refine HashmapPtr.exchanges_create.step request.blocks (zero_add _).symm fun m₀ h₀ => ?_
  refine (exchanges_setParam route request m₀).step 0 (add_zero _).symm fun m₁ h₁ => ?_
  rw [add_zero]
  refine ((exchanges_setDirectory directory m₁).frame request.blocks).imp (fun m hm => ?_)
    (fun _ _ => rfl) rfl
  rw [hm, h₁, h₀]
  rfl

theorem exchanges_scanRoutes_none (w : World)
    (h : ∀ r ∈ routes, ¬ routeMatches r.route request.value.requestTarget = true) :
    Exchanges request.blocks (scanRoutes env directory request routes w) (fun q => q = (none, w))
      (fun _ => request.blocks) 0 := by
  induction routes with
  | nil => exact .ret rfl rfl
  | cons r rest ih =>
    refine (exchanges_touch (mem_target request)).step 0 (add_zero _).symm fun _ _ => ?_
    rw [if_neg (show ¬ routeMatches r.route request.requestTarget.text = true from
      h r List.mem_cons_self), add_zero]
    exact ih fun r hr => h r (List.mem_cons_of_mem _ hr)

def directories (directory : Option Bytes) : ℕ := if directory.isSome then 1 else 0

theorem length_routeParams (directory : Option Bytes) (route : Route) (request : HttpRequest) :
    (HttpServer.routeParams directory route request).entries.length =
      (if route.type = .routeParam then 1 else 0) + directories directory := by
  have hset : ∀ {m : Hashmap Bytes} (_ : m.WF) (key value : Bytes),
      (m.set key value).entries.length = m.entries.length + 1 := fun h key value =>
    (Hashmap.entries_set h key value).length_eq
  have hcreate : (Hashmap.create : Hashmap Bytes).entries.length = 0 := by
    rw [Hashmap.entries_create, List.length_nil]
  unfold HttpServer.routeParams
  by_cases hr : route.type = .routeParam
  · simp only [hr, if_true]
    cases directory with
    | none => exact (hset Hashmap.wf_create _ _).trans (congrArg (· + 1) hcreate)
    | some directory =>
      rw [hset (Hashmap.wf_create.set _ _), hset Hashmap.wf_create, hcreate]
      rfl
  · simp only [hr, if_false]
    cases directory with
    | none => exact hcreate
    | some directory => exact (hset Hashmap.wf_create _ _).trans (congrArg (· + 1) hcreate)

/-- The sending of a response, behind which everything but the request is freed. -/
theorem exchanges_scanRoutes (directory : Option Bytes) (hpair : routes.Pairwise fun r r' =>
      ¬ (routeMatches r.route request.value.requestTarget = true ∧
        routeMatches r'.route request.value.requestTarget = true))
    (hfind : routes.find? (fun r => routeMatches r.route request.value.requestTarget) = some r)
    (hhandler : ∀ params, params.value = HttpServer.routeParams directory r.route request.value →
      Handles (r.handler env request params w) env request params builder w' n) :
    Exchanges request.blocks (scanRoutes env directory request routes w)
      (fun q => q = (builder.map fun b => sendResponse env (b.construct env), w'))
      (fun _ => request.blocks) (n + answeredLeft builder +
        2 * ((if r.route.type = .routeParam then 1 else 0) + directories directory)) := by
  rw [← length_routeParams directory r.route request.value]
  induction routes with
  | nil => cases hfind
  | cons r' rest ih =>
    obtain ⟨hr', hrest⟩ := List.pairwise_cons.1 hpair
    refine (exchanges_touch (mem_target request)).step 0 (add_zero _).symm fun _ _ => ?_
    rw [List.find?_cons] at hfind
    by_cases hm : routeMatches r'.route request.value.requestTarget = true
    · rw [hm] at hfind
      cases hfind
      have hnone : ∀ r' ∈ rest, ¬ routeMatches r'.route request.value.requestTarget = true :=
        fun r' hr hr'' => hr' r' hr ⟨hm, hr''⟩
      rw [if_pos (show routeMatches r.route request.requestTarget.text = true from hm)]
      refine (exchanges_routeParams directory r.route request).step 0 rfl fun params hparams => ?_
      refine Exchanges.stepLosing
        (m := 2 * (HttpServer.routeParams directory r.route request.value).entries.length)
        (hhandler params hparams) 0 ?_ rfl ?_
      · abel
      rintro ⟨response, world, params'⟩ ⟨hresponse, rfl, hsize⟩
      have hentries : params'.value.entries.length =
          (HttpServer.routeParams directory r.route request.value).entries.length := by
        rw [← params'.size_eq, hsize, params.size_eq, hparams]
      simp only at hresponse ⊢
      cases builder with
      | none =>
        obtain rfl : response = none := Option.map_eq_none_iff.1 hresponse
        refine params'.exchanges_destroy.stepLosing (m := 0) request.blocks ?_ ?_ fun _ _ => ?_
        · rw [blocksOf, Option.elim_none]
          abel
        · rw [hentries, add_zero]
        · rw [zero_add]
          exact exchanges_scanRoutes_none world hnone
      | some b =>
        obtain ⟨response, rfl, hvalue⟩ := Option.map_eq_some_iff.1 hresponse
        simp only [blocksOf, Option.elim_some]
        refine (response.exchanges_toBuffer env).step (request.blocks + params'.blocks) ?_
          fun buffer hbuffer => ?_
        · abel
        refine (exchanges_touch_all (buffer.blocks + response.blocks)).step
          (request.blocks + params'.blocks) rfl fun _ _ => ?_
        refine params'.exchanges_destroy.stepLosing (m := 0)
          (buffer.blocks + response.blocks + request.blocks) ?_ ?_ fun _ _ => ?_
        · abel
        · rw [hentries, add_zero]
        refine response.exchanges_destroy.step (buffer.blocks + request.blocks) ?_ fun _ _ => ?_
        · abel
        refine (exchanges_free buffer.block).step request.blocks ?_ fun _ _ => .ret ?_ (zero_add _)
        · rw [CString.blocks]
          abel
        · rw [hbuffer, hvalue]
          rfl
    · rw [if_neg (show ¬ routeMatches r'.route request.requestTarget.text = true from hm), add_zero]
      rw [Bool.not_eq_true] at hm
      rw [hm] at hfind
      exact ih hrest hfind

theorem find?_table (target : Bytes) : table.find? (fun r => routeMatches r.route target) =
    match targetOf target with
    | .root => some ⟨⟨.routeExact, lit "/", HttpServer.routeRoot⟩, routeRoot⟩
    | .echo _ => some ⟨⟨.routeParam, lit "/echo/", HttpServer.routeEcho⟩, routeEcho⟩
    | .userAgent => some ⟨⟨.routeExact, lit "/user-agent", HttpServer.routeUserAgent⟩, routeUserAgent⟩
    | .files _ => some ⟨⟨.routeParam, lit "/files/", HttpServer.routeFiles⟩, routeFiles⟩
    | .other => none := by
  unfold targetOf
  simp only [table, List.find?_cons, List.find?_nil, routeMatches]
  by_cases h1 : target = lit "/"
  · simp [h1]
  by_cases h2 : (lit "/echo/").isPrefixOf target = true
  · simp only [h1, h2, decide_false, if_false, if_true]
  by_cases h3 : target = lit "/user-agent"
  · simp only [h1, h2, if_false, Bool.false_eq_true, decide_false, if_pos h3]
    simp [h3]
  by_cases h4 : (lit "/files/").isPrefixOf target = true
  · simp only [h1, h2, h3, h4, decide_false, if_false, if_true, Bool.false_eq_true]
  · simp only [h1, h2, h3, h4, decide_false, if_false, Bool.false_eq_true]

theorem table_pairwise (target : Bytes) : table.Pairwise fun r r' =>
    ¬ (routeMatches r.route target = true ∧ routeMatches r'.route target = true) := by
  have h := routes_pairwise target
  have hroutes : HttpServer.routes = table.map (·.route) := rfl
  rw [hroutes, List.pairwise_map] at h
  exact h

/-- What a matched route leaves besides the blocks of its builder: two blocks of every parameter, and
what its handler leaves. -/
def targetLeft (env : Env) (directory : Option Bytes) (request : HttpRequest) (w : World) : ℕ :=
  match targetOf request.requestTarget with
  | .root => 2 * directories directory
  | .echo result => 2 * (1 + directories directory) + echoLeft env request result
  | .userAgent => 2 * directories directory
  | .files filename => 2 * (1 + directories directory) + filesLeft directory request w filename
  | .other => 0

/-- **The scan of the routes** sends what the model without blocks sends. -/
theorem exchanges_scanTable (h : answerWorld env directory request.value w = .ok w') :
    Exchanges request.blocks (scanRoutes env directory request table w)
      (fun q => q = ((chosenBuilder env directory request.value w).map fun b =>
        sendResponse env (b.construct env), w'))
      (fun _ => request.blocks) (targetLeft env directory request.value w +
        answeredLeft (chosenBuilder env directory request.value w)) := by
  have hfind := find?_table request.value.requestTarget
  have hpair := table_pairwise request.value.requestTarget
  unfold answerWorld at h
  unfold targetLeft chosenBuilder
  cases ht : targetOf request.value.requestTarget with
  | root =>
    simp only [ht] at h hfind ⊢
    cases h
    refine (exchanges_scanRoutes directory hpair hfind fun params _ =>
      handles_routeRoot env request params w).loses ?_
    simp only [reduceCtorEq, if_false]
    omega
  | echo result =>
    simp only [ht] at h hfind ⊢
    cases h
    have hparam := HttpServer.routeParams_param directory request.value
      (show Route.type ⟨.routeParam, lit "/echo/", HttpServer.routeEcho⟩ = .routeParam from rfl)
    rw [eq_of_targetOf_echo ht, List.drop_left] at hparam
    refine (exchanges_scanRoutes directory hpair hfind fun params hparams =>
      handles_routeEcho env request w (by rw [hparams]; exact hparam)).loses ?_
    simp only [if_true]
    omega
  | userAgent =>
    simp only [ht] at h hfind ⊢
    cases h
    refine (exchanges_scanRoutes directory hpair hfind fun params _ =>
      handles_routeUserAgent env request params w).loses ?_
    simp only [reduceCtorEq, if_false]
    omega
  | files filename =>
    simp only [ht] at h hfind ⊢
    have hparam := HttpServer.routeParams_param directory request.value
      (show Route.type ⟨.routeParam, lit "/files/", HttpServer.routeFiles⟩ = .routeParam from rfl)
    rw [eq_of_targetOf_files ht, List.drop_left] at hparam
    have hw : (if request.value.method = lit "GET" then .ok (getFilesWorld directory w filename)
        else if request.value.method = lit "POST" then
          postFilesWorld env directory request.value w filename
        else .ok w : Except Fault World) = .ok w' := by
      rw [← h]
      cases directory <;> rfl
    refine (exchanges_scanRoutes directory hpair hfind fun params hparams =>
      handles_routeFiles env request (by rw [hparams]; exact routeParams_directory _)
        (by rw [hparams]; exact hparam) hw).loses ?_
    simp only [if_true]
    omega
  | other =>
    simp only [ht] at h hfind ⊢
    cases h
    exact exchanges_scanRoutes_none w fun r hr => by
      simpa using List.find?_eq_none.1 hfind r hr

end Scan

/-! ### Error messages -/

section Messages

variable {env : Env} {directory : Option Bytes} {request : RequestPtr} {w w' : World}

theorem exchanges_closeIf (env : Env) (shouldClose : Bool) (builder : BuilderPtr) :
    Exchanges builder.blocks (closeIf shouldClose builder)
      (fun b => b.value = if shouldClose then builder.value.option env .close else builder.value)
      BuilderPtr.blocks 0 := by
  cases shouldClose with
  | true => exact builder.exchanges_close env
  | false => exact .ret rfl rfl

/-- What an error message leaves: its builder, with the map and the text of its header block when it
closes. -/
def messageLeft (shouldClose : Bool) : ℕ := if shouldClose then 13 else 2

theorem card_builder {builder : BuilderPtr} (hdata : builder.value.data = none) : builder.blocks.card =
    2 + (blocksOf HashmapPtr.blocks builder.headers).card := by
  have hnone : builder.data = none := Option.map_eq_none_iff.1 hdata
  have hself : ({builder.self} + builder.httpVersion.blocks : Multiset ℕ).card = 2 := rfl
  rw [BuilderPtr.blocks, hnone, Multiset.card_add, Multiset.card_add, hself]
  rfl

theorem card_final {env : Env} {status : HttpStatus} {shouldClose : Bool} {b final : BuilderPtr}
    (hfinal : final.value = { b.value with headers := b.value.finalHeaders })
    (hb : b.value = errorBuilder env status shouldClose) :
    final.blocks.card + 0 = 2 + if shouldClose then 10 else 0 := by
  rw [hb] at hfinal
  have hdata : final.value.data = none := by
    rw [hfinal]
    cases shouldClose <;> rfl
  have hheaders : final.headers.map (·.value) = (errorBuilder env status shouldClose).finalHeaders :=
    congrArg HttpResponseBuilder.headers hfinal
  rw [add_zero, card_builder hdata]
  cases shouldClose with
  | false =>
    have hnone : final.headers = none := Option.map_eq_none_iff.1 hheaders
    rw [hnone]
    rfl
  | true =>
    obtain ⟨m, hm, hvalue⟩ := Option.map_eq_some_iff.1 hheaders
    rw [hm, blocksOf, Option.elim_some, HashmapPtr.card_blocks_single hvalue]
    rfl

/-- **An error message** leaves its builder. -/
theorem exchanges_sendMessage (env : Env) (status : HttpStatus) (shouldClose : Bool) :
    Exchanges 0 (sendMessage env status shouldClose)
      (fun r => r = sendMeasured env ((errorBuilder env status shouldClose).construct env))
      (fun _ => 0) (messageLeft shouldClose) := by
  refine (BuilderPtr.exchanges_create status).step 0 rfl ?_
  rintro b₀ ⟨hb₀, -, -⟩
  refine (exchanges_closeIf env shouldClose b₀).step 0 rfl fun b hb => ?_
  have herror : b.value = errorBuilder env status shouldClose := by
    rw [hb, hb₀]
    rfl
  have hleft : messageLeft shouldClose = (if b.value.finalHeaders.isSome then 1 else 0) +
      (2 + if shouldClose then 10 else 0) := by
    rw [herror]
    cases shouldClose <;> rfl
  refine (b.exchanges_construct env).stepLosing (m := 2 + if shouldClose then 10 else 0) 0
    rfl hleft ?_
  rintro ⟨response, final⟩ ⟨hvalue, hfinal⟩
  have hcard := card_final hfinal herror
  refine (response.exchanges_toBuffer env).step final.blocks (add_zero _) fun message hmessage => ?_
  refine (exchanges_touch_all message.blocks).step (response.blocks + final.blocks) (add_assoc ..)
    fun _ _ => ?_
  refine response.exchanges_destroy.step (message.blocks + final.blocks) ?_ fun _ _ => ?_
  · abel
  refine Exchanges.forget (n := 0) final.blocks (?_ : _ = message.blocks + _) hcard.symm
    ((exchanges_free message.block).step 0 (add_zero _).symm fun _ _ => .ret ?_ (zero_add _))
  · rw [zero_add]
  · rw [hmessage, hvalue, herror]
    rfl

end Messages

/-! ### The loop -/

section Loop

variable {env : Env} {directory : Option Bytes} {request : RequestPtr} {w w' : World} {chunk : Bytes}
  {buffer : ℕ} {chunks : List (Env × Bytes)} {replies : List Reply}

theorem exchanges_closes (request : RequestPtr) : Exchanges request.blocks (closes request)
    (fun c => c = request.value.closes) (fun _ => request.blocks) 0 := by
  refine (request.exchanges_header (by decide)).step 0 (add_zero _).symm ?_
  rintro r ⟨htext, hlent⟩
  rw [HttpRequest.closes, ← htext, add_zero]
  cases r with
  | none => exact .ret rfl rfl
  | some connection =>
    refine (exchanges_touch (hlent connection rfl)).step 0 (add_zero _).symm fun _ _ => ?_
    exact .ret rfl (add_zero _)

theorem exchanges_sendNotFoundIfNone (env : Env) (shouldClose : Bool) (sent : Option Reply) :
    Exchanges 0 (sendNotFoundIfNone env shouldClose sent)
      (fun r => r = sent.getD (sendNotFoundMessage env shouldClose)) (fun _ => 0)
      (if sent.isSome then 0 else messageLeft shouldClose) := by
  cases sent with
  | some reply => exact .ret rfl rfl
  | none => exact exchanges_sendMessage env .httpNotFound shouldClose

/-- What the answer to a request leaves. -/
def answerLeft (env : Env) (directory : Option Bytes) (request : HttpRequest) (w : World) : ℕ :=
  targetLeft env directory request w +
    match chosenBuilder env directory request w with
    | some builder => BuilderPtr.builderLeft builder
    | none => messageLeft request.closes

/-- What the answer to a chunk leaves: of a request, two blocks of every field, and the C string of a
declared length. -/
def turnLeft (env : Env) (directory : Option Bytes) (w : World) (chunk : Bytes) : ℕ :=
  match HttpServer.httpRequestFromBuffer (chunk.takeWhile (· ≠ 0)) with
  | .error _ => 0
  | .ok none => parseLeft none + messageLeft false
  | .ok (some request) =>
    parseLeft (some request) + 2 * request.headers.entries.length + answerLeft env directory request w

theorem reply_of_answer {request : HttpRequest} {reply : Reply}
    (h : answer env directory request w = .ok (reply, w')) :
    ((chosenBuilder env directory request w).map fun b => sendResponse env (b.construct env)).getD
      (sendNotFoundMessage env request.closes) = reply := by
  have hworld := answerWorld_of_answer h
  rw [answer_eq, hworld] at h
  have hpair := Except.ok.inj h
  rw [← (Prod.mk.inj hpair).1]
  cases chosenBuilder env directory request w <;> rfl

/-- What an answer leaves, in the order in which it is left: the target, the builder or the message,
and the fields of the request. -/
theorem answerLeft_eq (env : Env) (directory : Option Bytes) (request : HttpRequest) (w : World) :
    2 * request.headers.entries.length + answerLeft env directory request w =
      targetLeft env directory request w + answeredLeft (chosenBuilder env directory request w) +
      ((if ((chosenBuilder env directory request w).map fun b =>
          sendResponse env (b.construct env)).isSome then 0 else messageLeft request.closes) +
        2 * request.headers.entries.length) := by
  unfold answerLeft answeredLeft
  cases chosenBuilder env directory request w with
  | none =>
    simp only [Option.elim_none, Option.map_none, Option.isSome_none, Bool.false_eq_true, if_false]
    omega
  | some b =>
    simp only [Option.elim_some, Option.map_some, Option.isSome_some, if_true]
    omega

/-- **A turn** of the loop gives the reply of the model without blocks, and leaves `turnLeft`. -/
theorem exchanges_serveChunk {r : Reply × Bool × World}
    (h : HttpServer.serveChunk env directory w chunk = .ok r) :
    Exchanges 0 (serveChunk env directory w chunk) (fun q => q = r) (fun _ => 0)
      (turnLeft env directory w chunk) := by
  unfold HttpServer.serveChunk at h
  obtain ⟨parsed, hparsed, h⟩ := bind_eq_ok.1 h
  unfold turnLeft
  rw [hparsed]
  refine (exchanges_httpRequestFromBuffer hparsed).stepLosing
    (m := match parsed with
      | none => messageLeft false
      | some request => 2 * request.headers.entries.length + answerLeft env directory request w)
    0 rfl ?_ fun p hp => ?_
  · cases parsed with
    | none => rfl
    | some request => exact add_assoc ..
  cases p with
  | none =>
    obtain rfl : parsed = none := hp.symm
    cases h
    refine (exchanges_sendMessage env .httpBadRequest false).stepLosing (m := 0) 0 rfl rfl ?_
    rintro _ rfl
    exact .ret rfl rfl
  | some request =>
    obtain rfl : parsed = some request.value := hp.symm
    obtain ⟨⟨reply, w'⟩, hanswer, h⟩ := bind_eq_ok.1 h
    cases h
    have hworld := answerWorld_of_answer hanswer
    have hreply := reply_of_answer hanswer
    have hleft := answerLeft_eq env directory request.value w
    refine (exchanges_closes request).step 0 rfl ?_
    rintro _ rfl
    refine (exchanges_scanTable hworld).stepLosing 0 rfl hleft ?_
    rintro _ rfl
    refine (exchanges_sendNotFoundIfNone env request.value.closes _).stepLosing
      (m := 2 * request.value.headers.entries.length) request.blocks ?_ rfl ?_
    · rw [add_zero, zero_add]
    rintro _ rfl
    refine request.exchanges_destroy.stepLosing (m := 0) 0 ?_ (add_zero _).symm fun _ _ => .ret ?_ rfl
    · rw [add_zero, zero_add]
    · rw [hreply]

/-- What the connection leaves: what its turns leave. -/
def connectionLeft (directory : Option Bytes) : List (Env × Bytes) → World → ℕ
  | [], _ => 0
  | (env, chunk) :: chunks, w =>
    if chunk = [] then 0
    else turnLeft env directory w chunk +
      match HttpServer.serveChunk env directory w chunk with
      | .ok (_, false, w) => connectionLeft directory chunks w
      | _ => 0

theorem exchanges_connectionLoop {r : List Reply × World}
    (h : HttpServer.connectionLoop directory chunks w = .ok r) :
    Exchanges {buffer} (connectionLoop buffer directory chunks w) (fun q => q = r) (fun _ => {buffer})
      (connectionLeft directory chunks w) := by
  induction chunks generalizing w r with
  | nil =>
    cases h
    exact .ret rfl rfl
  | cons c chunks ih =>
    obtain ⟨env, chunk⟩ := c
    unfold HttpServer.connectionLoop at h
    unfold connectionLoop connectionLeft
    by_cases hend : chunk = []
    · simp only [if_pos hend] at h ⊢
      cases h
      exact .ret rfl rfl
    simp only [if_neg hend] at h ⊢
    obtain ⟨⟨reply, stop, w₁⟩, hturn, h⟩ := bind_eq_ok.1 h
    simp only [hturn]
    refine (exchanges_touch_all {buffer}).step 0 (add_zero _).symm fun _ _ => ?_
    cases stop with
    | true =>
      cases h
      refine (exchanges_serveChunk hturn).stepLosing (m := 0) {buffer} ?_ rfl ?_
      · rw [add_zero, zero_add]
      rintro _ rfl
      exact .ret rfl (zero_add _)
    | false =>
      obtain ⟨⟨replies, w₂⟩, hrest, h⟩ := bind_eq_ok.1 h
      cases h
      refine (exchanges_serveChunk hturn).stepLosing (m := connectionLeft directory chunks w₁)
        {buffer} ?_ rfl ?_
      · rw [add_zero, zero_add]
      rintro _ rfl
      rw [zero_add]
      refine (ih hrest).stepLosing (m := 0) 0 (add_zero _).symm (add_zero _).symm ?_
      rintro _ rfl
      exact .ret rfl (add_zero _)

/-- **A child frees no block twice, uses none that is freed, and leaves exactly `connectionLeft`.**
It sends the replies of the model without blocks; with any other blocks around, these stay as they
are. -/
theorem exchanges_child (h : HttpServer.connectionLoop directory chunks w = .ok (replies, w')) :
    Exchanges 0 (child directory chunks w) (fun q => q = (replies, w')) (fun _ => 0)
      (connectionLeft directory chunks w) := by
  refine exchanges_alloc.step 0 rfl fun buffer _ => ?_
  refine (exchanges_connectionLoop h).stepLosing (m := 0) 0 rfl (add_zero _).symm ?_
  rintro _ rfl
  refine (exchanges_free buffer).step 0 rfl fun _ _ => ?_
  exact .ret rfl rfl

end Loop

end Blocks

end HttpServer

import HttpServer.RoutesSem

/-!
# The answer to a request

At most one route matches a target, so the scan of the routes is a choice by the target
(`targetOf`): of one builder (`chosenBuilder`) and of one change to the files (`answerWorld`).  The
answer is put together from the two (`answer_eq`).  What is read off them: the path that a request
opens (`openedPath`), the path that it stores at (`storesAt`), which is a matter of a 201
(`statusCode_replyBuilder`), and the kind of the answer (`answerKind`).
-/

namespace HttpServer

open Lib

variable {env : Env} {directory : Option Bytes} {request : HttpRequest} {w w' : World}
  {reply : Reply} {target name result content path : Bytes}

/-! ### Targets -/

/-- What a target stands for in the table of routes. -/
inductive Target where
  | root
  | echo (result : Bytes)
  | userAgent
  | files (filename : Bytes)
  | other

def targetOf (target : Bytes) : Target :=
  if target = lit "/" then .root
  else if (lit "/echo/").isPrefixOf target then .echo (target.drop 6)
  else if target = lit "/user-agent" then .userAgent
  else if (lit "/files/").isPrefixOf target then .files (target.drop 7)
  else .other

/-- The builder of the handler that the target of a request selects, unless that declines. -/
def chosenBuilder (env : Env) (directory : Option Bytes) (request : HttpRequest) (w : World) :
    Option HttpResponseBuilder :=
  match targetOf request.requestTarget with
  | .root =>
    if (lit "GET").isPrefixOf request.method then some (bareBuilder env request .httpOk) else none
  | .echo result => some (echoBuilder env request result)
  | .userAgent =>
    (request.headers.getCstr (lit "User-Agent")).map (userAgentBuilder env request)
  | .files filename =>
    if request.method = lit "GET" then some (getFilesBuilder env directory request w filename)
    else if request.method = lit "POST" then
      some (bareBuilder env request (postFilesStatus env directory request filename))
    else none
  | .other => none

def answerWorld (env : Env) (directory : Option Bytes) (request : HttpRequest) (w : World) :
    Except Fault World :=
  match targetOf request.requestTarget with
  | .files filename =>
    if request.method = lit "GET" then
      match directory with
      | none => .ok w
      | some directory => .ok (w.touch (directory ++ filename))
    else if request.method = lit "POST" then postFilesWorld env directory request w filename
    else .ok w
  | _ => .ok w

def replyBuilder (env : Env) (directory : Option Bytes) (request : HttpRequest) (w : World) :
    HttpResponseBuilder :=
  (chosenBuilder env directory request w).getD (errorBuilder env .httpNotFound request.closes)

/-- The path and the length that a request stores at: a `POST` to a file that can be written. -/
def storesAt (env : Env) (directory : Option Bytes) (request : HttpRequest) : Option (Bytes × ℤ) :=
  match targetOf request.requestTarget, directory, request.contentLength with
  | .files filename, some directory, some n =>
    if request.method = lit "POST" ∧ env.canWrite (directory ++ filename) then
      some (directory ++ filename, n)
    else none
  | _, _, _ => none

def openedPath (directory : Option Bytes) (request : HttpRequest) : Option Bytes :=
  match targetOf request.requestTarget, directory with
  | .files filename, some directory =>
    if request.method = lit "GET" ∨ request.method = lit "POST" ∧ request.contentLength.isSome then
      some (directory ++ filename)
    else none
  | _, _ => none

/-- The kinds of answers, by what they carry. -/
inductive AnswerKind where
  /-- No body; the answer closes with the request. -/
  | bare
  /-- The 400 for a file without a directory, which never closes. -/
  | refused
  | echo (result : Bytes)
  | userAgent (result : Bytes)
  | file (content : Bytes)
  deriving DecidableEq

/-- The kind of the answer to a request. -/
def answerKind (directory : Option Bytes) (request : HttpRequest) (w : World) : AnswerKind :=
  match targetOf request.requestTarget with
  | .echo result => .echo result
  | .userAgent =>
    match request.headers.getCstr (lit "User-Agent") with
    | some result => .userAgent result
    | none => .bare
  | .files filename =>
    if request.method = lit "GET" then
      match directory with
      | none => .refused
      | some directory =>
        match w.files (directory ++ filename) with
        | some content => .file content
        | none => .bare
    else .bare
  | _ => .bare

theorem append_drop_of_isPrefixOf {p s : Bytes} {n : ℕ} (h : p.isPrefixOf s = true)
    (hn : p.length = n) : s = p ++ s.drop n := by
  obtain ⟨t, rfl⟩ := List.isPrefixOf_iff_prefix.1 h
  rw [← hn, List.drop_left]

theorem targetOf_echo (result : Bytes) : targetOf (lit "/echo/" ++ result) = .echo result := by
  have hroot : ¬ lit "/echo/" ++ result = lit "/" := fun h => by simp [lit] at h
  have hecho : (lit "/echo/").isPrefixOf (lit "/echo/" ++ result) = true := by simp
  unfold targetOf
  rw [if_neg hroot, if_pos hecho, show (6 : ℕ) = (lit "/echo/").length from rfl, List.drop_left]

theorem targetOf_files (name : Bytes) : targetOf (lit "/files/" ++ name) = .files name := by
  have hroot : ¬ lit "/files/" ++ name = lit "/" := fun h => by simp [lit] at h
  have hagent : ¬ lit "/files/" ++ name = lit "/user-agent" := fun h => by simp [lit] at h
  have hecho : ¬ (lit "/echo/").isPrefixOf (lit "/files/" ++ name) = true := by
    simp [lit, List.isPrefixOf]
  have hfiles : (lit "/files/").isPrefixOf (lit "/files/" ++ name) = true := by simp
  unfold targetOf
  rw [if_neg hroot, if_neg hecho, if_neg hagent, if_pos hfiles,
    show (7 : ℕ) = (lit "/files/").length from rfl, List.drop_left]

theorem eq_of_targetOf_echo (h : targetOf target = .echo result) :
    target = lit "/echo/" ++ result := by
  unfold targetOf at h
  split_ifs at h with h1 h2 h3 h4
  all_goals cases h
  exact append_drop_of_isPrefixOf h2 rfl

theorem eq_of_targetOf_files (h : targetOf target = .files name) :
    target = lit "/files/" ++ name := by
  unfold targetOf at h
  split_ifs at h with h1 h2 h3 h4
  all_goals cases h
  exact append_drop_of_isPrefixOf h4 rfl

/-! ### The scan of the routes -/

/-- The routes that match are apart, so the first one that matches decides. -/
theorem scanRoutes_of_pairwise {routes : List Route}
    (h : routes.Pairwise fun r r' => ¬ (routeMatches r request.requestTarget = true ∧
      routeMatches r' request.requestTarget = true)) :
    scanRoutes env directory request routes w =
      match routes.find? (routeMatches · request.requestTarget) with
      | some route => route.handler env request (routeParams directory route request) w
      | none => .ok (none, w) := by
  induction routes generalizing w with
  | nil => rfl
  | cons route rest ih =>
    obtain ⟨hroute, hrest⟩ := List.pairwise_cons.1 h
    rw [scanRoutes, List.find?_cons]
    by_cases hm : routeMatches route request.requestTarget = true
    · have hnone : rest.find? (routeMatches · request.requestTarget) = none :=
        List.find?_eq_none.2 fun r hr => fun hr' => hroute r hr ⟨hm, hr'⟩
      simp only [hm, if_true]
      cases route.handler env request (routeParams directory route request) w with
      | error e => rfl
      | ok p =>
        obtain ⟨_ | response, w'⟩ := p
        · simp only [bind, Except.bind, ih hrest, hnone]
        · rfl
    · simp only [hm, Bool.false_eq_true, if_false]
      exact ih hrest

theorem not_prefix_of_prefix {p q t : Bytes} (hp : p <+: t) (hpq : ¬ p <+: q) (hqp : ¬ q <+: p) :
    ¬ q <+: t :=
  fun hq => (List.prefix_or_prefix_of_prefix hp hq).elim hpq hqp

theorem routes_pairwise (target : Bytes) : routes.Pairwise fun r r' =>
    ¬ (routeMatches r target = true ∧ routeMatches r' target = true) := by
  have hroot : ∀ p, p <+: target → p ≠ lit "/" → 1 < p.length → target ≠ lit "/" := by
    rintro p hp - hlen rfl
    have := hp.length_le
    have : (lit "/").length = 1 := rfl
    omega
  have hagent : ∀ p, p <+: target → ¬ p <+: lit "/user-agent" → target ≠ lit "/user-agent" := by
    rintro p hp hnot rfl
    exact hnot hp
  simp only [routes, List.pairwise_cons, List.mem_cons, List.not_mem_nil, or_false, routeMatches,
    forall_eq_or_imp, forall_eq, List.isPrefixOf_iff_prefix, decide_eq_true_eq, not_and,
    false_imp_iff, implies_true, List.Pairwise.nil, and_true]
  refine ⟨⟨?_, ?_, ?_⟩, ⟨?_, ?_⟩, ?_⟩
  · exact fun h hp => hroot _ hp (by decide) (by decide) h
  · rintro rfl
    decide
  · exact fun h hp => hroot _ hp (by decide) (by decide) h
  · exact fun hp => hagent _ hp (by decide)
  · exact fun hp => not_prefix_of_prefix hp (by decide) (by decide)
  · exact fun h hp => hagent _ hp (by decide) h

theorem find?_routes (target : Bytes) : routes.find? (routeMatches · target) =
    match targetOf target with
    | .root => some ⟨.routeExact, lit "/", routeRoot⟩
    | .echo _ => some ⟨.routeParam, lit "/echo/", routeEcho⟩
    | .userAgent => some ⟨.routeExact, lit "/user-agent", routeUserAgent⟩
    | .files _ => some ⟨.routeParam, lit "/files/", routeFiles⟩
    | .other => none := by
  unfold targetOf
  simp only [routes, List.find?_cons, List.find?_nil, routeMatches]
  by_cases h1 : target = lit "/"
  · simp [h1]
  by_cases h2 : (lit "/echo/").isPrefixOf target = true
  · simp only [h1, h2, decide_false, if_false, if_true]
  by_cases h3 : target = lit "/user-agent"
  · simp only [h1, h2, if_false, Bool.false_eq_true, decide_false, if_pos h3]
    simp [h3]
  by_cases h4 : (lit "/files/").isPrefixOf target = true
  · simp only [h1, h2, h3, h4, decide_false, if_false, if_true, Bool.false_eq_true]
  · simp only [h1, h2, h3, h4, decide_false, if_false, Bool.false_eq_true]

theorem scanRoutes_eq : scanRoutes env directory request routes w =
    match routes.find? (routeMatches · request.requestTarget) with
    | some route => route.handler env request (routeParams directory route request) w
    | none => .ok (none, w) :=
  scanRoutes_of_pairwise (routes_pairwise _)

/-! ### The parameters -/

theorem routeParams_directory (route : Route) :
    (routeParams directory route request).getCstr (lit "directory") = directory := by
  have h1 := fun v => Hashmap.wf_create.set (lit "param") (v : Bytes)
  have hdir : NulFree (lit "directory") := by decide
  have hne : ¬ lit "directory" = lit "param" := by decide
  unfold routeParams Hashmap.getCstr
  cases directory with
  | none =>
    simp only
    split <;> simp [Hashmap.get_set Hashmap.wf_create _ _ hdir, Hashmap.get_create hdir, hne]
  | some d =>
    simp only
    split
    · simp [Hashmap.get_set (h1 _) _ _ hdir, Hashmap.get_set Hashmap.wf_create _ _ hdir,
        Hashmap.get_create hdir, hne]
    · simp [Hashmap.get_set Hashmap.wf_create _ _ hdir, Hashmap.get_create hdir]

theorem routeParams_param (directory : Option Bytes) (request : HttpRequest) {route : Route}
    (hr : route.type = .routeParam) :
    (routeParams directory route request).getCstr (lit "param") =
      some (request.requestTarget.drop route.path.length) := by
  have h1 := fun v => Hashmap.wf_create.set (lit "param") (v : Bytes)
  have hparam : NulFree (lit "param") := by decide
  unfold routeParams Hashmap.getCstr
  cases directory <;>
    simp [hr, Hashmap.get_set (h1 _) _ _ hparam, Hashmap.get_set Hashmap.wf_create _ _ hparam,
      Hashmap.get_create hparam]

/-! ### The answer -/

theorem scanRoutes_routes : scanRoutes env directory request routes w =
    (answerWorld env directory request w).map fun w' =>
      ((chosenBuilder env directory request w).map (·.construct env), w') := by
  rw [scanRoutes_eq, find?_routes]
  unfold chosenBuilder answerWorld
  cases ht : targetOf request.requestTarget with
  | root =>
    simp only [routeRoot_eq]
    rfl
  | echo result =>
    have hparam := @routeParams_param directory request ⟨.routeParam, lit "/echo/", routeEcho⟩ rfl
    rw [eq_of_targetOf_echo ht, List.drop_left] at hparam
    exact routeEcho_eq hparam
  | userAgent =>
    simp only [routeUserAgent_eq]
    rfl
  | files filename =>
    have hparam := @routeParams_param directory request ⟨.routeParam, lit "/files/", routeFiles⟩ rfl
    rw [eq_of_targetOf_files ht, List.drop_left] at hparam
    simp only [routeFiles]
    by_cases hget : request.method = lit "GET"
    · simp only [if_pos hget]
      rw [getFiles_eq (routeParams_directory _) hparam]
      cases directory <;> rfl
    by_cases hpost : request.method = lit "POST"
    · simp only [if_neg hget, if_pos hpost]
      rw [postFiles_eq (routeParams_directory _) hparam]
      rfl
    · simp only [if_neg hget, if_neg hpost]
      rfl
  | other => rfl

/-- **The answer to a request**: the response of the chosen builder, or else the 404. -/
theorem answer_eq (env : Env) (directory : Option Bytes) (request : HttpRequest) (w : World) :
    answer env directory request w =
    (answerWorld env directory request w).map fun w' =>
      (match chosenBuilder env directory request w with
        | some builder => sendResponse env (builder.construct env)
        | none => sendNotFoundMessage env request.closes, w') := by
  unfold answer
  rw [scanRoutes_routes]
  cases answerWorld env directory request w with
  | error e => rfl
  | ok w' => cases chosenBuilder env directory request w <;> rfl

theorem answerWorld_of_answer (h : answer env directory request w = .ok (reply, w')) :
    answerWorld env directory request w = .ok w' := by
  rw [answer_eq] at h
  obtain ⟨w₁, hw, h⟩ := map_eq_ok.1 h
  rw [hw, (Prod.mk.inj h).2]

theorem answer_response (h : answer env directory request w = .ok (reply, w')) :
    reply.response = (replyBuilder env directory request w).construct env := by
  rw [answer_eq] at h
  obtain ⟨w₁, -, h⟩ := map_eq_ok.1 h
  rw [← (Prod.mk.inj h).1, replyBuilder]
  cases chosenBuilder env directory request w <;> rfl

/-! ### What a request does to the files -/

theorem storesAt_eq_some {n : ℤ} : storesAt env directory request = some (path, n) ↔
    ∃ d name, directory = some d ∧ request.requestTarget = lit "/files/" ++ name ∧
      request.contentLength = some n ∧ request.method = lit "POST" ∧ env.canWrite path ∧
      path = d ++ name := by
  unfold storesAt
  constructor
  · intro h
    split at h
    · rename_i filename d n' ht hn
      split at h
      · rename_i hm
        cases h
        exact ⟨d, filename, rfl, eq_of_targetOf_files ht, hn, hm.1, hm.2, rfl⟩
      · cases h
    · cases h
  · rintro ⟨d, name, rfl, ht, hn, hm, hw, rfl⟩
    simp only [ht, targetOf_files, hn, hm, hw, and_self, if_true]

/-- **What a request does to the files**: it stores one, or opens one, or leaves them. -/
theorem answerWorld_eq : answerWorld env directory request w =
    match storesAt env directory request with
    | some (path, n) => (fwriteBytes request.data n).map (w.store path)
    | none => .ok (match openedPath directory request with
      | some path => w.touch path
      | none => w) := by
  have hmethod : ¬ lit "GET" = lit "POST" := by decide
  have hmethod' : ¬ lit "POST" = lit "GET" := by decide
  unfold answerWorld storesAt openedPath postFilesWorld
  cases targetOf request.requestTarget with
  | files filename =>
    by_cases hget : request.method = lit "GET"
    · cases directory <;> cases request.contentLength <;> simp [hget, hmethod]
    by_cases hpost : request.method = lit "POST"
    · cases directory with
      | none => simp [hpost, hmethod']
      | some d =>
        cases request.contentLength with
        | none => simp [hpost, hmethod']
        | some n => by_cases hw : env.canWrite (d ++ filename) = true <;> simp [hpost, hmethod', hw]
    · cases directory <;> cases request.contentLength <;> simp [hget, hpost]
  | _ => rfl

theorem opened_of_answerWorld (h : answerWorld env directory request w = .ok w') :
    w'.opened = w.opened ++ (openedPath directory request).toList := by
  rw [answerWorld_eq] at h
  cases hst : storesAt env directory request with
  | none =>
    rw [hst] at h
    cases h
    cases openedPath directory request <;> simp [World.touch]
  | some q =>
    obtain ⟨path, n⟩ := q
    rw [hst] at h
    obtain ⟨d, name, rfl, ht, hn, hm, -, rfl⟩ := storesAt_eq_some.1 hst
    obtain ⟨content, -, rfl⟩ := map_eq_ok.1 h
    simp [World.store, openedPath, ht, targetOf_files, hm, hn]

theorem status_construct (builder : HttpResponseBuilder) :
    (builder.construct env).status = builder.statusCode := by
  unfold HttpResponseBuilder.construct
  cases builder.finalHeaders with
  | none => rfl
  | some headers =>
    cases builder.data with
    | none => rfl
    | some data =>
      simp only
      cases headers.getCstr (lit "Content-Length") <;> rfl

theorem answerKind_echo (h : answerKind directory request w = .echo result) :
    request.requestTarget = lit "/echo/" ++ result := by
  unfold answerKind at h
  cases ht : targetOf request.requestTarget with
  | echo result' =>
    rw [ht] at h
    cases h
    exact eq_of_targetOf_echo ht
  | _ =>
    rw [ht] at h
    simp only at h
    repeat' split at h
    all_goals cases h

theorem answerKind_userAgent (h : answerKind directory request w = .userAgent result) :
    request.headers.getCstr (lit "User-Agent") = some result := by
  unfold answerKind at h
  cases ht : targetOf request.requestTarget with
  | userAgent =>
    rw [ht] at h
    simp only at h
    split at h <;> cases h
    assumption
  | _ =>
    rw [ht] at h
    simp only at h
    repeat' split at h
    all_goals cases h

theorem replyBuilder_of_kind (env : Env) (directory : Option Bytes) (request : HttpRequest)
    (w : World) :
    match answerKind directory request w with
    | .bare => ∃ status, replyBuilder env directory request w =
        errorBuilder env status request.closes
    | .refused => replyBuilder env directory request w = createHttpResponseBuilder .httpBadRequest
    | .echo result => replyBuilder env directory request w = echoBuilder env request result
    | .userAgent result =>
      replyBuilder env directory request w = userAgentBuilder env request result
    | .file content => replyBuilder env directory request w =
        fileBuilder env request (content ++ [0]) content.length := by
  have hbare := bareBuilder_eq env request
  unfold replyBuilder chosenBuilder answerKind
  cases targetOf request.requestTarget with
  | root =>
    simp only
    split
    · exact ⟨_, hbare _⟩
    · exact ⟨_, rfl⟩
  | echo result => rfl
  | userAgent =>
    cases request.headers.getCstr (lit "User-Agent") with
    | none => exact ⟨_, rfl⟩
    | some v => rfl
  | files filename =>
    by_cases hget : request.method = lit "GET"
    · simp only [if_pos hget, getFilesBuilder]
      cases directory with
      | none => rfl
      | some d =>
        simp only
        cases w.files (d ++ filename) with
        | none => exact ⟨_, hbare _⟩
        | some content => rfl
    · simp only [if_neg hget]
      split
      · exact ⟨_, hbare _⟩
      · exact ⟨_, rfl⟩
  | other => exact ⟨_, rfl⟩

end HttpServer

import HttpServer.CloseLine

/-!
# Methods

Two requests that differ only in their method, both neither `GET` nor `POST`, ought to be answered
alike.  `route_files` compares the whole method and `route_root` three bytes of it, so at `/` a method
that begins with `GET` is taken for `GET` (`answeredAlike_iff`).
-/

namespace HttpServer

open Lib HttpResponseBuilder

variable {env : Env} {directory : Option Bytes} {request : HttpRequest} {w : World} {m m₁ m₂ : Bytes}

def HttpRequest.withMethod (request : HttpRequest) (method : Bytes) : HttpRequest :=
  { request with method := method }

/-- The method is neither of those that the handlers know. -/
structure OtherMethod (m : Bytes) : Prop where
  get : m ≠ lit "GET"
  post : m ≠ lit "POST"

/-- The targets whose handlers look at the method. -/
def LooksAtMethod (target : Bytes) : Prop :=
  target = lit "/" ∨ (lit "/files/").isPrefixOf target = true

/-- The request is answered with the same bytes under both methods and the files stay as they are;
where a handler looks at the method, it is taken for neither `GET` nor `POST` and the answer is the
404. -/
structure AnsweredAlike (env : Env) (directory : Option Bytes) (request : HttpRequest) (w : World)
    (m₁ m₂ : Bytes) : Prop where
  same : ∃ reply₁ reply₂, answer env directory (request.withMethod m₁) w = .ok (reply₁, w) ∧
    answer env directory (request.withMethod m₂) w = .ok (reply₂, w) ∧ reply₁.sent = reply₂.sent
  declined : LooksAtMethod request.requestTarget → ∀ m, m = m₁ ∨ m = m₂ → ∀ reply,
    answer env directory (request.withMethod m) w = .ok (reply, w) →
      reply.sent = (sendNotFoundMessage env request.closes).sent

theorem answerWorld_other (hm : OtherMethod m) :
    answerWorld env directory (request.withMethod m) w = .ok w := by
  unfold answerWorld
  cases targetOf (request.withMethod m).requestTarget with
  | files filename =>
    have hget : ¬ (request.withMethod m).method = lit "GET" := hm.get
    have hpost : ¬ (request.withMethod m).method = lit "POST" := hm.post
    simp only [hget, hpost, if_false]
  | _ => rfl

theorem answer_other (hm : OtherMethod m) : answer env directory (request.withMethod m) w =
    .ok (match chosenBuilder env directory (request.withMethod m) w with
      | some builder => sendResponse env (builder.construct env)
      | none => sendNotFoundMessage env request.closes, w) := by
  rw [answer_eq, answerWorld_other hm]
  rfl

theorem targetOf_root {target : Bytes} : targetOf target = .root ↔ target = lit "/" := by
  unfold targetOf
  split_ifs with h1 h2 h3 h4 <;> simp [h1]

/-- A handler that looks at the method declines every other one, unless it takes it for `GET`. -/
theorem chosenBuilder_declined (hm : OtherMethod m) (ht : LooksAtMethod request.requestTarget)
    (hroot : request.requestTarget = lit "/" → ¬ (lit "GET").isPrefixOf m = true) :
    chosenBuilder env directory (request.withMethod m) w = none := by
  have htarget : (request.withMethod m).requestTarget = request.requestTarget := rfl
  have hmethod : (request.withMethod m).method = m := rfl
  unfold chosenBuilder
  rw [htarget, hmethod]
  rcases ht with ht | ht
  · rw [targetOf_root.2 ht]
    exact if_neg (hroot ht)
  · obtain ⟨name, hname⟩ := List.isPrefixOf_iff_prefix.1 ht
    rw [← hname, targetOf_files]
    simp only [hm.get, hm.post, if_false]

theorem chosenBuilder_blind (m₁ m₂ : Bytes) (ht : ¬ LooksAtMethod request.requestTarget) :
    chosenBuilder env directory (request.withMethod m₁) w =
      chosenBuilder env directory (request.withMethod m₂) w := by
  have htarget : ∀ m, (request.withMethod m).requestTarget = request.requestTarget := fun _ => rfl
  unfold chosenBuilder
  rw [htarget, htarget]
  cases hkind : targetOf request.requestTarget with
  | root => exact absurd (Or.inl (targetOf_root.1 hkind)) ht
  | files name =>
    refine absurd (Or.inr ?_) ht
    rw [eq_of_targetOf_files hkind]
    simp
  | _ => rfl

theorem answer_root_get (hm : OtherMethod m) (ht : request.requestTarget = lit "/")
    (hget : (lit "GET").isPrefixOf m = true) :
    answer env directory (request.withMethod m) w =
      .ok (sendResponse env ((errorBuilder env .httpOk request.closes).construct env), w) := by
  have hchosen : chosenBuilder env directory (request.withMethod m) w =
      some (bareBuilder env (request.withMethod m) .httpOk) := by
    have htarget : targetOf (request.withMethod m).requestTarget = .root := targetOf_root.2 ht
    have hmethod : (lit "GET").isPrefixOf (request.withMethod m).method = true := hget
    unfold chosenBuilder
    rw [htarget]
    simp only [hmethod, if_true]
  rw [answer_other hm, hchosen]
  simp only [bareBuilder_eq]
  rfl

theorem sent_ok_ne_notFound (closes closes' : Bool) :
    (sendResponse env ((errorBuilder env .httpOk closes).construct env)).sent ≠
      (sendNotFoundMessage env closes').sent := by
  intro heq
  obtain ⟨m, hwf, hcode, -, ⟨rest, hsent⟩, -⟩ := sent_error env .httpOk closes
  obtain ⟨m', hwf', hcode', -, -, ⟨rest', hsent'⟩⟩ := sent_error env .httpNotFound closes'
  have hread : readMessage (m.render ++ rest) = readMessage (m'.render ++ rest') := by
    rw [← hsent, ← hsent']
    exact congrArg readMessage heq
  rw [readMessage_render hwf, readMessage_render hwf'] at hread
  have hm : m = m' := (Prod.mk.inj (Option.some.inj hread)).1
  rw [hm, hcode'] at hcode
  cases hcode

theorem not_answeredAlike (hm : OtherMethod m) (hmem : m = m₁ ∨ m = m₂)
    (ht : request.requestTarget = lit "/") (hget : (lit "GET").isPrefixOf m = true) :
    ¬ AnsweredAlike env directory request w m₁ m₂ := by
  intro h
  have hsent := h.declined (Or.inl ht) m hmem _ (answer_root_get hm ht hget)
  exact sent_ok_ne_notFound _ _ hsent

/-- Two other methods are answered alike, with the files left alone, exactly when the target is not
`/` or neither of them begins with `GET`. -/
theorem answeredAlike_iff (env : Env) (directory : Option Bytes) (request : HttpRequest) (w : World)
    (h₁ : OtherMethod m₁) (h₂ : OtherMethod m₂) : AnsweredAlike env directory request w m₁ m₂ ↔
      (request.requestTarget = lit "/" →
        ¬ (lit "GET").isPrefixOf m₁ = true ∧ ¬ (lit "GET").isPrefixOf m₂ = true) := by
  constructor
  · intro h ht
    exact ⟨fun hget => not_answeredAlike h₁ (Or.inl rfl) ht hget h,
      fun hget => not_answeredAlike h₂ (Or.inr rfl) ht hget h⟩
  · intro h
    by_cases ht : LooksAtMethod request.requestTarget
    · have hdeclined : ∀ m, m = m₁ ∨ m = m₂ →
          answer env directory (request.withMethod m) w =
            .ok (sendNotFoundMessage env request.closes, w) := by
        rintro m (rfl | rfl)
        · rw [answer_other h₁, chosenBuilder_declined h₁ ht fun hr => (h hr).1]
        · rw [answer_other h₂, chosenBuilder_declined h₂ ht fun hr => (h hr).2]
      refine ⟨⟨_, _, hdeclined m₁ (Or.inl rfl), hdeclined m₂ (Or.inr rfl), rfl⟩, ?_⟩
      intro _ m hm reply hreply
      rw [hdeclined m hm] at hreply
      cases hreply
      rfl
    · refine ⟨⟨_, _, answer_other h₁, answer_other h₂, ?_⟩, fun hlooks => absurd hlooks ht⟩
      rw [chosenBuilder_blind m₁ m₂ ht]

def HttpRequest.plain (target : Bytes) : HttpRequest where
  method := lit "PUT"
  requestTarget := target
  httpVersion := lit "HTTP/1.1"
  headers := Hashmap.create
  data := none

theorem answeredAlike_put_delete :
    AnsweredAlike Env.plain none (HttpRequest.plain (lit "/files/a")) World.empty (lit "PUT")
      (lit "DELETE") :=
  (answeredAlike_iff Env.plain none (HttpRequest.plain (lit "/files/a")) World.empty
    ⟨by decide, by decide⟩ ⟨by decide, by decide⟩).2 (by decide)

/-- `GETX` is answered like `GET` at `/`, and `PUT` is not. -/
theorem not_answeredAlike_getx :
    OtherMethod (lit "GETX") ∧ OtherMethod (lit "PUT") ∧
      ¬ AnsweredAlike Env.plain none (HttpRequest.plain (lit "/")) World.empty (lit "GETX")
        (lit "PUT") ∧
      ∃ reply₁ reply₂ : Reply, answer Env.plain none ((HttpRequest.plain (lit "/")).withMethod
          (lit "GETX")) World.empty = .ok (reply₁, World.empty) ∧
        answer Env.plain none ((HttpRequest.plain (lit "/")).withMethod (lit "PUT")) World.empty =
          .ok (reply₂, World.empty) ∧ reply₁.sent ≠ reply₂.sent := by
  have hgetx : OtherMethod (lit "GETX") := ⟨by decide, by decide⟩
  have hput : OtherMethod (lit "PUT") := ⟨by decide, by decide⟩
  refine ⟨hgetx, hput, not_answeredAlike hgetx (Or.inl rfl) rfl (by decide), _, _,
    answer_root_get hgetx rfl (by decide), answer_other hput, ?_⟩
  rw [chosenBuilder_declined hput (Or.inl rfl) fun _ => by decide]
  exact sent_ok_ne_notFound _ _

end HttpServer

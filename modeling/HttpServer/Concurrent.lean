import HttpServer.RoutesSem
import HttpServer.Lib.Interleave

/-!
# Requests on one file at a time

Child processes share nothing but the files.  A `POST` truncates its file when it opens it and writes
when it closes it; a `GET` opens, measures and reads; and no lock keeps other requests out in between.
So two of them can leave a file that neither stored (`not_alwaysInOrder`), and what holds is that
requests are served as if one after the other, `POST`s that overlap among them, when no `POST` writes
less than the file holds and no `GET` measures or reads a file that is half done
(`inOrder_of_exclusive`).
-/

namespace HttpServer

open Lib HttpResponseBuilder

variable {ι : Type} {env : Env} {request : HttpRequest} {params : Hashmap Bytes} {w : World}
  {d name body : Bytes} {f : FileState}

/-! ### Requests and their steps -/

inductive FileRequest where
  | get
  | post (body : Bytes)
  deriving DecidableEq

/-- What a request has of its file in the end: for a `GET` the length that it measured and the bytes
that it read. -/
inductive FileResult where
  | notFound
  | found (length : ℕ) (bytes : Bytes)
  | created
  deriving DecidableEq

/-- How far a request is with its file. -/
inductive FilePlace where
  | start
  | opened
  | measured (length : ℕ)
  | truncated
  | done (result : FileResult)
  deriving DecidableEq

def FilePlace.result : FilePlace → Option FileResult
  | .done result => some result
  | _ => none

/-- The next step of a request, in `get_files` or in `post_files`, on the file as it is. -/
def fileStep : FileRequest → FilePlace → FileState → Option (FilePlace × FileState)
  | .get, .start, f => some (if f.isSome then .opened else .done .notFound, f)
  | .get, .opened, f => some (.measured f.length, f)
  | .get, .measured length, f => some (.done (.found length (f.read length)), f)
  | .post _, .start, f => some (.truncated, f.truncate)
  | .post body, .truncated, f => some (.done .created, f.flush body)
  | _, _, _ => none

/-- The steps of a request: a `GET` misses its file or opens it, measures it and reads it; a `POST`
truncates its file and writes it. -/
theorem fileStep_cases {r : FileRequest} {p q : FilePlace} {s : FileState}
    (h : fileStep r p f = some (q, s)) :
    (r = .get ∧ p = .start ∧ f = none ∧ q = .done .notFound ∧ s = none) ∨
    (r = .get ∧ p = .start ∧ f.isSome ∧ q = .opened ∧ s = f) ∨
    (r = .get ∧ p = .opened ∧ q = .measured f.length ∧ s = f) ∨
    (∃ n, r = .get ∧ p = .measured n ∧ q = .done (.found n (f.read n)) ∧ s = f) ∨
    (∃ body, r = .post body ∧ p = .start ∧ q = .truncated ∧ s = some []) ∨
    ∃ body, r = .post body ∧ p = .truncated ∧ q = .done .created ∧ s = f.flush body := by
  cases r with
  | get =>
    cases p with
    | start =>
      rcases f with _ | content <;> obtain ⟨rfl, rfl⟩ := Prod.mk.inj (Option.some.inj h)
      · exact Or.inl ⟨rfl, rfl, rfl, rfl, rfl⟩
      · exact Or.inr (Or.inl ⟨rfl, rfl, rfl, rfl, rfl⟩)
    | opened =>
      obtain ⟨rfl, rfl⟩ := Prod.mk.inj (Option.some.inj h)
      exact Or.inr (Or.inr (Or.inl ⟨rfl, rfl, rfl, rfl⟩))
    | measured n =>
      obtain ⟨rfl, rfl⟩ := Prod.mk.inj (Option.some.inj h)
      exact Or.inr (Or.inr (Or.inr (Or.inl ⟨n, rfl, rfl, rfl, rfl⟩)))
    | truncated => cases h
    | done result => cases h
  | post body =>
    cases p with
    | start =>
      obtain ⟨rfl, rfl⟩ := Prod.mk.inj (Option.some.inj h)
      exact Or.inr (Or.inr (Or.inr (Or.inr (Or.inl ⟨body, rfl, rfl, rfl, rfl⟩))))
    | truncated =>
      obtain ⟨rfl, rfl⟩ := Prod.mk.inj (Option.some.inj h)
      exact Or.inr (Or.inr (Or.inr (Or.inr (Or.inr ⟨body, rfl, rfl, rfl, rfl⟩))))
    | opened => cases h
    | measured n => cases h
    | done result => cases h

def fileWhole : FileRequest → FileState → FileResult × FileState
  | .get, f => (if f.isSome then .found f.length (f.read f.length) else .notFound, f)
  | .post body, f => (.created, f.truncate.flush body)

@[simp] lemma fileWhole_post (body : Bytes) (f : FileState) :
    fileWhole (.post body) f = (.created, some body) := by
  simp [fileWhole, FileState.truncate, FileState.flush]

theorem fileSteps_alone (r : FileRequest) (f : FileState) :
    Interleaving (fun _ : Unit => fileStep r) (fun _ _ => True) ⟨f, fun _ => .start⟩
      ⟨(fileWhole r f).2, fun _ => .done (fileWhole r f).1⟩ := by
  have hmove : ∀ (c : Config Unit FilePlace FileState) q s, c.move () q s = ⟨s, fun _ => q⟩ := by
    intro c q s
    rw [Config.move, Function.update_eq_const_of_subsingleton]
    rfl
  cases r with
  | get =>
    rcases Option.eq_none_or_eq_some f with rfl | ⟨content, rfl⟩
    · apply interleaving_of_run [()]
      simp [Config.run, fileStep, fileWhole, hmove]
    · apply interleaving_of_run [(), (), ()]
      simp [Config.run, fileStep, fileWhole, hmove]
  | post body =>
    apply interleaving_of_run [(), ()]
    simp [Config.run, fileStep, fileWhole, hmove]

/-- The builder of the response that a request gets for what it has of its file. -/
def resultBuilder (env : Env) (request : HttpRequest) : FileResult → HttpResponseBuilder
  | .notFound => bareBuilder env request .httpNotFound
  | .found length bytes =>
    fileBuilder env request (bytes ++ List.replicate (length + 1 - bytes.length) 0) length
  | .created => bareBuilder env request .httpCreated

theorem getFiles_whole (hd : params.getCstr (lit "directory") = some d)
    (hp : params.getCstr (lit "param") = some name) :
    getFiles env request params w =
      .ok (some ((resultBuilder env request (fileWhole .get (w.files (d ++ name))).1).construct env),
        w.touch (d ++ name)) := by
  rw [getFiles_eq hd hp, getFilesBuilder]
  rcases Option.eq_none_or_eq_some (w.files (d ++ name)) with hf | ⟨content, hf⟩
  · simp [hf, fileWhole, resultBuilder]
  · simp [hf, fileWhole, resultBuilder, FileState.length, FileState.read]

/-- `post_files`, when it can open the file and has a body to write, is a whole `POST`. -/
theorem postFiles_whole {n : ℤ} (hd : params.getCstr (lit "directory") = some d)
    (hp : params.getCstr (lit "param") = some name) (hn : request.contentLength = some n)
    (hw : env.canWrite (d ++ name) = true) (hbody : fwriteBytes request.data n = .ok body) :
    postFiles env request params w =
      .ok (some ((resultBuilder env request (fileWhole (.post body) (w.files (d ++ name))).1).construct
        env), { files := Function.update w.files (d ++ name)
                  (fileWhole (.post body) (w.files (d ++ name))).2
                opened := w.opened ++ [d ++ name] }) := by
  rw [postFiles_eq hd hp]
  simp only [postFilesWorld, postFilesStatus, hn, hw, if_true, hbody, fileWhole_post]
  rfl

/-! ### In the order of whole requests -/

section Order

variable {requests : ι → FileRequest} {c : Config ι FilePlace FileState} {i : ι} {a : FileState}

/-- The file is what it was at first, or the body of a `POST`. -/
def Stored (requests : ι → FileRequest) (f g : FileState) : Prop :=
  g = f ∨ ∃ i body, requests i = .post body ∧ g = some body

lemma Stored.whole (i : ι) (h : Stored requests f a) :
    Stored requests f (fileWhole (requests i) a).2 := by
  cases hr : requests i with
  | get => exact h
  | post body => exact Or.inr ⟨i, body, hr, by rw [fileWhole_post]⟩

/-- The configuration `c`, reached from the file `f`, is that of requests served one after the other:
the results are those of whole requests in some order, and so is the file when no `POST` has it open;
a `GET` that found a file has all of what the file was at first or of what a `POST` stores, and the
file is left so. -/
structure InOrder (requests : ι → FileRequest) (f : FileState) (c : Config ι FilePlace FileState) :
    Prop where
  order : ∃ order, Serial (fun i => fileWhole (requests i)) FilePlace.result f order c ∧
    ((∀ i, c.place i ≠ .truncated) →
      c.shared = (oneByOne (fun i => fileWhole (requests i)) order f).2)
  found : ∀ i length bytes, c.place i = .done (.found length bytes) →
    length = bytes.length ∧ Stored requests f (some bytes)
  left : (∀ i, c.place i ≠ .truncated) → Stored requests f c.shared

/-- The request `i` takes no step that another one sees half done.  A `GET` measures its file when that
holds something, or when no `POST` has it truncated; a `POST` neither truncates nor writes a file that
a `GET` has measured; and it writes no less than the file holds. -/
def Exclusive (requests : ι → FileRequest) (c : Config ι FilePlace FileState) (i : ι) : Prop :=
  (requests i = .get → c.place i = .opened →
    c.shared ≠ some [] ∨ ∀ j, c.place j ≠ .truncated) ∧
  ∀ body, requests i = .post body → (∀ j length, c.place j ≠ .measured length) ∧
    (c.place i = .truncated → c.shared.length ≤ body.length)

/-- What the file stands for: `a`, which it holds, unless it is empty and a `POST` has it truncated;
what a `GET` has measured it holds, and what it has opened was never taken away. -/
structure StandsFor (c : Config ι FilePlace FileState) (a : FileState) : Prop where
  file : c.shared = a ∨ c.shared = some [] ∧ ∃ i, c.place i = .truncated
  measured : ∀ i length, c.place i = .measured length → c.shared = a ∧ a.length = length
  there : ∀ i, (c.place i = .opened ∨ ∃ length, c.place i = .measured length) → c.shared.isSome

instance (q : FilePlace) : Decidable (∀ length, q ≠ .measured length) :=
  match q with
  | .measured length => isFalse fun h => h length rfl
  | .start | .opened | .truncated | .done _ => isTrue nofun

instance (r : FileRequest) (P : Bytes → Prop) [∀ body, Decidable (P body)] :
    Decidable (∀ body, r = .post body → P body) :=
  match r with
  | .post body => decidable_of_iff (P body) ⟨fun h _ heq => by cases heq; exact h, fun h => h body rfl⟩
  | .get => isTrue nofun

instance [Fintype ι] (requests : ι → FileRequest) (c : Config ι FilePlace FileState) (i : ι) :
    Decidable (Exclusive requests c i) :=
  inferInstanceAs (Decidable (_ ∧ _))

lemma StandsFor.shared_eq (h : StandsFor c a) (hopen : ∀ i, c.place i ≠ .truncated) : c.shared = a :=
  h.file.resolve_right fun ⟨_, i, hi⟩ => hopen i hi

lemma standsFor_start (f : FileState) : StandsFor (⟨f, fun _ : ι => .start⟩) f := by
  refine ⟨Or.inl rfl, ?_, ?_⟩
  · intro i length hi
    cases hi
  · rintro i (hi | ⟨length, hi⟩) <;> cases hi

variable [DecidableEq ι]

/-- A step of a `GET` keeps what the file stands for, when what the request has found there is so. -/
lemma StandsFor.stay {q : FilePlace} (h : StandsFor c a) (hi : c.place i ≠ .truncated)
    (hm : ∀ length, q = .measured length → c.shared = a ∧ a.length = length)
    (ho : q = .opened ∨ (∃ length, q = .measured length) → c.shared.isSome) :
    StandsFor (c.move i q c.shared) a := by
  refine ⟨?_, ?_, ?_⟩
  · refine h.file.imp_right fun ⟨hempty, j, hj⟩ => ⟨hempty, j, ?_⟩
    have hne : j ≠ i := by
      rintro rfl
      exact hi hj
    rw [Config.move_ne c hne, hj]
  · intro j length hj
    rcases eq_or_ne j i with rfl | hne
    · rw [Config.move_same] at hj
      exact hm length hj
    · rw [Config.move_ne c hne] at hj
      exact h.measured j length hj
  · intro j hj
    rcases eq_or_ne j i with rfl | hne
    · rw [Config.move_same] at hj
      exact ho hj
    · rw [Config.move_ne c hne] at hj
      exact h.there j hj

lemma not_measured_move {q : FilePlace} {s : FileState} (hq : ∀ length, q ≠ .measured length)
    (hnone : ∀ j length, c.place j ≠ .measured length) (j : ι) (length : ℕ) :
    (c.move i q s).place j ≠ .measured length := by
  rcases eq_or_ne j i with rfl | hne
  · rw [Config.move_same]
    exact hq length
  · rw [Config.move_ne c hne]
    exact hnone j length

/-- `fopen` for writing, when nobody has measured the file. -/
lemma standsFor_truncate (a : FileState) (hnone : ∀ j length, c.place j ≠ .measured length) :
    StandsFor (c.move i .truncated (some [])) a :=
  ⟨Or.inr ⟨rfl, i, Config.move_same ..⟩,
    fun j length hj => absurd hj (not_measured_move (q := .truncated) nofun hnone j length),
    fun _ _ => rfl⟩

/-- `fclose` after writing no less than the file holds: the file is the body. -/
lemma standsFor_flush {body : Bytes} (hlen : c.shared.length ≤ body.length)
    (hnone : ∀ j length, c.place j ≠ .measured length) : c.shared.flush body = some body ∧
      StandsFor (c.move i (.done .created) (some body)) (some body) := by
  refine ⟨?_, Or.inl rfl,
    fun j length hj => absurd hj (not_measured_move (q := .done .created) nofun hnone j length),
    fun _ _ => rfl⟩
  rw [FileState.flush, List.drop_eq_nil_of_le hlen, List.append_nil]

/-- **What a step does to what the file stands for**: nothing, until it is the last one of its request,
and that does what the whole request does. -/
theorem StandsFor.step {q : FilePlace} {s : FileState} (h : StandsFor c a)
    (hex : Exclusive requests c i) (hs : fileStep (requests i) (c.place i) c.shared = some (q, s)) :
    (c.place i).result = none ∧
      (q.result = none ∧ StandsFor (c.move i q s) a ∨
        q.result = some (fileWhole (requests i) a).1 ∧
          StandsFor (c.move i q s) (fileWhole (requests i) a).2) := by
  rcases fileStep_cases hs with ⟨hr, hi, hf, rfl, rfl⟩ | ⟨hr, hi, hf, rfl, rfl⟩ | ⟨hr, hi, rfl, rfl⟩ |
    ⟨n, hr, hi, rfl, rfl⟩ | ⟨body, hr, hi, rfl, rfl⟩ | ⟨body, hr, hi, rfl, rfl⟩ <;>
    rw [hr, hi]
  · -- there is no file, so nobody has it truncated, and the whole request finds none either
    have ha : a = none := by
      rcases h.file with heq | ⟨hempty, -⟩
      · exact heq.symm.trans hf
      · rw [hf] at hempty
        cases hempty
    have hkeep := h.stay (i := i) (q := .done .notFound) (by rw [hi]; exact nofun) nofun nofun
    rw [hf] at hkeep
    exact ⟨rfl, Or.inr ⟨by rw [ha]; rfl, hkeep⟩⟩
  · refine ⟨rfl, Or.inl ⟨rfl, h.stay ?_ nofun fun _ => hf⟩⟩
    rw [hi]
    exact nofun
  · -- the file is not one that was truncated and not written since
    have ha : c.shared = a := by
      rcases h.file with heq | ⟨hempty, j, hj⟩
      · exact heq
      · exact ((hex.1 hr hi).resolve_left fun hne => hne hempty) j |> absurd hj
    refine ⟨rfl, Or.inl ⟨rfl, h.stay (by rw [hi]; exact nofun) ?_ fun _ => h.there i (Or.inl hi)⟩⟩
    rintro length ⟨⟩
    exact ⟨ha, by rw [ha]⟩
  · -- what was measured is still there
    obtain ⟨ha, rfl⟩ := h.measured i n hi
    have hthere := h.there i (Or.inr ⟨_, hi⟩)
    refine ⟨rfl, Or.inr ⟨?_, h.stay (by rw [hi]; exact nofun) nofun nofun⟩⟩
    rw [ha] at hthere
    rw [ha, fileWhole, if_pos hthere]
    rfl
  · exact ⟨rfl, Or.inl ⟨rfl, standsFor_truncate a (hex.2 body hr).1⟩⟩
  · obtain ⟨hnone, hlen⟩ := hex.2 body hr
    obtain ⟨hflush, hdone⟩ := standsFor_flush (i := i) (hlen hi) hnone
    rw [hflush, fileWhole_post]
    exact ⟨rfl, Or.inr ⟨rfl, hdone⟩⟩

/-- **Requests that keep out of each other's way are served in some order**, whole. -/
theorem inOrder_of_exclusive (h : Interleaving (fun i => fileStep (requests i)) (Exclusive requests)
    ⟨f, fun _ => .start⟩ c) : InOrder requests f c := by
  obtain ⟨order, hserial, hstands⟩ :=
    h.serial (fun c a i q s hstands hex hs => hstands.step hex hs) (fun _ => rfl) (standsFor_start f)
  -- what a `GET` finds is what the file was at first or what a `POST` has stored
  obtain ⟨hlast, hresults⟩ :=
    oneByOne_invariant (P := Stored requests f) (fun i a ha => ha.whole i) order (Or.inl rfl)
  refine ⟨⟨order, hserial, hstands.shared_eq⟩, fun i length bytes hi => ?_, fun hopen => ?_⟩
  · obtain ⟨b, hb, hfound⟩ := hresults i (.found length bytes)
      ((hserial.results i _).2 (by rw [hi]; rfl))
    cases hr : requests i with
    | post body =>
      rw [hr, fileWhole_post] at hfound
      cases hfound
    | get =>
      rw [hr] at hfound
      rcases Option.eq_none_or_eq_some b with rfl | ⟨content, rfl⟩
      · cases hfound
      · obtain ⟨rfl, rfl⟩ : length = content.length ∧ bytes = content := by
          simpa [fileWhole, FileState.length, FileState.read] using hfound
        exact ⟨rfl, hb⟩
  · rw [hstands.shared_eq hopen]
    exact hlast

end Order

/-! ### Two clients -/

def twoRequests (r : FileRequest) : Bool → FileRequest
  | true => .post (lit "abc")
  | false => r

def oldFile : Config Bool FilePlace FileState := ⟨some (lit "old"), fun _ => .start⟩

/-- Two `POST`s that overlap, with bodies of one length. -/
theorem inOrder_overlapping : ∃ c, c.shared = some (lit "xyz") ∧
    (∀ i, c.place i = .done .created) ∧
    InOrder (twoRequests (.post (lit "xyz"))) (some (lit "old")) c := by
  obtain ⟨c, hrun, hshared, hdone⟩ : ∃ c,
      oldFile.run (fun i => fileStep (twoRequests (.post (lit "xyz")) i))
        (Exclusive (twoRequests (.post (lit "xyz")))) [true, false, true, false] = some c ∧
          c.shared = some (lit "xyz") ∧ ∀ i, c.place i = .done .created := ⟨_, rfl, rfl, by decide⟩
  exact ⟨c, hshared, hdone, inOrder_of_exclusive (interleaving_of_run _ hrun)⟩

/-- However the steps of the requests come, they are served in some order. -/
def AlwaysInOrder : Prop :=
  ∀ (ι : Type) [DecidableEq ι] (requests : ι → FileRequest) (f : FileState)
    (c : Config ι FilePlace FileState),
    Interleaving (fun i => fileStep (requests i)) (fun _ _ => True) ⟨f, fun _ => .start⟩ c →
      InOrder requests f c

/-- **Two stores leave a file that is neither**, and a `GET` between the two halves of a `POST` finds
an empty file. -/
theorem not_alwaysInOrder : ¬ AlwaysInOrder ∧ ∃ c,
    Interleaving (fun i => fileStep (twoRequests .get i)) (fun _ _ => True) oldFile c ∧
      c.place false = .done (.found 0 []) := by
  refine ⟨fun h => ?_, _, interleaving_of_run [true, false, false, false, true] rfl, rfl⟩
  obtain ⟨c, hrun, hshared, hdone⟩ : ∃ c,
      oldFile.run (fun i => fileStep (twoRequests (.post (lit "d")) i)) (fun _ _ => True)
        [true, false, true, false] = some c ∧ c.shared = some (lit "dbc") ∧
          ∀ i, c.place i = .done .created := ⟨_, rfl, rfl, by decide⟩
  have hleft := (h Bool _ _ c (interleaving_of_run _ hrun)).left fun i => by
    rw [hdone]
    exact nofun
  rw [hshared] at hleft
  rcases hleft with h | ⟨i, body, hi, h⟩
  · revert h
    decide
  · obtain rfl := Option.some.inj h
    revert i
    decide

end HttpServer

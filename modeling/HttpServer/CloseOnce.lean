import HttpServer.Framing
import HttpServer.Lib.Lines
import HttpServer.Lib.Runs

/-!
# How often `Connection: close` is announced

The line is added in three places: by `HEADERS` when the builder closes already, by `CLOSE` when
there are headers, and by `construct` when there are none.  A set on a map does not replace, so the
lines add up: `announcesOnce_iff` says for which sequences of options the response has one line.  Where
`CLOSE` stands never matters for the set of the lines (`mem_headerFields`).
-/

namespace HttpServer

open Lib HttpResponseBuilder

namespace HttpResponseOption

def isClose : HttpResponseOption → Bool
  | .close => true
  | _ => false

end HttpResponseOption

open HttpResponseOption

/-- A text without NUL and without line end. -/
def PlainText (s : Bytes) : Prop := NulFree s ∧ ¬ CRLF <:+: s

instance (s : Bytes) : Decidable (PlainText s) := inferInstanceAs (Decidable (_ ∧ _))

/-- The map holds no entry for `Connection`, and every entry is one line. -/
structure FreshMap (m : Hashmap Bytes) : Prop where
  wf : m.WF
  fresh : ∀ p ∈ m.entries, p.1 ≠ lit "Connection"
  plain : ∀ p ∈ m.entries, PlainText p.1 ∧ PlainText p.2

variable {env : Env} {status : HttpStatus} {builder : HttpResponseBuilder} {m m' : Hashmap Bytes}
  {opts pre post : List HttpResponseOption} {o : HttpResponseOption}

/-- Whether a builder closes, and the number of its lines `Connection: close` if it has headers. -/
structure CloseState where
  closed : Bool
  lines : Option ℕ

namespace CloseState

def step (s : CloseState) : HttpResponseOption → CloseState
  | .headers _ => ⟨s.closed, some (if s.closed then 1 else 0)⟩
  | .noHeaders => ⟨s.closed, none⟩
  | .close => ⟨true, s.lines.map (· + 1)⟩
  | _ => s

/-- The lines after `construct`. -/
def final (s : CloseState) : ℕ := s.lines.getD (if s.closed then 1 else 0)

def after (opts : List HttpResponseOption) : CloseState := opts.foldl step ⟨false, none⟩

end CloseState

theorem fieldLine_eq_close {p : Bytes × Bytes} :
    fieldLine p = lit "Connection: close" ↔ p = connectionClose := by
  constructor
  · intro h
    obtain ⟨k, v⟩ := p
    have hsep : ∀ i < 17, (lit "Connection: close")[i]? = some COLON → i = 10 := by decide
    have hlen : k.length < 17 := by
      have := congrArg List.length h
      have hclose : (lit "Connection: close").length = 17 := rfl
      simp only [fieldLine, List.length_append, List.length_cons, hclose] at this
      omega
    have hk : k.length = 10 := by
      apply hsep _ hlen
      rw [← h]
      simp [fieldLine]
    have htake := congrArg (List.take 10) h
    have hdrop := congrArg (List.drop 12) h
    simp only [fieldLine] at htake hdrop
    rw [← hk, List.take_left] at htake
    rw [show 12 = k.length + 2 by omega, List.drop_length_add_append] at hdrop
    have hname : (lit "Connection: close").take k.length = lit "Connection" := by
      rw [hk]
      decide
    have hvalue : (lit "Connection: close").drop (k.length + 2) = lit "close" := by
      rw [hk]
      decide
    rw [hname] at htake
    rw [hvalue] at hdrop
    exact Prod.ext htake hdrop
  · rintro rfl
    decide

/-- The entries of `m` for `Connection` are `n` times `close`. -/
structure Closes (m : Hashmap Bytes) (n : ℕ) : Prop where
  wf : m.WF
  entries : (m.entries.filter fun p => p.1 = lit "Connection") = List.replicate n connectionClose

theorem Closes.count {n : ℕ} (h : Closes m n) :
    (m.entries.map fieldLine).count (lit "Connection: close") = n := by
  have hp : ∀ p : Bytes × Bytes, (fieldLine p == lit "Connection: close") =
      ((fieldLine p == lit "Connection: close") && decide (p.1 = lit "Connection")) := by
    intro p
    by_cases hp : fieldLine p = lit "Connection: close"
    · rw [fieldLine_eq_close.1 hp]
      decide
    · simp [hp]
  have hclose : (fieldLine connectionClose == lit "Connection: close") = true := by decide
  rw [List.count, List.countP_map]
  calc m.entries.countP (fun p => fieldLine p == lit "Connection: close")
      = (m.entries.filter fun p => p.1 = lit "Connection").countP
          (fun p => fieldLine p == lit "Connection: close") := by
        rw [List.countP_filter]
        exact List.countP_congr fun p _ => by rw [← hp p]
    _ = n := by
        rw [h.entries, List.countP_replicate, if_pos hclose]

theorem Closes.of_perm {n : ℕ} {es : List (Bytes × Bytes)} (hwf : m.WF) (h : m.entries.Perm es)
    (hes : (es.filter fun p => p.1 = lit "Connection") = List.replicate n connectionClose) :
    Closes m n := by
  have hfilter := h.filter fun p => decide (p.1 = lit "Connection")
  rw [hes] at hfilter
  exact ⟨hwf, List.perm_replicate.1 hfilter⟩

theorem FreshMap.closes (h : FreshMap m) : Closes m 0 := by
  refine ⟨h.wf, ?_⟩
  rw [List.replicate_zero, List.filter_eq_nil_iff]
  intro p hp
  simpa using h.fresh p hp

theorem Closes.close {n : ℕ} (h : Closes m n) :
    Closes (m.set (lit "Connection") (lit "close")) (n + 1) := by
  apply Closes.of_perm (h.wf.set _ _) (Hashmap.entries_set h.wf _ _)
  rw [List.filter_cons_of_pos (by decide), h.entries]
  rfl

theorem Closes.set {n : ℕ} (h : Closes m n) {k : Bytes} (hk : k ≠ lit "Connection") (v : Bytes) :
    Closes (m.set k v) n := by
  apply Closes.of_perm (h.wf.set _ _) (Hashmap.entries_set h.wf _ _)
  rw [List.filter_cons_of_neg (by simpa using hk), h.entries]

theorem Closes.delete {n : ℕ} (h : Closes m n) {k v : Bytes} (hfree : NulFree k)
    (hk : k ≠ lit "Connection") (hv : m.get k = some v) : Closes (m.delete k).2 n := by
  obtain ⟨-, hwf, hperm⟩ := Hashmap.entries_delete h.wf hfree hv
  apply Closes.of_perm hwf (List.Perm.refl _)
  have hfilter := hperm.filter fun p => decide (p.1 = lit "Connection")
  rw [List.filter_cons_of_neg (by simpa using hk), h.entries] at hfilter
  exact List.perm_replicate.1 hfilter.symm

/-! ### The lines of a builder -/

/-- The builder closes as `s` says, and its headers have the lines that `s` counts. -/
structure Tracks (builder : HttpResponseBuilder) (s : CloseState) : Prop where
  closed : builder.shouldClose = s.closed
  lines : match builder.headers, s.lines with
    | none, none => True
    | some m, some n => Closes m n
    | _, _ => False

theorem Tracks.cases {s : CloseState} (h : Tracks builder s) :
    (builder.headers = none ∧ s.lines = none) ∨
      ∃ m n, builder.headers = some m ∧ s.lines = some n ∧ Closes m n := by
  have hlines := h.lines
  cases hb : builder.headers with
  | none =>
    cases hs : s.lines with
    | none => exact Or.inl ⟨rfl, rfl⟩
    | some n => rw [hb, hs] at hlines; cases hlines
  | some m =>
    cases hs : s.lines with
    | none => rw [hb, hs] at hlines; cases hlines
    | some n =>
      rw [hb, hs] at hlines
      exact Or.inr ⟨m, n, rfl, rfl, hlines⟩

theorem headers_names : lit "Content-Length" ≠ lit "Connection" ∧
    lit "Content-Encoding" ≠ lit "Connection" ∧ NulFree (lit "Content-Length") := by decide

theorem compressionGzip_cases (env : Env) (builder : HttpResponseBuilder) :
    builder.compressionGzip env = builder ∨ ∃ m v output,
      builder.headers = some m ∧ m.get (lit "Content-Length") = some v ∧
      (builder.compressionGzip env).shouldClose = builder.shouldClose ∧
      (builder.compressionGzip env).headers = some ((((m.delete (lit "Content-Length")).2.set
        (lit "Content-Length") (decimal output)).set (lit "Content-Encoding") (lit "gzip"))) := by
  unfold HttpResponseBuilder.compressionGzip
  cases builder.data with
  | none => exact Or.inl rfl
  | some data =>
    cases hm : builder.headers with
    | none => exact Or.inl rfl
    | some m =>
      simp only
      cases hv : m.get (lit "Content-Length") with
      | none => exact Or.inl rfl
      | some v =>
        simp only
        cases env.gzipCompress (env.readPast data (sizeAdd 0 ((parseLong v).getD 0))) with
        | none => exact Or.inl rfl
        | some output => exact Or.inr ⟨m, v, output.length, rfl, hv, rfl, rfl⟩

theorem Tracks.closes {s : CloseState} (h : Tracks builder s) (hb : builder.headers = some m) :
    ∃ n, s.lines = some n ∧ Closes m n := by
  rcases h.cases with ⟨hnone, -⟩ | ⟨m', n, hsome, hs, hm⟩
  · rw [hb] at hnone
    cases hnone
  · obtain rfl : m = m' := Option.some.inj (hb.symm.trans hsome)
    exact ⟨n, hs, hm⟩

theorem Tracks.option {s : CloseState} (h : Tracks builder s) (o : HttpResponseOption)
    (ho : ∀ m, o = .headers m → FreshMap m) : Tracks (builder.option env o) (s.step o) := by
  have hclosed := h.closed
  have hlines := h.lines
  cases o with
  | httpVersion version => exact ⟨hclosed, hlines⟩
  | body body => exact ⟨hclosed, hlines⟩
  | noBody => exact ⟨hclosed, hlines⟩
  | noHeaders => exact ⟨hclosed, trivial⟩
  | headers m =>
    have hm := (ho m rfl).closes
    refine ⟨hclosed, ?_⟩
    simp only [HttpResponseBuilder.option, CloseState.step, hclosed]
    cases s.closed with
    | false => exact hm
    | true => exact hm.close
  | close =>
    refine ⟨rfl, ?_⟩
    simp only [HttpResponseBuilder.option, CloseState.step]
    rcases h.cases with ⟨hb, hs⟩ | ⟨m, n, hb, hs, hm⟩
    · rw [hb, hs]
      trivial
    · rw [hb, hs]
      exact hm.close
  | compressionGzip =>
    simp only [HttpResponseBuilder.option, CloseState.step]
    rcases compressionGzip_cases env builder with hsame | ⟨m, v, output, hm, hv, hc, hh⟩
    · rw [hsame]
      exact h
    · refine ⟨hc.trans hclosed, ?_⟩
      obtain ⟨n, hs, hcloses⟩ := h.closes hm
      obtain ⟨hlength, hencoding, hfree⟩ := headers_names
      rw [hh, hs]
      exact ((hcloses.delete hfree hlength hv).set hlength _).set hencoding _

/-- The maps differ in the bucket of `Connection` at most, and there in nodes of this key. -/
def SameBut (m m' : Hashmap Bytes) : Prop := ∃ B B', m.Holds B ∧ m'.Holds B' ∧
  (∀ i, i ≠ bucketOf (lit "Connection") → B i = B' i) ∧
  (B (bucketOf (lit "Connection"))).filter (fun n => n.key ≠ lit "Connection") =
    (B' (bucketOf (lit "Connection"))).filter fun n => n.key ≠ lit "Connection"

theorem SameBut.refl (h : m.WF) : SameBut m m :=
  let ⟨B, hB⟩ := h
  ⟨B, B, hB, hB, fun _ _ => rfl, rfl⟩

theorem SameBut.get (h : SameBut m m') {k : Bytes} (hk : NulFree k)
    (hb : bucketOf k ≠ bucketOf (lit "Connection")) : m.get k = m'.get k := by
  obtain ⟨B, B', hB, hB', hother, -⟩ := h
  rw [hB.get hk, hB'.get hk, hother _ hb]

theorem SameBut.set (h : SameBut m m') {k : Bytes}
    (hb : bucketOf k ≠ bucketOf (lit "Connection")) (v : Bytes) :
    SameBut (m.set k v) (m'.set k v) := by
  obtain ⟨B, B', hB, hB', hother, hclose⟩ := h
  refine ⟨_, _, hB.set k v, hB'.set k v, ?_, ?_⟩
  · intro i hi
    by_cases hik : i = bucketOf k
    · rw [hik, Function.update_self, Function.update_self, hother _ hb]
    · rw [Function.update_of_ne hik, Function.update_of_ne hik, hother _ hi]
  · rw [Function.update_of_ne hb.symm, Function.update_of_ne hb.symm, hclose]

theorem SameBut.close (h : SameBut m m') :
    SameBut (m.set (lit "Connection") (lit "close")) m' := by
  obtain ⟨B, B', hB, hB', hother, hclose⟩ := h
  refine ⟨_, _, hB.set _ _, hB', ?_, ?_⟩
  · intro i hi
    rw [Function.update_of_ne hi, hother _ hi]
  · rw [Function.update_self, List.filter_append, hclose]
    simp

theorem SameBut.delete (h : SameBut m m') {k : Bytes} (hk : NulFree k)
    (hb : bucketOf k ≠ bucketOf (lit "Connection")) :
    SameBut (m.delete k).2 (m'.delete k).2 := by
  obtain ⟨B, B', hB, hB', hother, hclose⟩ := h
  have hdel := hB.delete hk
  have hdel' := hB'.delete hk
  rw [← hother _ hb] at hdel'
  cases hi : (B (bucketOf k)).findIdx? fun n => n.key = k with
  | none =>
    rw [hi] at hdel hdel'
    simp only at hdel hdel'
    rw [hdel, hdel']
    exact ⟨B, B', hB, hB', hother, hclose⟩
  | some j =>
    rw [hi] at hdel hdel'
    refine ⟨_, _, hdel.2, hdel'.2, ?_, ?_⟩
    · intro i hik
      by_cases hik' : i = bucketOf k
      · rw [hik', Function.update_self, Function.update_self]
      · rw [Function.update_of_ne hik', Function.update_of_ne hik', hother _ hik]
    · rw [Function.update_of_ne hb.symm, Function.update_of_ne hb.symm, hclose]

/-- The builders differ in `CLOSE`s at most. -/
structure SameBuilder (b b' : HttpResponseBuilder) : Prop where
  data : b.data = b'.data
  headers : match b.headers, b'.headers with
    | none, none => True
    | some m, some m' => SameBut m m'
    | _, _ => False

theorem SameBuilder.cases {b b' : HttpResponseBuilder} (h : SameBuilder b b') :
    (b.headers = none ∧ b'.headers = none) ∨
      ∃ m m', b.headers = some m ∧ b'.headers = some m' ∧ SameBut m m' := by
  have hheaders := h.headers
  cases hb : b.headers with
  | none =>
    cases hb' : b'.headers with
    | none => exact Or.inl ⟨rfl, rfl⟩
    | some m' => rw [hb, hb'] at hheaders; cases hheaders
  | some m =>
    cases hb' : b'.headers with
    | none => rw [hb, hb'] at hheaders; cases hheaders
    | some m' =>
      rw [hb, hb'] at hheaders
      exact Or.inr ⟨m, m', rfl, rfl, hheaders⟩

theorem buckets_ne : bucketOf (lit "Content-Length") ≠ bucketOf (lit "Connection") ∧
    bucketOf (lit "Content-Encoding") ≠ bucketOf (lit "Connection") := by decide +kernel

theorem SameBuilder.close {b b' : HttpResponseBuilder} (h : SameBuilder b b') :
    SameBuilder (b.option env .close) b' := by
  refine ⟨h.data, ?_⟩
  simp only [HttpResponseBuilder.option]
  rcases h.cases with ⟨hb, hb'⟩ | ⟨m, m', hb, hb', hsame⟩
  · rw [hb, hb']
    trivial
  · rw [hb, hb']
    exact hsame.close

theorem SameBuilder.compressionGzip {b b' : HttpResponseBuilder} (h : SameBuilder b b') :
    SameBuilder (b.compressionGzip env) (b'.compressionGzip env) := by
  obtain ⟨hlength, hencoding⟩ := buckets_ne
  unfold HttpResponseBuilder.compressionGzip
  rw [← h.data]
  cases hd : b.data with
  | none => exact h
  | some data =>
    rcases h.cases with ⟨hb, hb'⟩ | ⟨m, m', hb, hb', hsame⟩
    · rw [hb, hb']
      exact h
    · simp only [hb, hb', ← hsame.get headers_names.2.2 hlength]
      cases m.get (lit "Content-Length") with
      | none => exact h
      | some v =>
        simp only
        cases env.gzipCompress (env.readPast data (sizeAdd 0 ((parseLong v).getD 0))) with
        | none => exact h
        | some output =>
          exact ⟨rfl, ((hsame.delete headers_names.2.2 hlength).set hlength _).set hencoding _⟩

theorem SameBuilder.option {b b' : HttpResponseBuilder} (h : SameBuilder b b')
    (o : HttpResponseOption) (ho : ∀ m, o = .headers m → FreshMap m)
    (hclose : b'.shouldClose = false) (hnot : o.isClose = false) :
    SameBuilder (b.option env o) (b'.option env o) := by
  cases o with
  | httpVersion version => exact ⟨h.data, h.headers⟩
  | body body => exact ⟨rfl, h.headers⟩
  | noBody => exact ⟨rfl, h.headers⟩
  | noHeaders => exact ⟨h.data, trivial⟩
  | headers m =>
    refine ⟨h.data, ?_⟩
    simp only [HttpResponseBuilder.option, hclose, Bool.false_eq_true, if_false]
    have hm := SameBut.refl (ho m rfl).wf
    split
    · exact hm.close
    · exact hm
  | close => cases hnot
  | compressionGzip => exact h.compressionGzip

/-- The headers of the builder have one line for each entry. -/
def PlainHeaders (builder : HttpResponseBuilder) : Prop :=
  ∀ m, builder.headers = some m → m.WF ∧ ∀ p ∈ m.entries, PlainText p.1 ∧ PlainText p.2

theorem plain_set (h : m.WF ∧ ∀ p ∈ m.entries, PlainText p.1 ∧ PlainText p.2) {k v : Bytes}
    (hk : PlainText k) (hv : PlainText v) :
    (m.set k v).WF ∧ ∀ p ∈ (m.set k v).entries, PlainText p.1 ∧ PlainText p.2 := by
  refine ⟨h.1.set k v, fun p hp => ?_⟩
  rcases List.mem_cons.1 ((Hashmap.entries_set h.1 k v).mem_iff.1 hp) with rfl | hp
  · exact ⟨hk, hv⟩
  · exact h.2 p hp

theorem plainText_decimal (n : ℕ) : PlainText (decimal n) :=
  ⟨nulFree_decimal n, fun h => by
    have hcr : CR ∈ decimal n := h.subset (by simp)
    exact absurd (decimal_range hcr).1 (by decide)⟩

theorem plain_close : PlainText (lit "Connection") ∧ PlainText (lit "close") := by decide

theorem PlainHeaders.option (h : PlainHeaders builder) (o : HttpResponseOption)
    (ho : ∀ m, o = .headers m → FreshMap m) : PlainHeaders (builder.option env o) := by
  have hclose := fun m hm => plain_set (h m hm) plain_close.1 plain_close.2
  cases o with
  | httpVersion version => exact h
  | body body => exact h
  | noBody => exact h
  | noHeaders =>
    intro m hm
    cases hm
  | headers m =>
    have hm := ho m rfl
    intro m' hm'
    obtain rfl : (if builder.shouldClose then m.set (lit "Connection") (lit "close") else m) = m' :=
      Option.some.inj hm'
    split
    · exact plain_set ⟨hm.wf, hm.plain⟩ plain_close.1 plain_close.2
    · exact ⟨hm.wf, hm.plain⟩
  | close =>
    intro m' hm'
    obtain ⟨m, hm, rfl⟩ := Option.map_eq_some_iff.1 hm'
    exact hclose m hm
  | compressionGzip =>
    simp only [HttpResponseBuilder.option]
    rcases compressionGzip_cases env builder with hsame | ⟨m, v, output, hm, hv, -, hh⟩
    · rw [hsame]
      exact h
    · intro m' hm'
      rw [hh] at hm'
      obtain rfl := Option.some.inj hm'
      obtain ⟨-, hwf, hperm⟩ := Hashmap.entries_delete (h m hm).1 headers_names.2.2 hv
      have hrest : (m.delete (lit "Content-Length")).2.WF ∧
          ∀ p ∈ (m.delete (lit "Content-Length")).2.entries, PlainText p.1 ∧ PlainText p.2 :=
        ⟨hwf, fun p hp => (h m hm).2 p (hperm.mem_iff.2 (List.mem_cons_of_mem _ hp))⟩
      exact plain_set (plain_set hrest (by decide) (plainText_decimal output)) (by decide) (by decide)

theorem PlainHeaders.final (h : PlainHeaders builder) (hm : builder.finalHeaders = some m) :
    m.WF ∧ ∀ p ∈ m.entries, PlainText p.1 ∧ PlainText p.2 := by
  unfold finalHeaders at hm
  split at hm
  · rename_i headers hheaders
    obtain rfl := Option.some.inj hm
    exact h headers hheaders
  · split at hm
    · obtain rfl := Option.some.inj hm
      refine ⟨Hashmap.wf_create.set _ _, ?_⟩
      rw [entries_close]
      intro p hp
      rw [List.mem_singleton.1 hp]
      exact plain_close
    · cases hm

end HttpServer

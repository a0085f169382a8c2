import HttpServer.BuilderRuns
import HttpServer.HeaderStores

/-!
# The accesses of the body loop

`construct` copies the body with a loop that runs over one byte more than `content_length`.  The byte
is there when the data was duplicated from a C string of that length; it is not after a compression,
whose data is exactly as long as its output, nor for a file with a NUL, of which only the part before
the NUL was duplicated (`bodyInside_iff`).
-/

namespace HttpServer

open Lib HttpResponseBuilder

/-- The loop over the body from `i` on: each turn reads `data[i]` and writes
`field_line[i + current_len]`, a block of `newLen` bytes; `i` is an `int`. -/
def bodyLoop (data : Bytes) (currentLen newLen : ℕ) : ℕ → ℤ → Except Fault (List Access)
  | 0, _ => .error .diverged
  | fuel + 1, i =>
    if toSize (i + currentLen) < newLen then do
      let read : Access := ⟨i.toNat, 1, data.length⟩
      let written : Access := ⟨toSize (i + currentLen), 1, newLen⟩
      let next ← addInt i 1
      let rest ← bodyLoop data currentLen newLen fuel next
      .ok (read :: written :: rest)
    else .ok []

namespace HttpResponseBuilder

/-- The accesses of the body loop of `construct`. -/
def bodyAccesses (env : Env) (builder : HttpResponseBuilder) : Except Fault (List Access) :=
  match builder.finalHeaders, builder.data with
  | some headers, some data =>
    match headers.getCstr (lit "Content-Length") with
    | none => .ok []
    | some contentLengthStr =>
      let contentLength := (parseLong contentLengthStr).getD env.staleLong
      let fieldLine := (headerBlock env headers).1.text ++ [0]
      let currentLen := (fieldLine.takeWhile (· ≠ 0)).length
      let newLen := sizeAdd currentLen (contentLength + 1)
      bodyLoop data currentLen newLen (newLen - currentLen + 1) 0
  | _, _ => .ok []

/-- The loop ends, and every index that it reads and writes lies inside its block. -/
def BodyInside (env : Env) (builder : HttpResponseBuilder) : Prop :=
  ∃ accesses, builder.bodyAccesses env = .ok accesses ∧ ∀ t ∈ accesses, t.Inside

end HttpResponseBuilder

/-! ### The loop -/

section Loop

variable {data : Bytes} {cur k : ℕ}

def turnAccesses (data : Bytes) (cur k j : ℕ) : List Access :=
  [⟨j, 1, data.length⟩, ⟨j + cur, 1, cur + k⟩]

theorem addInt_succ {i : ℕ} (h : i + 1 < 2 ^ 31) : addInt (i : ℤ) 1 = .ok ((i + 1 : ℕ) : ℤ) := by
  rw [addInt, if_pos (by omega)]
  rfl

theorem bodyLoop_ok (hk : k < 2 ^ 31) (hfits : cur + k < 2 ^ 64) (fuel : ℕ) :
    ∀ i ≤ k, k - i < fuel → bodyLoop data cur (cur + k) fuel i =
      .ok ((List.range' i (k - i)).flatMap (turnAccesses data cur k)) := by
  induction fuel with
  | zero =>
    intro i _ hfuel
    omega
  | succ fuel ih =>
    intro i hi hfuel
    have hindex : toSize ((i : ℤ) + cur) = i + cur :=
      mod_cast toSize_of_fits (n := i + cur) (by omega)
    rw [bodyLoop, hindex]
    by_cases hlt : i < k
    · have hrest := ih (i + 1) hlt (by omega)
      rw [if_pos (by omega), addInt_succ (by omega)]
      simp only [bind, Except.bind, hrest]
      rw [show k - i = (k - (i + 1)) + 1 by omega, List.range'_succ, List.flatMap_cons]
      rfl
    · obtain rfl : i = k := by omega
      rw [if_neg (by omega), Nat.sub_self]
      rfl

theorem bodyLoop_fits {accesses : List Access} (hfits : cur + k < 2 ^ 64) (fuel : ℕ) :
    ∀ i ≤ k, i < 2 ^ 31 → bodyLoop data cur (cur + k) fuel i = .ok accesses → k < 2 ^ 31 := by
  induction fuel generalizing accesses with
  | zero =>
    intro i _ _ h
    cases h
  | succ fuel ih =>
    intro i hi hint h
    have hindex : toSize ((i : ℤ) + cur) = i + cur :=
      mod_cast toSize_of_fits (n := i + cur) (by omega)
    by_cases hlt : i < k
    · rw [bodyLoop, hindex, if_pos (by omega)] at h
      obtain ⟨next, hnext, h⟩ := bind_eq_ok.1 h
      obtain ⟨rest, hrest, -⟩ := bind_eq_ok.1 h
      unfold addInt at hnext
      split at hnext
      · obtain rfl : ((i + 1 : ℕ) : ℤ) = next := by
          rw [← Except.ok.inj hnext]
          rfl
        exact ih (i + 1) hlt (by omega) hrest
      · cases hnext
    · omega

theorem turnAccesses_inside {j : ℕ} (hj : j < k) :
    (∀ t ∈ turnAccesses data cur k j, t.Inside) ↔ j < data.length := by
  simp only [turnAccesses, List.mem_cons, List.not_mem_nil, or_false, forall_eq_or_imp, forall_eq,
    Access.Inside]
  omega

end Loop

/-! ### A builder that sends a body -/

namespace HttpResponseBuilder

variable {env : Env} {builder : HttpResponseBuilder} {status : HttpStatus}
  {gs : List (Bytes × Bytes)} {data : Bytes} {n : ℕ}

/-- The loop of a builder that sends `n` bytes takes `n + 1` turns. -/
theorem bodyAccesses_sends (env : Env) (h : builder.Sends status gs data n) (hn : n < 2 ^ 63)
    (hgs : (fieldLines gs).length ≤ 100) : ∃ cur, cur + (n + 1) < 2 ^ 64 ∧
    builder.bodyAccesses env = bodyLoop data cur (cur + (n + 1)) (n + 2) 0 := by
  obtain ⟨headers, hheaders, hperm, hne, hall, hget⟩ := (sends_iff.1 h).1.laid
  set text := fieldLines headers.entries ++ CRLF with htext
  have hfree : NulFree text :=
    nulFree_append.2 ⟨nulFree_fieldLines fun f hf => (hall f hf).2, by decide⟩
  have hlen : text.length ≤ 200 := by
    have hname : (contentLength n).1.length = 14 := rfl
    have hvalue : (contentLength n).2.length = (decimal n).length := rfl
    have hdigits := length_decimal_of_lt (by omega) (hn.trans (by norm_num : 2 ^ 63 < 10 ^ 19))
    rw [htext, List.length_append, length_fieldLines_perm hperm, length_fieldLines_cons, hname,
      hvalue]
    simp only [List.length_cons, List.length_nil]
    omega
  have hnew : sizeAdd text.length ((n : ℤ) + 1) = text.length + (n + 1) :=
    mod_cast sizeAdd_of_lt (n := text.length) (d := n + 1) (by omega)
  refine ⟨text.length, by omega, ?_⟩
  simp only [bodyAccesses, hheaders, h.data, hget, parseLong_decimal hn,
    Option.getD_some, headerBlock_text hne, ← htext, takeWhile_text hfree, hnew,
    Nat.add_sub_cancel_left]

theorem bodyInside_iff_sends (h : builder.Sends status gs data n) (hn : n < 2 ^ 63)
    (hgs : (fieldLines gs).length ≤ 100) :
    builder.BodyInside env ↔ n + 1 ≤ data.length ∧ n + 1 < 2 ^ 31 := by
  obtain ⟨cur, hfits, hloop⟩ := bodyAccesses_sends env h hn hgs
  have hrun : n + 1 < 2 ^ 31 → builder.bodyAccesses env =
      .ok ((List.range' 0 (n + 1)).flatMap (turnAccesses data cur (n + 1))) := by
    intro hint
    rw [hloop]
    exact bodyLoop_ok hint hfits (n + 2) 0 (Nat.zero_le _) (by omega)
  constructor
  · rintro ⟨accesses, hok, hinside⟩
    have hint : n + 1 < 2 ^ 31 := by
      rw [hloop] at hok
      exact bodyLoop_fits hfits (n + 2) 0 (Nat.zero_le _) (by norm_num) hok
    rw [hrun hint] at hok
    obtain rfl := Except.ok.inj hok
    -- the last turn is the one that reads behind the `n` bytes
    have hlast : n < data.length := (turnAccesses_inside (Nat.lt_succ_self n)).1
      fun t ht => hinside t (List.mem_flatMap.2 ⟨n, by simp, ht⟩)
    exact ⟨hlast, hint⟩
  · rintro ⟨hdata, hint⟩
    refine ⟨_, hrun hint, ?_⟩
    intro t ht
    obtain ⟨j, hj, ht⟩ := List.mem_flatMap.1 ht
    have hlt : j < n + 1 := by simpa using hj
    exact (turnAccesses_inside hlt).2 (by omega) t ht

theorem bodyInside_of_none (hd : builder.data = none) : builder.BodyInside env := by
  refine ⟨[], ?_, by simp⟩
  unfold bodyAccesses
  rw [hd]
  cases builder.finalHeaders <;> rfl

theorem readPast_of_bodyInside (h : builder.Sends status gs data n) (hn : n < 2 ^ 63)
    (hgs : (fieldLines gs).length ≤ 100) (hinside : builder.BodyInside env) :
    env.readPast data (n + 1) = data.take (n + 1) :=
  readPast_of_le ((bodyInside_iff_sends h hn hgs).1 hinside).1

end HttpResponseBuilder

/-! ### The bodies of the handlers -/

/-- The content of a file, whose length is a `long`. -/
structure FileContent where
  bytes : Bytes
  size : bytes.length < 2 ^ 63

/-- A body as a handler gives it to the builder. -/
inductive GivenBody where
  | message (message : CString) (gzip : Bool)
  | file (content : FileContent)

namespace GivenBody

def builder (env : Env) (request : HttpRequest) : GivenBody → HttpResponseBuilder
  | message m gzip =>
    let builder := (createHttpResponseBuilder .httpOk).plainMessage env m.text
    addConnectionCloseIfNeeded env request
      (if gzip then builder.option env .compressionGzip else builder)
  | file content => fileBuilder env request (content.bytes ++ [0]) content.bytes.length

/-- The body is duplicated from a C string of the declared length, whose bytes an `int` counts; a
message that is compressed is one only when the compression fails. -/
def Copied (env : Env) : GivenBody → Prop
  | message m gzip =>
    match (if gzip then env.gzipCompress m.text else none) with
    | none => m.text.length + 1 < 2 ^ 31
    | some output => output = []
  | file content => NulFree content.bytes ∧ content.bytes.length + 1 < 2 ^ 31

end GivenBody

section Given

variable {env : Env} {request : HttpRequest}

theorem builder_echo (env : Env) (request : HttpRequest) (m : CString) :
    (GivenBody.message m request.acceptsGzip).builder env request =
      echoBuilder env request m.text := rfl

theorem builder_userAgent (env : Env) (request : HttpRequest) (m : CString) :
    (GivenBody.message m false).builder env request = userAgentBuilder env request m.text := rfl

theorem builder_getFiles (env : Env) (request : HttpRequest) {w : World} {d filename : Bytes}
    {content : FileContent} (h : w.files (d ++ filename) = some content.bytes) :
    (GivenBody.file content).builder env request =
      getFilesBuilder env (some d) request w filename := by
  simp only [getFilesBuilder, h]
  rfl

theorem length_closeField_le (closes : Bool) {fs : List (Bytes × Bytes)}
    (h : (fieldLines fs).length ≤ 80) : (fieldLines (closeField closes ++ fs)).length ≤ 100 := by
  rw [length_fieldLines_close]
  split <;> omega

/-- What was duplicated from a C string has a byte more than the string. -/
theorem bodyInside_message (m : CString) :
    (addConnectionCloseIfNeeded env request
      ((createHttpResponseBuilder .httpOk).plainMessage env m.text)).BodyInside env ↔
        m.text.length + 1 < 2 ^ 31 := by
  have hgs := length_closeField_le request.closes
    (show (fieldLines [contentType "text/plain"]).length ≤ 80 by decide)
  have hlen : (m.text.takeWhile (· ≠ 0) ++ [0]).length = m.text.length + 1 := by
    rw [m.nulFree.takeWhile, List.length_append]
    rfl
  rw [bodyInside_iff_sends (sends_addConnectionClose (sends_plainMessage env m.text)) m.size hgs,
    hlen]
  omega

/-- The output of a compression has no byte behind it. -/
theorem not_bodyInside_compressed (hg : env.GzipObjects) (m : CString) {output : Bytes}
    (hout : env.gzipCompress m.text = some output) (hne : output ≠ []) :
    ¬ ((GivenBody.message m true).builder env request).BodyInside env := by
  have hgs := length_closeField_le request.closes
    (show (fieldLines [contentEncoding, contentType "text/plain"]).length ≤ 80 by decide)
  have hsends := (sends_plainMessage env m.text).compressionGzip m.size
    (by rwa [readPast_message env m.nulFree]) hne
  intro hinside
  have hloop := (bodyInside_iff_sends (sends_addConnectionClose hsends) (hg m.text output hout)
    hgs).1 hinside
  omega

theorem bodyInside_empty (m : CString) (hout : env.gzipCompress m.text = some []) :
    ((GivenBody.message m true).builder env request).BodyInside env := by
  have hsends := sends_plainMessage env m.text
  obtain ⟨-, hdata⟩ := (sends_iff.1 hsends).1.compressionGzip hsends.data m.size
    (by rwa [readPast_message env m.nulFree])
  apply bodyInside_of_none
  show (addConnectionCloseIfNeeded env request _).data = none
  rw [addConnectionCloseIfNeeded_eq]
  cases request.closes
  · exact hdata
  · exact hdata

/-- Of a file only the bytes before its first NUL are duplicated. -/
theorem bodyInside_file (content : FileContent) :
    ((GivenBody.file content).builder env request).BodyInside env ↔
      NulFree content.bytes ∧ content.bytes.length + 1 < 2 ^ 31 := by
  have hgs := length_closeField_le request.closes
    (show (fieldLines [contentType "application/octet-stream"]).length ≤ 80 by decide)
  have hcopied : content.bytes.length + 1 ≤
      ((content.bytes ++ [0]).takeWhile (· ≠ 0) ++ [0]).length ↔ NulFree content.bytes := by
    constructor
    · intro hle hmem
      obtain ⟨a, b, hab, ha⟩ := List.eq_append_cons_of_mem hmem
      rw [hab, List.append_assoc, List.cons_append, (takeWhile_ne_append _ ha).1] at hle
      simp only [List.length_append, List.length_cons, List.length_nil] at hle
      omega
    · intro hfree
      rw [takeWhile_text hfree, List.length_append]
      exact le_rfl
  rw [← hcopied]
  exact bodyInside_iff_sends (sends_file env request _ _) content.size hgs

/-- When the body loop stays inside: the data was duplicated from a C string of the declared length,
and not compressed. -/
theorem bodyInside_iff (hg : env.GzipObjects) (request : HttpRequest) (body : GivenBody) :
    (body.builder env request).BodyInside env ↔ body.Copied env := by
  cases body with
  | file content => exact bodyInside_file content
  | message m gzip =>
    cases gzip with
    | false => exact bodyInside_message m
    | true =>
      cases hout : env.gzipCompress m.text with
      | none =>
        have hkept := (sends_plainMessage env m.text).compressionGzip_none m.size
          (by rwa [readPast_message env m.nulFree])
        simp only [GivenBody.builder, GivenBody.Copied, if_true, hout, hkept]
        exact bodyInside_message m
      | some output =>
        simp only [GivenBody.Copied, if_true, hout]
        constructor
        · intro hinside
          by_contra hne
          exact not_bodyInside_compressed hg m hout hne hinside
        · rintro rfl
          exact bodyInside_empty m hout

/-- A message that is sent as it is. -/
theorem bodyInside_abc :
    ((GivenBody.message abc false).builder Env.gzip echoAbc).BodyInside Env.gzip := by
  apply (bodyInside_iff gzipObjects_gzip echoAbc (.message abc false)).2
  show (lit "abc").length + 1 < 2 ^ 31
  decide

def nulFile : FileContent := ⟨[0, 65], by decide⟩

/-- The byte behind a compressed message is read, and those behind the first NUL of a file. -/
theorem not_bodyInside_abc :
    ¬ ((GivenBody.message abc true).builder Env.gzip echoAbc).BodyInside Env.gzip ∧
      ¬ ((GivenBody.file nulFile).builder Env.gzip echoAbc).BodyInside Env.gzip := by
  constructor
  · have hout : Env.gzip.gzipCompress abc.text = some gzipAbc := rfl
    exact not_bodyInside_compressed gzipObjects_gzip abc hout (by decide)
  · intro hinside
    have hfree := (bodyInside_file nulFile).1 hinside
    exact hfree.1 (by decide)

end Given

end HttpServer

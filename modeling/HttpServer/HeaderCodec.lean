import HttpServer.HashmapRuns
import HttpServer.Encoding
import HttpServer.BuilderSem

/-!
# Header maps as text, and back

`parse_headers` is the reading of lines: what it stores, counts and points at is said of the lines of
the text alone (`parseHeaders_lines`).  `traverse_hashmap` writes the lines of a map, bucket by bucket;
read back into an empty map they fill every bucket in the same order, as long as the text can be
counted in an `int` (`agrees_of_fits`).
-/

namespace HttpServer

open Lib HttpResponseBuilder

/-! ### Maps that are filled from a list -/

section Fill

variable {m : Hashmap Bytes} {B : ℕ → List (HashmapNode Bytes)} {ps : List (Bytes × Bytes)}

def nodeOf (p : Bytes × Bytes) : HashmapNode Bytes := ⟨p.1, p.2, defaultHash p.1⟩

theorem holds_setAll (h : m.Holds B) (ps : List (Bytes × Bytes)) : (setAll m ps).Holds fun i =>
    B i ++ (ps.filter fun p => bucketOf p.1 = i).map nodeOf := by
  induction ps generalizing m B with
  | nil => simpa [setAll] using h
  | cons p ps ih =>
    have hbuckets : (fun i => B i ++ ((p :: ps).filter fun p => bucketOf p.1 = i).map nodeOf) =
        fun i => Function.update B (bucketOf p.1) (B (bucketOf p.1) ++ [nodeOf p]) i ++
          (ps.filter fun p => bucketOf p.1 = i).map nodeOf := by
      funext i
      by_cases hi : bucketOf p.1 = i
      · subst hi
        simp
      · rw [Function.update_of_ne (Ne.symm hi), List.filter_cons_of_neg (by simpa using hi)]
    rw [hbuckets]
    exact ih (h.set p.1 p.2)

/-- A lookup of any key finds the first pair of its key, when no key in the map has a NUL. -/
theorem get_headerMap_of_names (h : ∀ p ∈ ps, NulFree p.1) (k : Bytes) :
    (headerMap ps).get k = (ps.find? fun p => p.1 = k).map (·.2) := by
  have hholds := holds_setAll Hashmap.holds_create ps
  have htells : Hashmap.Tells ([] ++ (ps.filter fun p =>
      bucketOf p.1 = bucketOf k).map nodeOf) k :=
    Hashmap.tells_of_nulFree_keys (fun n hn => by
      rw [List.nil_append] at hn
      obtain ⟨p, hp, rfl⟩ := List.mem_map.1 hn
      exact h p (List.mem_of_mem_filter hp)) k
  rw [headerMap, hholds.get_of_tells htells, List.nil_append, List.find?_map, Option.map_map,
    List.find?_filter]
  refine congrArg (Option.map _) (List.find?_congr fun p _ => ?_)
  by_cases hp : p.1 = k <;> simp [nodeOf, hp]

end Fill

/-! ### The lines of a text -/

section Lines

variable {s : Bytes}

theorem nulFree_of_mem_lines (hs : NulFree s) {l : Bytes} (hl : l ∈ (splitHead s).1) : NulFree l := by
  rw [(headLines_splitHead s).text, nulFree_append] at hs
  exact fun h0 => hs.1 (List.mem_flatMap.2 ⟨l, hl, List.mem_append_left _ h0⟩)

theorem nulFree_fieldOf {l : Bytes} (hl : NulFree l) {f : Bytes × Bytes} (h : fieldOf l = some f) :
    NulFree f.1 := by
  unfold fieldOf at h
  split at h
  · cases h
    exact hl.sublist ((List.take_sublist _ _).trans (List.takeWhile_sublist _))
  · cases h

/-- **`parse_headers` on every text**: it takes the lines up to the first empty one or to the
unterminated rest, stores the fields of those with a colon in order, counts them, and points at what
comes after the lines; a lookup finds the first line of its name. -/
theorem parseHeaders_lines (pre post : Bytes) (headers : Hashmap Bytes) (hs : NulFree s) :
    ∃ lines rest, HeadLines s lines rest ∧
      parseHeaders (pre ++ s ++ 0 :: post) pre.length headers =
        .ok ((lines.filterMap fieldOf).length, setAll headers (lines.filterMap fieldOf),
          (pre ++ lines.flatMap (· ++ CRLF)).length) ∧
      ∀ k, (setAll Hashmap.create (lines.filterMap fieldOf)).get k =
        ((lines.filterMap fieldOf).find? fun p => p.1 = k).map (·.2) := by
  have hhead := headLines_splitHead s
  refine ⟨(splitHead s).1, (splitHead s).2, hhead, ?_, get_headerMap_of_names fun p hp => ?_⟩
  · have hend : s.length - (afterHead s).length =
        ((splitHead s).1.flatMap (· ++ CRLF)).length := by
      have hlen := congrArg List.length hhead.text
      rw [List.length_append] at hlen
      rw [afterHead]
      omega
    rw [parseHeaders_eq pre post headers hs, hend, List.length_append]
    rfl
  · obtain ⟨l, hl, hf⟩ := List.mem_filterMap.1 hp
    exact nulFree_fieldOf (nulFree_of_mem_lines hs hl) hf

/-- A head with a line without colon, a name twice, and a body. -/
theorem parseHeaders_lines_repeated : ∃ lines rest,
    HeadLines (lit "a: 1\r\nnote\r\na:2\r\n\r\nbody") lines rest ∧
      parseHeaders ([] ++ lit "a: 1\r\nnote\r\na:2\r\n\r\nbody" ++ 0 :: []) ([] : Bytes).length
          Hashmap.create =
        .ok ((lines.filterMap fieldOf).length, setAll Hashmap.create (lines.filterMap fieldOf),
          ([] ++ lines.flatMap (· ++ CRLF)).length) ∧
      ∀ k, (setAll Hashmap.create (lines.filterMap fieldOf)).get k =
        ((lines.filterMap fieldOf).find? fun p => p.1 = k).map (·.2) :=
  parseHeaders_lines [] [] Hashmap.create (by decide)

end Lines

/-! ### The text of a map -/

section Codec

variable {env : Env} {m : Hashmap Bytes}

/-- `traverse_hashmap` writes the lines of the map, bucket by bucket and slot by slot. -/
theorem traverse_built (env : Env) (m : Hashmap Bytes) :
    (m.traverse (traverseHashmap env) (none, 0)).1 = 0 ∧
      Built (fieldLines m.entries) (m.traverse (traverseHashmap env) (none, 0)).2 := by
  have hbuilt := traverseNodes_built env m.nodes built_nil
  rw [List.nil_append] at hbuilt
  exact ⟨by rw [Hashmap.traverse_eq_foldl fun n s => rfl], hbuilt⟩

/-- Filled from its entries, an empty map gets every bucket of `m` as it is in `m`. -/
theorem slots_headerMap (h : m.WF) (i : ℕ) : (headerMap m.entries).slots i = m.slots i := by
  obtain ⟨B, hB⟩ := h
  have hfilled := holds_setAll Hashmap.holds_create m.entries
  by_cases hi : i < DEFAULT_NUMBER_OF_BUCKETS
  · have hnode : ∀ n ∈ B i, nodeOf (n.key, n.data) = n := by
      intro n hn
      rw [nodeOf, ← (hB.placed i hi n hn).1]
    have hbucket := filter_flatMap_range (B := B) (f := fun n => bucketOf n.key) hi
      fun j hj n hn => (hB.placed j hj n hn).2
    rw [headerMap, hfilled.slots hi, hB.slots hi, List.nil_append, Hashmap.entries, hB.nodes,
      List.filter_map, List.map_map]
    calc (((List.range DEFAULT_NUMBER_OF_BUCKETS).flatMap B).filter _).map _
        = (B i).map (nodeOf ∘ fun n => (n.key, n.data)) := congrArg (List.map _) hbucket
      _ = B i := (List.map_congr_left hnode).trans (List.map_id _)
  · rw [headerMap, hfilled.slots_of_le (not_lt.1 hi), hB.slots_of_le (not_lt.1 hi)]

/-- The encoder of response headers and the decoder of request headers agree on the map `m`: the one
writes its lines and counts them in an `int`, and the other reads as many fields off them, stops at
the empty line and fills every bucket of an empty map with the nodes of `m`. -/
structure Agrees (env : Env) (m : Hashmap Bytes) : Prop where
  written : ∃ buffer size, m.traverse (traverseHashmap env) (none, 0) = (0, (buffer, size)) ∧
    size ≤ INT_MAX ∧ size = (fieldLines m.entries).length ∧
    (m.entries ≠ [] → buffer = some ⟨size + 1, fieldLines m.entries⟩)
  read : ∃ map, parseHeaders (fieldLines m.entries ++ CRLF ++ [0]) 0 Hashmap.create =
      .ok (m.entries.length, map, (fieldLines m.entries).length) ∧
    ∀ i, map.slots i = m.slots i

/-- **What is written of a map is read back**, bucket by bucket, when its text can be counted. -/
theorem agrees_of_fits {calls : List (HashmapCall Bytes)} (env : Env)
    (hg : ∀ c ∈ calls, c.Granted) (hm : m = (Hashmap.create.callAll calls).2)
    (hplain : ∀ f ∈ m.entries, PlainHeader f ∧ Fits f)
    (hlen : (fieldLines m.entries).length ≤ INT_MAX) : Agrees env m := by
  have hwf : m.WF := hm ▸ Hashmap.wf_callAll Hashmap.wf_create hg
  obtain ⟨hrc, hbuilt⟩ := traverse_built env m
  refine ⟨⟨_, _, Prod.ext hrc rfl, ?_, hbuilt.size, fun hne => ?_⟩,
    headerMap m.entries, ?_, slots_headerMap hwf⟩
  · rw [hbuilt.size]
    exact hlen
  · rw [hbuilt.size]
    exact hbuilt.text (fieldLines_ne_nil hne)
  · have hfields : fields (fieldLines m.entries ++ CRLF) = m.entries := by
      have := fields_encode (fun f hf => (hplain f hf).1) []
      rwa [List.append_nil, map_stored fun f hf => (hplain f hf).2] at this
    have hafter : afterHead (fieldLines m.entries ++ CRLF) = CRLF := by
      have := afterHead_encode (fun f hf => (hplain f hf).1) []
      rwa [List.append_nil] at this
    have hfree : NulFree (fieldLines m.entries ++ CRLF) :=
      nulFree_append.2 ⟨nulFree_fieldLines fun f hf =>
        ⟨(hplain f hf).1.name.2.2.2, (hplain f hf).1.value.2.2⟩, by decide⟩
    have hparse := parseHeaders_eq [] [] Hashmap.create hfree
    rw [hfields, hafter] at hparse
    simpa [headerMap] using hparse

def twoHeaders : List (HashmapCall Bytes) :=
  [.set .calm (lit "Host") (lit "localhost"), .set .calm (lit "Accept") (lit "*/*")]

theorem agrees_twoHeaders : Agrees Env.plain (Hashmap.create.callAll twoHeaders).2 :=
  agrees_of_fits Env.plain (by simp [twoHeaders, HashmapCall.Granted, Realloc.calm]) rfl
    (by decide +kernel) (by decide +kernel)

/-- The encoder and the decoder agree on every map that calls make of an empty one. -/
def AlwaysAgrees : Prop :=
  ∀ (env : Env) (calls : List (HashmapCall Bytes)) (m : Hashmap Bytes),
    (∀ c ∈ calls, c.Granted) → (∀ c ∈ calls, NulFree c.key) →
    m = (Hashmap.create.callAll calls).2 → (∀ f ∈ m.entries, PlainHeader f ∧ Fits f) → Agrees env m

def longField : Bytes × Bytes := (List.replicate 255 97, List.replicate 255 98)

def setLong : HashmapCall Bytes := .set .calm longField.1 longField.2

theorem entries_replicate (h : m.WF) (n : ℕ) :
    (m.callAll (List.replicate n setLong)).2.entries.Perm
      (List.replicate n longField ++ m.entries) := by
  induction n generalizing m with
  | zero => exact List.Perm.refl _
  | succ n ih =>
    have hset := Hashmap.entries_set h longField.1 longField.2
    exact (ih (h.set _ _)).trans ((hset.append_left _).trans List.perm_middle)

theorem length_fieldLines_replicate (n : ℕ) :
    (fieldLines (List.replicate n longField)).length = n * 514 := by
  induction n with
  | zero => rfl
  | succ n ih =>
    have hname : longField.1.length = 255 := List.length_replicate
    have hvalue : longField.2.length = 255 := List.length_replicate
    rw [List.replicate_succ, length_fieldLines_cons, ih, hname, hvalue]
    omega

/-- **A text that an `int` cannot count**: 2²³ headers that fill their lines. -/
theorem not_alwaysAgrees : ¬ AlwaysAgrees := by
  intro h
  obtain ⟨n, hn⟩ : ∃ n, n = 2 ^ 23 := ⟨_, rfl⟩
  have hentries := entries_replicate Hashmap.wf_create n
  rw [Hashmap.entries_create, List.append_nil] at hentries
  have hlong : setLong.Granted ∧ NulFree setLong.key := ⟨rfl, by decide +kernel⟩
  have hplain : PlainHeader longField ∧ Fits longField := by decide +kernel
  obtain ⟨⟨buffer, size, -, hint, hsize, -⟩, -⟩ := h Env.plain (List.replicate n setLong) _
    (fun c hc => List.eq_of_mem_replicate hc ▸ hlong.1)
    (fun c hc => List.eq_of_mem_replicate hc ▸ hlong.2) rfl
    (fun f hf => List.eq_of_mem_replicate (hentries.subset hf) ▸ hplain)
  rw [length_fieldLines_perm hentries, length_fieldLines_replicate] at hsize
  simp only [INT_MAX] at hint
  omega

end Codec

end HttpServer

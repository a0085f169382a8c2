import Mathlib

/-!
# Byte strings, lines and tokens

Byte strings are lists of bytes.  `cutLine` cuts a text at its first CR LF, `splitHead` takes the
lines of a text up to its first empty line (or to an unterminated rest), and `token` takes one
token off a text: the three ways of reading a text that the rest of the development is stated in.
-/

namespace HttpServer.Lib

abbrev Bytes := List UInt8

/-- The bytes of an ASCII literal. -/
def lit (s : String) : Bytes := s.toList.map fun c => c.toNat.toUInt8

abbrev SP : UInt8 := 32
abbrev CR : UInt8 := 13
abbrev LF : UInt8 := 10
abbrev COLON : UInt8 := 58
abbrev SLASH : UInt8 := 47

abbrev CRLF : Bytes := [CR, LF]

/-- `s` has no NUL byte: it is the text of a C string. -/
def NulFree (s : Bytes) : Prop := 0 ∉ s

instance (s : Bytes) : Decidable (NulFree s) := by unfold NulFree; infer_instance

section NulFree

variable {s t : Bytes} {c : UInt8}

@[simp] theorem nulFree_nil : NulFree [] := by simp [NulFree]

@[simp] theorem nulFree_cons : NulFree (c :: s) ↔ c ≠ 0 ∧ NulFree s := by
  simp [NulFree, eq_comm]

@[simp] theorem nulFree_append : NulFree (s ++ t) ↔ NulFree s ∧ NulFree t := by
  simp [NulFree]

theorem NulFree.sublist (h : NulFree t) (hs : s.Sublist t) : NulFree s :=
  fun h0 => h (hs.subset h0)

theorem NulFree.takeWhile_append (h : NulFree s) (t : Bytes) :
    (s ++ t).takeWhile (· ≠ 0) = s ++ t.takeWhile (· ≠ 0) := by
  apply List.takeWhile_append_of_pos
  intro c hc
  have : c ≠ 0 := fun h0 => h (h0 ▸ hc)
  simpa using this

theorem NulFree.takeWhile (h : NulFree s) : s.takeWhile (· ≠ 0) = s := by
  simpa using h.takeWhile_append []

theorem nulFree_takeWhile (s : Bytes) : NulFree (s.takeWhile (· ≠ 0)) := by
  intro h
  simpa using List.mem_takeWhile_imp h

end NulFree

/-! ### Lines -/

/-- Cuts `s` at its first CR LF: the text before it and the text after it. -/
def cutLine : Bytes → Option (Bytes × Bytes)
  | [] => none
  | [_] => none
  | c :: d :: s =>
    if c = CR ∧ d = LF then some ([], s) else (cutLine (d :: s)).map fun p => (c :: p.1, p.2)

theorem eq_of_cutLine {s l r : Bytes} (h : cutLine s = some (l, r)) : s = l ++ CR :: LF :: r := by
  induction s using cutLine.induct generalizing l with
  | case1 => simp [cutLine] at h
  | case2 => simp [cutLine] at h
  | case3 c d s hcd =>
    obtain ⟨rfl, rfl⟩ := hcd
    simp only [cutLine, and_self, if_true, Option.some.injEq, Prod.mk.injEq] at h
    obtain ⟨rfl, rfl⟩ := h
    rfl
  | case4 c d s hcd ih =>
    simp only [cutLine, hcd, if_false, Option.map_eq_some_iff] at h
    obtain ⟨⟨l', r'⟩, h1, h2⟩ := h
    obtain ⟨rfl, rfl⟩ := Prod.mk.inj h2
    rw [ih h1]
    rfl

theorem cutLine_append {l : Bytes} (r : Bytes) (hl : CR ∉ l) :
    cutLine (l ++ CR :: LF :: r) = some (l, r) := by
  induction l with
  | nil => simp [cutLine]
  | cons c l ih =>
    simp only [List.mem_cons, not_or] at hl
    obtain ⟨hc, hl⟩ := hl
    obtain ⟨d, s, hs⟩ : ∃ d s, l ++ CR :: LF :: r = d :: s := by cases l <;> simp
    have hcut := ih hl
    rw [hs] at hcut
    have hne : ¬ (c = CR ∧ d = LF) := fun h => hc h.1.symm
    simp [hs, cutLine, hne, hcut]

theorem cutLine_length_lt {s l r : Bytes} (h : cutLine s = some (l, r)) : r.length < s.length := by
  rw [eq_of_cutLine h]
  simp only [List.length_append, List.length_cons]
  omega

/-- `splitHead` with the text of the line under way, `line`, which began at `start`. -/
def splitHeadFrom (start line : Bytes) : Bytes → List Bytes × Bytes
  | [] => ([], start)
  | [_] => ([], start)
  | c :: d :: s =>
    if c = CR ∧ d = LF then
      if line = [] then ([], start)
      else (line :: (splitHeadFrom s [] s).1, (splitHeadFrom s [] s).2)
    else splitHeadFrom start (line ++ [c]) (d :: s)

/-- The lines of `s` up to its first empty line or its unterminated rest, and the text from there:
the second component starts with the CR LF of the empty line, or has no CR LF. -/
def splitHead (s : Bytes) : List Bytes × Bytes := splitHeadFrom s [] s

theorem splitHeadFrom_eq (start line s : Bytes) : splitHeadFrom start line s =
    match cutLine s with
    | none => ([], start)
    | some (l, r) =>
      if line ++ l = [] then ([], start) else ((line ++ l) :: (splitHead r).1, (splitHead r).2) := by
  induction s using cutLine.induct generalizing line with
  | case1 => simp [splitHeadFrom, cutLine]
  | case2 => simp [splitHeadFrom, cutLine]
  | case3 c d s hcd =>
    obtain ⟨rfl, rfl⟩ := hcd
    simp [splitHeadFrom, cutLine, splitHead]
  | case4 c d s hcd ih =>
    simp only [splitHeadFrom, hcd, if_false, ih, cutLine]
    cases cutLine (d :: s) with
    | none => rfl
    | some p => simp

theorem splitHead_eq (s : Bytes) : splitHead s =
    match cutLine s with
    | none => ([], s)
    | some (l, r) => if l = [] then ([], s) else (l :: (splitHead r).1, (splitHead r).2) := by
  rw [splitHead, splitHeadFrom_eq]
  rfl

theorem splitHead_of_none {s : Bytes} (h : cutLine s = none) : splitHead s = ([], s) := by
  rw [splitHead_eq, h]

theorem splitHead_of_empty {s r : Bytes} (h : cutLine s = some ([], r)) : splitHead s = ([], s) := by
  rw [splitHead_eq, h]
  rfl

theorem splitHead_of_line {s l r : Bytes} (h : cutLine s = some (l, r)) (hl : l ≠ []) :
    splitHead s = (l :: (splitHead r).1, (splitHead r).2) := by
  rw [splitHead_eq, h]
  simp [hl]

/-- Lines without CR, an empty line and a text after it are read back. -/
theorem splitHead_flatMap (ls : List Bytes) (r : Bytes) (hl : ∀ l ∈ ls, l ≠ [] ∧ CR ∉ l) :
    splitHead (ls.flatMap (· ++ CRLF) ++ CRLF ++ r) = (ls, CRLF ++ r) := by
  induction ls with
  | nil => exact splitHead_of_empty (r := r) (by simp [cutLine])
  | cons l ls ih =>
    obtain ⟨hne, hcr⟩ := hl l (by simp)
    have hcut := cutLine_append (l := l) (ls.flatMap (· ++ CRLF) ++ CRLF ++ r) hcr
    have := splitHead_of_line hcut hne
    rw [ih fun l' hl' => hl l' (List.mem_cons_of_mem _ hl')] at this
    simpa using this

theorem splitHead_suffix (s : Bytes) : (splitHead s).2 <:+ s := by
  induction hn : s.length using Nat.strong_induction_on generalizing s with
  | _ n ih =>
    subst hn
    cases h : cutLine s with
    | none => rw [splitHead_of_none h]
    | some p =>
      obtain ⟨l, r⟩ := p
      by_cases hl : l = []
      · subst hl
        rw [splitHead_of_empty h]
      · rw [splitHead_of_line h hl]
        have hr : r <:+ s := by
          rw [eq_of_cutLine h]
          exact ⟨l ++ CRLF, by simp⟩
        exact (ih _ (cutLine_length_lt h) r rfl).trans hr

theorem not_infix_of_cutLine_none {s : Bytes} (h : cutLine s = none) : ¬ CRLF <:+: s := by
  induction s using cutLine.induct with
  | case1 => decide
  | case2 c => exact fun hin => absurd hin.length_le (by simp)
  | case3 c d s hcd => simp [cutLine, hcd] at h
  | case4 c d s hcd ih =>
    simp only [cutLine, hcd, if_false, Option.map_eq_none_iff] at h
    rw [List.infix_cons_iff, not_or]
    refine ⟨fun hp => hcd ?_, ih h⟩
    obtain ⟨hc, hp⟩ := List.cons_prefix_cons.1 hp
    exact ⟨hc.symm, (List.cons_prefix_cons.1 hp).1.symm⟩

theorem not_infix_of_cutLine {s l r : Bytes} (h : cutLine s = some (l, r)) : ¬ CRLF <:+: l := by
  induction s using cutLine.induct generalizing l with
  | case1 => simp [cutLine] at h
  | case2 => simp [cutLine] at h
  | case3 c d s hcd =>
    simp only [cutLine, hcd, and_self, if_true, Option.some.injEq, Prod.mk.injEq] at h
    obtain ⟨rfl, -⟩ := h
    decide
  | case4 c d s hcd ih =>
    simp only [cutLine, hcd, if_false, Option.map_eq_some_iff] at h
    obtain ⟨⟨l', r'⟩, h1, h2⟩ := h
    obtain ⟨rfl, rfl⟩ := Prod.mk.inj h2
    rw [List.infix_cons_iff, not_or]
    refine ⟨fun hp => ?_, ih h1⟩
    obtain ⟨hc, hp⟩ := List.cons_prefix_cons.1 hp
    obtain ⟨x, rfl⟩ : ∃ x, l' = LF :: x := let ⟨x, hx⟩ := hp; ⟨x, hx.symm⟩
    exact hcd ⟨hc.symm, (List.cons.inj (eq_of_cutLine h1)).1⟩

/-- The text `s` is the lines of a head, each with its line end, and a rest: no line is empty or has a
line end in it, and the rest starts with the empty line or has no line end. -/
structure HeadLines (s : Bytes) (lines : List Bytes) (rest : Bytes) : Prop where
  text : s = lines.flatMap (· ++ CRLF) ++ rest
  line : ∀ l ∈ lines, l ≠ [] ∧ ¬ CRLF <:+: l
  rest : CRLF <+: rest ∨ ¬ CRLF <:+: rest

/-- **A text is cut into the lines of its head** and the rest. -/
theorem headLines_splitHead (s : Bytes) : HeadLines s (splitHead s).1 (splitHead s).2 := by
  induction hn : s.length using Nat.strong_induction_on generalizing s with
  | _ n ih =>
    subst hn
    cases h : cutLine s with
    | none =>
      rw [splitHead_of_none h]
      exact ⟨rfl, by simp, Or.inr (not_infix_of_cutLine_none h)⟩
    | some p =>
      obtain ⟨l, r⟩ := p
      have hs := eq_of_cutLine h
      by_cases hl : l = []
      · subst hl
        rw [splitHead_of_empty h]
        exact ⟨rfl, by simp, Or.inl ⟨r, by rw [hs]; rfl⟩⟩
      · obtain ⟨htext, hlines, hrest⟩ := ih _ (cutLine_length_lt h) r rfl
        rw [splitHead_of_line h hl]
        refine ⟨?_, fun l' hl' => ?_, hrest⟩
        · rw [hs, List.flatMap_cons, List.append_assoc, ← htext]
          simp
        · rcases List.mem_cons.1 hl' with rfl | hl'
          · exact ⟨hl, not_infix_of_cutLine h⟩
          · exact hlines l' hl'

theorem dropWhile_ne_of_mem {c : UInt8} {l : Bytes} (h : c ∈ l) :
    ∃ w, l.dropWhile (· ≠ c) = c :: w := by
  induction l with
  | nil => simp at h
  | cons x l ih =>
    by_cases hx : x = c
    · exact ⟨l, by simp [hx]⟩
    · obtain ⟨w, hw⟩ := ih ((List.mem_cons.1 h).resolve_left (Ne.symm hx))
      exact ⟨w, by rw [List.dropWhile_cons_of_pos (by simpa using hx), hw]⟩

/-- Cuts `s` at the first byte `c`, which is dropped. -/
def cutAt (c : UInt8) (s : Bytes) : Option (Bytes × Bytes) :=
  if c ∈ s then some (s.takeWhile (· ≠ c), (s.dropWhile (· ≠ c)).drop 1) else none

theorem takeWhile_ne_append {c : UInt8} {l : Bytes} (r : Bytes) (hl : c ∉ l) :
    (l ++ c :: r).takeWhile (· ≠ c) = l ∧ (l ++ c :: r).dropWhile (· ≠ c) = c :: r := by
  have hall : ∀ x ∈ l, (fun x => decide (x ≠ c)) x = true := by
    intro x hx
    have : x ≠ c := fun h => hl (h ▸ hx)
    simpa using this
  rw [List.takeWhile_append_of_pos hall, List.dropWhile_append_of_pos hall]
  simp

theorem cutAt_append {c : UInt8} {l : Bytes} (r : Bytes) (hl : c ∉ l) :
    cutAt c (l ++ c :: r) = some (l, r) := by
  obtain ⟨h1, h2⟩ := takeWhile_ne_append r hl
  rw [cutAt, if_pos (by simp), h1, h2]
  rfl

theorem take_eq_iff {s t : Bytes} {n : ℕ} (ht : t.length < n) : s.take n = t ↔ s = t := by
  rcases le_or_gt s.length n with hlen | hlen
  · rw [List.take_of_length_le hlen]
  · refine iff_of_false ?_ ?_
    · rintro rfl
      rw [List.length_take] at ht
      omega
    · rintro rfl
      omega

/-! ### Tokens -/

/-- One token off a text: the delimiters in front are skipped, the token runs to the next
delimiter, which is dropped with it, or to the end of the text. -/
def token (d : UInt8 → Bool) (s : Bytes) : Option (Bytes × Bytes) :=
  if s.dropWhile d = [] then none
  else some ((s.dropWhile d).takeWhile (fun c => !d c),
    ((s.dropWhile d).dropWhile fun c => !d c).drop 1)

/-- The non-empty pieces of a text between delimiters. -/
def tokens (d : UInt8 → Bool) (s : Bytes) : List Bytes := (s.splitOnP d).filter (· ≠ [])

/-- A text has no token, or is delimiters and a token to its end, or delimiters, a token, a
delimiter and a rest. -/
theorem token_cases (d : UInt8 → Bool) (s : Bytes) :
    (s.dropWhile d = [] ∧ token d s = none) ∨
    ∃ t, t ≠ [] ∧ (∀ x ∈ t, d x = false) ∧
      ((s.dropWhile d = t ∧ token d s = some (t, [])) ∨
        ∃ c r, d c = true ∧ s.dropWhile d = t ++ c :: r ∧ token d s = some (t, r)) := by
  by_cases hnil : s.dropWhile d = []
  · exact Or.inl ⟨hnil, by simp [token, hnil]⟩
  right
  refine ⟨(s.dropWhile d).takeWhile (fun c => !d c), ?_, ?_, ?_⟩
  · obtain ⟨x, u, hu⟩ := List.exists_cons_of_ne_nil hnil
    have hx : d x = false := by
      have := List.head_dropWhile_not d hnil
      simpa [hu] using this
    simp [hu, hx]
  · intro x hx
    simpa using List.mem_takeWhile_imp hx
  · have hsplit := List.takeWhile_append_dropWhile (p := fun c => !d c) (l := s.dropWhile d)
    cases hr : (s.dropWhile d).dropWhile (fun c => !d c) with
    | nil =>
      rw [hr, List.append_nil] at hsplit
      exact Or.inl ⟨hsplit.symm, by simp [token, hnil, hr]⟩
    | cons c r =>
      rw [hr] at hsplit
      refine Or.inr ⟨c, r, ?_, hsplit.symm, by simp [token, hnil, hr]⟩
      have := List.head_dropWhile_not (fun c => !d c) (l := s.dropWhile d) (by simp [hr])
      simpa [hr] using this

theorem token_nil (d : UInt8 → Bool) : token d [] = none := rfl

theorem token_none_delim {s : Bytes} (hs : s ≠ []) : token (fun _ => false) s = some (s, []) := by
  have h1 : s.dropWhile (fun _ => false) = s := by cases s <;> rfl
  have h2 : s.takeWhile (fun _ => true) = s := List.takeWhile_eq_self_iff.2 fun _ _ => rfl
  have h3 : s.dropWhile (fun _ => true) = [] := List.dropWhile_eq_nil_iff.2 fun _ _ => rfl
  simp [token, h1, h2, h3, hs]

theorem nulFree_of_token {d : UInt8 → Bool} {s t r : Bytes} (hs : NulFree s)
    (h : token d s = some (t, r)) : NulFree t ∧ NulFree r := by
  have hs' := hs.sublist (List.dropWhile_sublist (p := d) (l := s))
  rcases token_cases d s with ⟨-, ht⟩ | ⟨t', -, -, ⟨hr, ht⟩ | ⟨c, r', -, hr, ht⟩⟩ <;> rw [ht] at h
  · cases h
  · cases h
    rw [hr] at hs'
    exact ⟨hs', nulFree_nil⟩
  · cases h
    rw [hr, nulFree_append, nulFree_cons] at hs'
    exact ⟨hs'.1, hs'.2.2⟩

theorem tokens_dropWhile (d : UInt8 → Bool) (s : Bytes) : tokens d (s.dropWhile d) = tokens d s := by
  induction s with
  | nil => rfl
  | cons c s ih =>
    by_cases hc : d c = true
    · have hnil : ∀ x ∈ ([] : Bytes), d x = false := by simp
      have hfirst := List.splitOnP_append_cons_of_forall_mem hnil c hc s
      rw [List.nil_append] at hfirst
      rw [List.dropWhile_cons_of_pos hc, ih, tokens, tokens, hfirst]
      rfl
    · rw [List.dropWhile_cons_of_neg hc]

theorem tokens_eq (d : UInt8 → Bool) (s : Bytes) :
    tokens d s = match token d s with
      | none => []
      | some (t, r) => t :: tokens d r := by
  rw [← tokens_dropWhile]
  rcases token_cases d s with ⟨hr, ht⟩ | ⟨t, hne, htd, ⟨hr, ht⟩ | ⟨c, r, hc, hr, ht⟩⟩ <;>
    rw [hr, ht]
  · rfl
  · simp [tokens, List.splitOnP_eq_singleton htd, hne]
  · simp [tokens, List.splitOnP_append_cons_of_forall_mem htd c hc r, hne]

theorem token_length_lt {d : UInt8 → Bool} {s t r : Bytes} (h : token d s = some (t, r)) :
    r.length < s.length := by
  have hdrop := (List.dropWhile_sublist (p := d) (l := s)).length_le
  rcases token_cases d s with ⟨-, ht⟩ | ⟨t', hne, -, ⟨hr, ht⟩ | ⟨c, r', -, hr, ht⟩⟩ <;> rw [ht] at h
  · cases h
  · cases h
    have := List.length_pos_of_ne_nil hne
    rw [hr] at hdrop
    simp only [List.length_nil]
    omega
  · cases h
    rw [hr] at hdrop
    simp only [List.length_append, List.length_cons] at hdrop
    omega

theorem token_append {d : UInt8 → Bool} {t : Bytes} {c : UInt8} (r : Bytes) (ht : t ≠ [])
    (htd : ∀ x ∈ t, d x = false) (hc : d c = true) : token d (t ++ c :: r) = some (t, r) := by
  obtain ⟨x, t', rfl⟩ := List.exists_cons_of_ne_nil ht
  have hx : d x = false := htd x (by simp)
  have hdrop : (x :: t' ++ c :: r).dropWhile d = x :: t' ++ c :: r := by simp [hx]
  have hall : ∀ y ∈ x :: t', (fun c => !d c) y = true := fun y hy => by simp [htd y hy]
  unfold token
  rw [hdrop, List.takeWhile_append_of_pos hall, List.dropWhile_append_of_pos hall]
  simp [hc]

theorem token_eq_none_iff {d : UInt8 → Bool} {s : Bytes} :
    token d s = none ↔ ∀ c ∈ s, d c = true := by
  unfold token
  split
  · rename_i h
    exact ⟨fun _ => List.dropWhile_eq_nil_iff.1 h, fun _ => rfl⟩
  · rename_i h
    exact ⟨fun hnone => (by cases hnone), fun hall => absurd (List.dropWhile_eq_nil_iff.2 hall) h⟩

theorem token_eq_some_iff {d : UInt8 → Bool} {s t r : Bytes} (hr : r ≠ []) :
    token d s = some (t, r) ↔ ∃ a c, s = a ++ t ++ c :: r ∧ (∀ x ∈ a, d x = true) ∧ t ≠ [] ∧
      (∀ x ∈ t, d x = false) ∧ d c = true := by
  constructor
  · intro h
    have hsplit := List.takeWhile_append_dropWhile (p := d) (l := s)
    have hlead : ∀ x ∈ s.takeWhile d, d x = true := fun x hx => List.mem_takeWhile_imp hx
    rcases token_cases d s with ⟨-, ht⟩ | ⟨t', hne, htd, ⟨-, ht⟩ | ⟨c, r', hc, hdrop, ht⟩⟩ <;>
      rw [ht] at h
    · cases h
    · cases h
      exact absurd rfl hr
    · cases h
      rw [hdrop, ← List.append_assoc] at hsplit
      exact ⟨s.takeWhile d, c, hsplit.symm, hlead, hne, htd, hc⟩
  · rintro ⟨a, c, rfl, ha, hne, htd, hc⟩
    have h := token_append r hne htd hc
    have hskip : (a ++ t ++ c :: r).dropWhile d = (t ++ c :: r).dropWhile d := by
      rw [List.append_assoc, List.dropWhile_append_of_pos ha]
    unfold token at h ⊢
    rwa [hskip]

end HttpServer.Lib

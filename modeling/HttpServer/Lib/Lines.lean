import HttpServer.Lib.Bytes

/-!
# Lines without a line end in them

A CR or a LF of its own does not end a line.  Lines that hold no CR LF are cut where they were put
together, also when they hold one of the two bytes (`splitHead_lines`).
-/

namespace HttpServer.Lib

section Lines

variable {l a b rest : Bytes}

theorem cutLine_of_not_infix (h : ¬ CRLF <:+: l) (rest : Bytes) :
    cutLine (l ++ CR :: LF :: rest) = some (l, rest) := by
  induction l with
  | nil => simp [cutLine]
  | cons c l ih =>
    rw [List.infix_cons_iff, not_or] at h
    obtain ⟨d, s, hs⟩ : ∃ d s, l ++ CR :: LF :: rest = d :: s :=
      List.exists_cons_of_ne_nil (by simp)
    have hcd : ¬ (c = CR ∧ d = LF) := by
      rintro ⟨rfl, rfl⟩
      cases l with
      | nil => exact absurd (List.cons.inj hs).1 (by decide)
      | cons x l =>
        obtain rfl : x = LF := (List.cons.inj hs).1
        exact h.1 ⟨l, rfl⟩
    have hnext := ih h.2
    rw [hs] at hnext
    rw [List.cons_append, hs, cutLine, if_neg hcd, hnext]
    rfl

/-- **Lines are cut where they were put together**, up to the empty line. -/
theorem splitHead_lines (ls : List Bytes) (rest : Bytes)
    (h : ∀ l ∈ ls, l ≠ [] ∧ ¬ CRLF <:+: l) :
    splitHead (ls.flatMap (· ++ CRLF) ++ CRLF ++ rest) = (ls, CRLF ++ rest) := by
  induction ls with
  | nil => exact splitHead_of_empty (r := rest) (by simp [cutLine])
  | cons l ls ih =>
    obtain ⟨hne, hl⟩ := h l List.mem_cons_self
    have hrest := ih fun l hl => h l (List.mem_cons_of_mem _ hl)
    have hcut := cutLine_of_not_infix hl (ls.flatMap (· ++ CRLF) ++ CRLF ++ rest)
    have hsplit := splitHead_of_line hcut hne
    rw [hrest] at hsplit
    simpa using hsplit

theorem not_infix_append_cons {c : UInt8} (hc : c ∉ CRLF) (ha : ¬ CRLF <:+: a) (hb : ¬ CRLF <:+: b) :
    ¬ CRLF <:+: a ++ c :: b := by
  induction a with
  | nil =>
    rw [List.nil_append, List.infix_cons_iff, not_or]
    refine ⟨fun h => ?_, hb⟩
    have hcr : CR = c := (List.cons_prefix_cons.1 h).1
    exact hc (hcr ▸ by simp)
  | cons x a ih =>
    rw [List.infix_cons_iff, not_or] at ha
    rw [List.cons_append, List.infix_cons_iff, not_or]
    refine ⟨fun h => ?_, ih ha.2⟩
    obtain ⟨hx, h⟩ := List.cons_prefix_cons.1 h
    cases a with
    | nil =>
      have hlf : LF = c := (List.cons_prefix_cons.1 h).1
      exact hc (hlf ▸ by simp)
    | cons y a =>
      have hy : LF = y := (List.cons_prefix_cons.1 h).1
      exact ha.1 ⟨a, by rw [← hx, ← hy]; rfl⟩

end Lines

end HttpServer.Lib

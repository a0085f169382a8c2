import Mathlib

/-!
# Bags of pairs

What a collection of key-value pairs is for when a key can be stored more than once: a bag, to which
a set adds one pair and from which a delete takes one pair of its key, whichever.  A run of calls on
a bag accounts for every pair (`BagRun.conserved`).
-/

namespace HttpServer.Lib

variable {K V : Type*}

inductive BagCall (K V : Type*) where
  | set (k : K) (v : V)
  | get (k : K)
  | delete (k : K)

def Absent (k : K) (b : Multiset (K × V)) : Prop := ∀ v, (k, v) ∉ b

/-- What a call does to a bag, and what it returns. -/
inductive BagStep : Multiset (K × V) → BagCall K V → Option V → Multiset (K × V) → Prop
  | set (b : Multiset (K × V)) (k : K) (v : V) : BagStep b (.set k v) none ((k, v) ::ₘ b)
  | found {b : Multiset (K × V)} {k : K} {v : V} (h : (k, v) ∈ b) : BagStep b (.get k) (some v) b
  | missing {b : Multiset (K × V)} {k : K} (h : Absent k b) : BagStep b (.get k) none b
  | deleted (b : Multiset (K × V)) (k : K) (v : V) : BagStep ((k, v) ::ₘ b) (.delete k) (some v) b
  | kept {b : Multiset (K × V)} {k : K} (h : Absent k b) : BagStep b (.delete k) none b

/-- Calls one after the other, with what each returned. -/
inductive BagRun : Multiset (K × V) → List (BagCall K V × Option V) → Multiset (K × V) → Prop
  | nil (b : Multiset (K × V)) : BagRun b [] b
  | cons {b b₁ b' : Multiset (K × V)} {c : BagCall K V} {o : Option V}
      {cs : List (BagCall K V × Option V)} (step : BagStep b c o b₁) (rest : BagRun b₁ cs b') :
      BagRun b ((c, o) :: cs) b'

def added : List (BagCall K V × Option V) → Multiset (K × V)
  | [] => 0
  | (.set k v, _) :: cs => (k, v) ::ₘ added cs
  | _ :: cs => added cs

/-- The pairs that deletes returned. -/
def removed : List (BagCall K V × Option V) → Multiset (K × V)
  | [] => 0
  | (.delete k, some v) :: cs => (k, v) ::ₘ removed cs
  | _ :: cs => removed cs

section Conserved

variable {b b' : Multiset (K × V)} {c : BagCall K V} {o : Option V}
  {cs : List (BagCall K V × Option V)}

/-- One call accounts for the pairs before and after it. -/
theorem BagStep.conserved (h : BagStep b c o b') :
    b' + removed [(c, o)] = b + added [(c, o)] := by
  cases h with
  | set k v => simp [added, removed, add_comm b, Multiset.singleton_add]
  | deleted b k v => simp [added, removed, add_comm b', Multiset.singleton_add]
  | found | missing | kept => simp [added, removed]

theorem added_cons (p : BagCall K V × Option V) (cs : List (BagCall K V × Option V)) :
    added (p :: cs) = added [p] + added cs := by
  obtain ⟨c, o⟩ := p
  cases c <;> simp [added]

theorem removed_cons (p : BagCall K V × Option V) (cs : List (BagCall K V × Option V)) :
    removed (p :: cs) = removed [p] + removed cs := by
  obtain ⟨c, o⟩ := p
  cases c <;> cases o <;> simp [removed]

/-- **Every pair is accounted for**: what is in the bag after a run and what was removed in it is what
was in the bag before and what was added. -/
theorem BagRun.conserved (h : BagRun b cs b') :
    b' + removed cs = b + added cs := by
  induction h with
  | nil b => rfl
  | @cons b b₁ b₂ c o cs step rest ih =>
    rw [removed_cons, added_cons]
    calc b₂ + (removed [(c, o)] + removed cs) = b₂ + removed cs + removed [(c, o)] := by
          rw [add_comm (removed [(c, o)]), add_assoc]
      _ = b₁ + added cs + removed [(c, o)] := by rw [ih]
      _ = b₁ + removed [(c, o)] + added cs := by rw [add_right_comm]
      _ = b + added [(c, o)] + added cs := by rw [step.conserved]
      _ = b + (added [(c, o)] + added cs) := by rw [add_assoc]

end Conserved

/-! ### Counting the pairs of a key -/

section Copies

variable [DecidableEq K] {b : Multiset (K × V)} {k k' : K} {v v' : V}

def copies (k : K) (b : Multiset (K × V)) : ℕ := (b.filter fun p => p.1 = k).card

theorem copies_eq_zero_iff : copies k b = 0 ↔ Absent k b := by
  rw [copies, Multiset.card_eq_zero, Multiset.filter_eq_nil]
  constructor
  · intro h v hv
    exact h (k, v) hv rfl
  · rintro h ⟨k', v⟩ hv rfl
    exact h v hv

theorem copies_cons_self (k : K) (v : V) (b : Multiset (K × V)) :
    copies k ((k, v) ::ₘ b) = copies k b + 1 := by
  simp [copies]

theorem eq_of_copies_le_one (h : copies k b ≤ 1) (hv : (k, v) ∈ b) (hv' : (k, v') ∈ b) : v = v' := by
  obtain ⟨b', rfl⟩ := Multiset.exists_cons_of_mem hv
  rw [copies_cons_self] at h
  have habsent := copies_eq_zero_iff.1 (show copies k b' = 0 by omega)
  rcases Multiset.mem_cons.1 hv' with heq | hmem
  · exact (Prod.mk.inj heq).2.symm
  · exact absurd hmem (habsent v')

omit [DecidableEq K] in
theorem mem_cons_of_ne (hne : k' ≠ k) : (k', v') ∈ (k, v) ::ₘ b ↔ (k', v') ∈ b := by
  simp [hne]

end Copies

end HttpServer.Lib

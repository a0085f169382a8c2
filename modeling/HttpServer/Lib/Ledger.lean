import Mathlib

/-!
# Programs that allocate and free blocks

A `BlockM` is a program over a ledger of the blocks that are allocated.  It stops at a `free` of a
block that is not there and at an access to one; it may also fail in ways of its own.

`Exchanges pre prog Q own n` is a triple on blocks: whatever else is allocated, a run of `prog` that is
given the blocks `pre` ends, hands back those of `own`, and loses exactly `n`.  Its rules follow the
steps of a program (`step`), keep what the step does not work on (the frame of a step), and say which
blocks nobody names any more (`forget`).
-/

namespace HttpServer.Lib

/-- The blocks that are allocated.  Those from `next` on never were. -/
structure Ledger where
  next : ℕ
  live : Multiset ℕ
  nodup : live.Nodup
  below : ∀ b ∈ live, b < next

def Ledger.empty : Ledger := ⟨0, 0, Multiset.nodup_zero, by simp⟩

def Ledger.add (L : Ledger) : Ledger where
  next := L.next + 1
  live := L.next ::ₘ L.live
  nodup := Multiset.nodup_cons.2 ⟨fun h => (L.below _ h).false, L.nodup⟩
  below := by
    intro b hb
    rcases Multiset.mem_cons.1 hb with rfl | hb
    · exact Nat.lt_succ_self _
    · exact Nat.lt_succ_of_lt (L.below b hb)

def Ledger.remove (L : Ledger) (b : ℕ) : Ledger where
  next := L.next
  live := L.live.erase b
  nodup := L.nodup.erase b
  below := fun c hc => L.below c (Multiset.mem_of_mem_erase hc)

@[simp] theorem Ledger.live_add (L : Ledger) : L.add.live = L.next ::ₘ L.live := rfl

@[simp] theorem Ledger.live_remove (L : Ledger) (b : ℕ) : (L.remove b).live = L.live.erase b := rfl

/-- What a program does to a block that is not allocated. -/
inductive Misuse where
  | freed (block : ℕ)
  | used (blocks : Multiset ℕ)

/-- A program on blocks, with failures of its own in `ε`. -/
abbrev BlockM (ε α : Type) : Type := StateT Ledger (Except (Misuse ⊕ ε)) α

section Programs

variable {ε α β : Type}

/-- `malloc` and the like, which are granted. -/
def alloc : BlockM ε ℕ := fun L => .ok (L.next, L.add)

def free (b : ℕ) : BlockM ε Unit := fun L =>
  if b ∈ L.live then .ok ((), L.remove b) else .error (.inl (.freed b))

/-- Accesses to blocks. -/
def touch (blocks : Multiset ℕ) : BlockM ε Unit := fun L =>
  if ∀ b ∈ blocks, b ∈ L.live then .ok ((), L) else .error (.inl (.used blocks))

/-- `realloc` that moves the block. -/
def realloc (b : ℕ) : BlockM ε ℕ := do
  let moved ← alloc
  free b
  pure moved

/-- A computation that works on no block. -/
def raise (r : Except ε α) : BlockM ε α := fun L =>
  match r with
  | .ok a => .ok (a, L)
  | .error e => .error (.inr e)

/-- Given the blocks `pre`, the program ends with a result as in `Q`, hands back the blocks `own` of
the result, and loses `n`.  All other blocks stay as they are. -/
def Exchanges (pre : Multiset ℕ) (prog : BlockM ε α) (Q : α → Prop) (own : α → Multiset ℕ)
    (n : ℕ) : Prop :=
  ∀ (L : Ledger) (others : Multiset ℕ), L.live = pre + others → ∃ a L' lost,
    prog L = .ok (a, L') ∧ Q a ∧ lost.card = n ∧ L'.live = own a + lost + others

end Programs

/-! ### Rules -/

section Rules

variable {ε α β : Type} {pre pre' : Multiset ℕ} {prog : BlockM ε α} {f : α → BlockM ε β}
  {Q Q' : α → Prop} {R : β → Prop} {mid own own' : α → Multiset ℕ} {out : β → Multiset ℕ} {a : α}
  {n m k : ℕ}

theorem Exchanges.ret (hQ : Q a) (hpre : pre = own a) :
    Exchanges pre (pure a : BlockM ε α) Q own 0 := by
  intro L others hL
  refine ⟨a, L, 0, rfl, hQ, rfl, ?_⟩
  rw [hL, hpre, add_zero]

theorem Exchanges.bind (hprog : Exchanges pre prog Q mid n)
    (hf : ∀ a, Q a → Exchanges (mid a) (f a) R out m) :
    Exchanges pre (prog >>= f) R out (n + m) := by
  intro L others hL
  obtain ⟨a, L₁, lost₁, hrun₁, hQ, hcard₁, hlive₁⟩ := hprog L others hL
  obtain ⟨b, L₂, lost₂, hrun₂, hR, hcard₂, hlive₂⟩ :=
    hf a hQ L₁ (lost₁ + others) (by rw [hlive₁, add_assoc])
  refine ⟨b, L₂, lost₁ + lost₂, ?_, hR, by rw [Multiset.card_add, hcard₁, hcard₂], ?_⟩
  · show (prog L >>= fun p => f p.1 p.2) = _
    rw [hrun₁]
    exact hrun₂
  · rw [hlive₂]
    abel

theorem Exchanges.frame (rest : Multiset ℕ) (h : Exchanges pre prog Q own n) :
    Exchanges (pre + rest) prog Q (fun a => own a + rest) n := by
  intro L others hL
  obtain ⟨a, L', lost, hrun, hQ, hcard, hlive⟩ := h L (rest + others) (by rw [hL, add_assoc])
  refine ⟨a, L', lost, hrun, hQ, hcard, ?_⟩
  show L'.live = own a + rest + lost + others
  rw [hlive]
  abel

theorem Exchanges.imp (h : Exchanges pre prog Q own n) (hQ : ∀ a, Q a → Q' a)
    (hown : ∀ a, Q a → own a = own' a) (hpre : pre' = pre) : Exchanges pre' prog Q' own' n := by
  intro L others hL
  obtain ⟨a, L', lost, hrun, ha, hcard, hlive⟩ := h L others (by rw [hL, hpre])
  exact ⟨a, L', lost, hrun, hQ a ha, hcard, by rw [hlive, hown a ha]⟩

theorem Exchanges.loses (h : Exchanges pre prog Q own n) (hn : n = k) : Exchanges pre prog Q own k :=
  hn ▸ h

theorem Exchanges.step (hprog : Exchanges pre prog Q mid 0) (rest : Multiset ℕ)
    (hpre : pre' = pre + rest) (hf : ∀ a, Q a → Exchanges (mid a + rest) (f a) R out n) :
    Exchanges pre' (prog >>= f) R out n := by
  have h := (hprog.frame rest).bind hf
  rw [zero_add] at h
  rwa [hpre]

theorem Exchanges.stepLosing (hprog : Exchanges pre prog Q mid n) (rest : Multiset ℕ)
    (hpre : pre' = pre + rest) (hk : k = n + m)
    (hf : ∀ a, Q a → Exchanges (mid a + rest) (f a) R out m) :
    Exchanges pre' (prog >>= f) R out k := by
  rw [hpre, hk]
  exact (hprog.frame rest).bind hf

/-- The blocks `gone` are named by nobody any more. -/
theorem Exchanges.forget (gone : Multiset ℕ) (hpre : pre' = pre + gone) (hk : k = gone.card + n)
    (h : Exchanges pre prog Q own n) : Exchanges pre' prog Q own k := by
  intro L others hL
  obtain ⟨a, L', lost, hrun, hQ, hcard, hlive⟩ := h L (gone + others) (by rw [hL, hpre, add_assoc])
  refine ⟨a, L', gone + lost, hrun, hQ, by rw [Multiset.card_add, hcard, hk], ?_⟩
  rw [hlive]
  abel

theorem exchanges_alloc : Exchanges 0 (alloc : BlockM ε ℕ) (fun _ => True) (fun b => {b}) 0 := by
  intro L others hL
  refine ⟨L.next, L.add, 0, rfl, trivial, rfl, ?_⟩
  rw [zero_add] at hL
  rw [Ledger.live_add, hL, add_zero, Multiset.singleton_add]

theorem exchanges_free (b : ℕ) :
    Exchanges {b} (free b : BlockM ε Unit) (fun _ => True) (fun _ => 0) 0 := by
  intro L others hL
  rw [Multiset.singleton_add] at hL
  have hb : b ∈ L.live := by
    rw [hL]
    exact Multiset.mem_cons_self b others
  refine ⟨(), L.remove b, 0, if_pos hb, trivial, rfl, ?_⟩
  rw [Ledger.live_remove, hL, Multiset.erase_cons_head, add_zero, zero_add]

theorem exchanges_touch {blocks : Multiset ℕ} (h : ∀ b ∈ blocks, b ∈ pre) :
    Exchanges pre (touch blocks : BlockM ε Unit) (fun _ => True) (fun _ => pre) 0 := by
  intro L others hL
  have hblocks : ∀ b ∈ blocks, b ∈ L.live := fun b hb => by
    rw [hL]
    exact Multiset.mem_add.2 (Or.inl (h b hb))
  refine ⟨(), L, 0, if_pos hblocks, trivial, rfl, ?_⟩
  rw [hL, add_zero]

theorem exchanges_touch_all (blocks : Multiset ℕ) :
    Exchanges blocks (touch blocks : BlockM ε Unit) (fun _ => True) (fun _ => blocks) 0 :=
  exchanges_touch fun _ => id

theorem exchanges_realloc (b : ℕ) :
    Exchanges {b} (realloc b : BlockM ε ℕ) (fun _ => True) (fun moved => {moved}) 0 := by
  refine exchanges_alloc.step {b} (zero_add _).symm fun moved _ => ?_
  refine (exchanges_free b).step {moved} (add_comm _ _) fun _ _ => ?_
  exact .ret trivial (zero_add _)

theorem exchanges_raise_bind {γ δ : Type} {x : Except ε γ} {g : γ → Except ε δ} {r : δ}
    {f : γ → BlockM ε β} (h : (x >>= g) = .ok r)
    (hf : ∀ c, x = .ok c → g c = .ok r → Exchanges pre (f c) R out n) :
    Exchanges pre (raise x >>= f) R out n := by
  cases x with
  | error e => cases h
  | ok c =>
    have hrun : (raise (.ok c) : BlockM ε γ) >>= f = f c := rfl
    rw [hrun]
    exact hf c rfl h

end Rules

end HttpServer.Lib

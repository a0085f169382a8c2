import HttpServer.Lib.CInt
import HttpServer.Response

/-!
# The compression of `compression.c`

`gzip_compress` calls zlib's `deflate` until the stream is finished, and doubles its output buffer
each time the buffer is full.  zlib is an argument, `Zlib`, with the `int`s and `unsigned`s of its
interface; what the loop relies on is `EmitsStream`.  The loop lists the windows that it hands to
`deflate`.
-/

namespace HttpServer

open Lib

abbrev Z_OK : ℤ := 0
abbrev Z_STREAM_END : ℤ := 1

/-- What a call of `deflate` does: its result, the bytes it writes to the window, and the number of
input bytes it takes. -/
structure DeflateResult (σ : Type) where
  ret : ℤ
  output : Bytes
  consumed : ℕ
  state : σ

structure Zlib where
  /-- `zs.state`. -/
  State : Type
  /-- `deflateInit2`, with the arguments that `gzip_compress` gives it; `none` is a failure. -/
  deflateInit2 : Option State
  /-- `deflate` with `Z_FINISH`, given the input that is left and `avail_out`. -/
  deflate : State → Bytes → ℕ → DeflateResult State

/-- `z_stream`: `nextIn` is the input that is left, `nextOut` an offset into the output. -/
structure ZStream (σ : Type) where
  nextIn : Bytes
  nextOut : ℕ
  availOut : ℕ
  totalOut : ℕ
  state : σ

/-- The window that a call of `deflate` may write to, the size of the block it is in, and the number
of bytes produced before the call. -/
structure Window where
  first : ℕ
  bytes : ℕ
  block : ℕ
  produced : ℕ

/-- The window is not empty, lies in its block, and starts after the bytes produced. -/
structure Window.Fits (w : Window) : Prop where
  nonempty : 0 < w.bytes
  inside : w.first + w.bytes ≤ w.block
  next : w.first = w.produced

namespace Zlib

variable (z : Zlib)

def call (zs : ZStream z.State) (output : Bytes) : ℤ × ZStream z.State × Bytes :=
  let result := z.deflate zs.state zs.nextIn zs.availOut
  (result.ret,
    { nextIn := zs.nextIn.drop result.consumed
      nextOut := zs.nextOut + result.output.length
      availOut := zs.availOut - result.output.length
      totalOut := zs.totalOut + result.output.length
      state := result.state },
    storeAt output zs.nextOut result.output)

structure Compressed where
  ret : ℤ
  output : Bytes
  outputLen : ℕ
  windows : List Window

/-- The loop of `gzip_compress` and what follows it; `none` if it needs more than `fuel` turns. -/
def compressLoop (junk : ℕ → UInt8) :
    ℕ → ZStream z.State → (capacity : ℕ) → (output : Bytes) → Option Compressed
  | 0, _, _, _ => none
  | fuel + 1, zs, capacity, output =>
    let window : Window := ⟨zs.nextOut, zs.availOut, output.length, zs.totalOut⟩
    let (ret, zs, output) := z.call zs output
    if ret = Z_OK then
      let used := zs.totalOut
      let capacity := toSize (capacity * 2)
      let output := reallocBytes junk output capacity
      -- `avail_out` is an `unsigned`
      let zs := { zs with nextOut := used, availOut := toSize (capacity - used) % 2 ^ 32 }
      (compressLoop junk fuel zs capacity output).map fun c =>
        { c with windows := window :: c.windows }
    else if ret ≠ Z_STREAM_END then some ⟨-1, [], 0, [window]⟩
    else some ⟨0, output, zs.totalOut, [window]⟩

/-- `gzip_compress`: `avail_in` is an `unsigned`. -/
def gzipCompress (junk : ℕ → UInt8) (fuel : ℕ) (input : Bytes) : Option Compressed :=
  match z.deflateInit2 with
  | none => some ⟨-1, [], 0, []⟩
  | some state =>
    let capacity := 1024
    let output := (List.range capacity).map junk
    let zs : ZStream z.State :=
      { nextIn := input.take (input.length % 2 ^ 32)
        nextOut := 0
        availOut := capacity % 2 ^ 32
        totalOut := 0
        state := state }
    z.compressLoop junk fuel zs capacity output

/-- The output of `gzip_compress`, as the builder takes it. -/
def gzipOutput (z : Zlib) (junk : ℕ → UInt8) (fuel : ℕ) (input : Bytes) : Option Bytes :=
  match z.gzipCompress junk fuel input with
  | some ⟨0, output, outputLen, _⟩ => some (output.take outputLen)
  | _ => none

end Zlib

/-- An environment whose compression is `gzip_compress` over `z`. -/
def Env.withZlib (env : Env) (z : Zlib) (junk : ℕ → UInt8) (fuel : ℕ) : Env :=
  { env with gzipCompress := z.gzipOutput junk fuel }

namespace Zlib

variable (z : Zlib)

/-- What the loop relies on: each call of `deflate` emits the next bytes of the stream of the input,
as many as there is room for, and says whether the stream has ended.  `At input k state rest` is the
state after `k` bytes of output, with `rest` of the input left. -/
def EmitsStream (stream : Bytes → Bytes) : Prop :=
  ∃ At : Bytes → ℕ → z.State → Bytes → Prop,
    (∃ state, z.deflateInit2 = some state ∧ ∀ input, At input 0 state input) ∧
    ∀ input k state rest availOut, At input k state rest → k ≤ (stream input).length →
      ∃ consumed state', At input (k + min availOut ((stream input).length - k)) state'
          (rest.drop consumed) ∧
        z.deflate state rest availOut =
          ⟨if (stream input).length ≤ k + availOut then Z_STREAM_END else Z_OK,
            ((stream input).drop k).take availOut, consumed, state'⟩

/-! ### The loop -/

section Loop

variable {z} {stream : Bytes → Bytes} {junk : ℕ → UInt8} {input output : Bytes}
  {zs : ZStream z.State} {capacity k : ℕ}

/-- The loop before a call of `deflate`: the first `k` bytes of the stream are at the start of the
block, and the rest of the block is the window. -/
structure Producing (stream : Bytes) (k : ℕ) (zs : ZStream z.State) (capacity : ℕ)
    (output : Bytes) : Prop where
  total : zs.totalOut = k
  next : zs.nextOut = k
  avail : zs.availOut = capacity - k
  room : k < capacity
  allocated : output.length = capacity
  produced : output.take k = stream.take k
  le : k ≤ stream.length

theorem Producing.window {s : Bytes} (h : Producing s k zs capacity output) :
    Window.Fits ⟨zs.nextOut, zs.availOut, output.length, zs.totalOut⟩ := by
  have hroom := h.room
  refine ⟨?_, ?_, ?_⟩
  · show 0 < zs.availOut
    rw [h.avail]
    omega
  · show zs.nextOut + zs.availOut ≤ output.length
    rw [h.next, h.avail, h.allocated]
    omega
  · show zs.nextOut = zs.totalOut
    rw [h.next, h.total]

/-- A call of `deflate` stores the next bytes of the stream behind those produced. -/
theorem Producing.store {s : Bytes} (h : Producing s k zs capacity output) :
    let bs := (s.drop k).take zs.availOut
    (storeAt output zs.nextOut bs).length = capacity ∧
      (storeAt output zs.nextOut bs).take (min capacity s.length) =
        s.take (min capacity s.length) := by
  intro bs
  have hroom := h.room
  have hle := h.le
  have hlen : bs.length = min (capacity - k) (s.length - k) := by
    simp only [bs, List.length_take, List.length_drop, h.avail]
  have hend : k + bs.length = min capacity s.length := by omega
  have hfits : zs.nextOut + bs.length ≤ output.length := by
    rw [h.next, h.allocated]
    omega
  refine ⟨by rw [storeAt_length hfits, h.allocated], ?_⟩
  rw [← hend]
  have htake := storeAt_take hfits
  rw [h.next] at htake ⊢
  rw [htake, h.produced, List.take_add]
  congr 1
  rw [hlen, ← h.avail]
  simp only [bs]
  rw [← List.length_drop, List.take_eq_take_min]

/-- A window that has room for the rest leaves the whole stream in the block. -/
theorem Producing.last {s : Bytes} (h : Producing s k zs capacity output)
    (hend : s.length ≤ capacity) :
    let block := storeAt output zs.nextOut ((s.drop k).take zs.availOut)
    block.length = capacity ∧ block.take s.length = s := by
  intro block
  obtain ⟨hlen, htake⟩ := h.store
  rw [Nat.min_eq_right hend, List.take_length] at htake
  exact ⟨hlen, htake⟩

theorem Producing.grow {s : Bytes} (h : Producing s k zs capacity output)
    (hend : capacity < s.length) (nextIn : Bytes) (state : z.State) :
    Producing s capacity ⟨nextIn, capacity, capacity, capacity, state⟩ (capacity * 2)
      (reallocBytes junk (storeAt output zs.nextOut ((s.drop k).take zs.availOut))
        (capacity * 2)) := by
  obtain ⟨hlen, htake⟩ := h.store
  have hroom := h.room
  rw [Nat.min_eq_left hend.le] at htake
  refine ⟨rfl, rfl, ?_, by omega, reallocBytes_length, ?_, hend.le⟩
  · show capacity = capacity * 2 - capacity
    omega
  · rw [reallocBytes_take (by omega) (by omega), htake]

/-- The block doubles, and the new half is a window of 32 bits. -/
theorem doubled_size (h : capacity < 2 ^ 32) : toSize (capacity * 2) = capacity * 2 :=
  mod_cast toSize_of_fits (n := capacity * 2) (by omega)

theorem doubled_window (h : capacity < 2 ^ 32) :
    toSize ((capacity * 2 : ℕ) - capacity) % 2 ^ 32 = capacity := by
  rw [show ((capacity * 2 : ℕ) : ℤ) - capacity = (capacity : ℕ) by push_cast; ring,
    toSize_of_fits (by omega), Nat.mod_eq_of_lt h]

/-- The loop ends: it returns the stream, and every window that it hands out fits. -/
theorem compressLoop_produces {At : Bytes → ℕ → z.State → Bytes → Prop}
    (hAt : ∀ input k state rest availOut, At input k state rest → k ≤ (stream input).length →
      ∃ consumed state', At input (k + min availOut ((stream input).length - k)) state'
          (rest.drop consumed) ∧
        z.deflate state rest availOut =
          ⟨if (stream input).length ≤ k + availOut then Z_STREAM_END else Z_OK,
            ((stream input).drop k).take availOut, consumed, state'⟩)
    (hstream : (stream input).length ≤ 2 ^ 32) :
    ∀ (fuel k : ℕ) (zs : ZStream z.State) (capacity : ℕ) (output : Bytes),
      Producing (stream input) k zs capacity output → At input k zs.state zs.nextIn →
      (stream input).length - k < fuel → ∃ block windows,
        z.compressLoop junk fuel zs capacity output =
          some ⟨0, block, (stream input).length, windows⟩ ∧
        (stream input).length ≤ block.length ∧
        block.take (stream input).length = stream input ∧ ∀ w ∈ windows, w.Fits := by
  intro fuel
  induction fuel with
  | zero =>
    intro k zs capacity output _ _ hfuel
    omega
  | succ fuel ih =>
    intro k zs capacity output h hstate hfuel
    obtain ⟨consumed, state', hstate', hdeflate⟩ :=
      hAt input k zs.state zs.nextIn zs.availOut hstate h.le
    have hroom := h.room
    have hle := h.le
    have hout : (((stream input).drop k).take zs.availOut).length =
        min (capacity - k) ((stream input).length - k) := by
      simp only [List.length_take, List.length_drop, h.avail]
    simp only [compressLoop, call, hdeflate]
    by_cases hend : (stream input).length ≤ k + zs.availOut
    · -- the rest of the stream fits in the window
      have hend' : (stream input).length ≤ capacity := by
        rw [h.avail] at hend
        omega
      obtain ⟨hlen, htake⟩ := h.last hend'
      simp only [hend, if_true, hout, h.total, show ¬ Z_STREAM_END = Z_OK by decide, if_false,
        ne_eq, not_true_eq_false, show k + min (capacity - k) ((stream input).length - k) =
          (stream input).length by omega]
      refine ⟨_, _, rfl, by omega, htake, ?_⟩
      intro w hw
      rw [List.mem_singleton.1 hw, ← h.total]
      exact h.window
    · -- the window is full: the block is doubled, and the new half is the next window
      have hend' : capacity < (stream input).length := by
        rw [h.avail] at hend
        omega
      simp only [hend, if_false, if_true, hout, h.total,
        show k + min (capacity - k) ((stream input).length - k) = capacity by omega]
      rw [doubled_size (by omega), doubled_window (by omega)]
      have hmin : k + min zs.availOut ((stream input).length - k) = capacity := by
        rw [h.avail]
        omega
      rw [hmin] at hstate'
      obtain ⟨block', windows, hloop, hfits, hblock, hwindows⟩ :=
        ih capacity _ _ _ (h.grow hend' (zs.nextIn.drop consumed) state') hstate' (by omega)
      refine ⟨block', ⟨zs.nextOut, zs.availOut, output.length, k⟩ :: windows, ?_, hfits, hblock, ?_⟩
      · rw [hloop]
        rfl
      · intro w hw
        rcases List.mem_cons.1 hw with rfl | hw
        · rw [← h.total]
          exact h.window
        · exact hwindows w hw

/-- On every input whose length and whose stream fit zlib's counters `gzip_compress` ends and
returns the stream; every call of `deflate` gets a window that is not empty, lies in the block and
starts after the bytes produced so far. -/
theorem gzipCompress_stream (hz : z.EmitsStream stream) (junk : ℕ → UInt8)
    (hinput : input.length < 2 ^ 32) (hstream : (stream input).length ≤ 2 ^ 32) :
    ∀ fuel > (stream input).length, ∃ block windows,
      z.gzipCompress junk fuel input = some ⟨0, block, (stream input).length, windows⟩ ∧
      (stream input).length ≤ block.length ∧
      block.take (stream input).length = stream input ∧ (∀ w ∈ windows, w.Fits) ∧
      ∀ env : Env, (env.withZlib z junk fuel).gzipCompress input = some (stream input) := by
  intro fuel hfuel
  obtain ⟨At, ⟨state, hinit, hstart⟩, hAt⟩ := hz
  have hstart' : At input 0 state (input.take (input.length % 2 ^ 32)) := by
    rw [Nat.mod_eq_of_lt hinput, List.take_length]
    exact hstart input
  have h0 : Producing (stream input) 0
      { nextIn := input.take (input.length % 2 ^ 32), nextOut := 0, availOut := 1024 % 2 ^ 32,
        totalOut := 0, state := state } 1024 ((List.range 1024).map junk) :=
    ⟨rfl, rfl, rfl, by omega, by rw [List.length_map, List.length_range], by simp, Nat.zero_le _⟩
  obtain ⟨block, windows, hloop, hlen, hblock, hwindows⟩ :=
    compressLoop_produces hAt hstream fuel 0 _ _ _ h0 hstart' (by omega)
  have hrun : z.gzipCompress junk fuel input = some ⟨0, block, (stream input).length, windows⟩ := by
    simp only [gzipCompress, hinit]
    exact hloop
  refine ⟨block, windows, hrun, hlen, hblock, hwindows, ?_⟩
  intro env
  simp only [Env.withZlib, gzipOutput, hrun, hblock]

end Loop

/-! ### A zlib -/

/-- The zlib that keeps the bytes of the stream that it has not emitted yet. -/
def pending (stream : Bytes → Bytes) : Zlib where
  State := Option Bytes
  deflateInit2 := some none
  deflate state rest availOut :=
    let left := state.getD (stream rest)
    ⟨if left.length ≤ availOut then Z_STREAM_END else Z_OK, left.take availOut, rest.length,
      some (left.drop availOut)⟩

theorem pending_emitsStream (stream : Bytes → Bytes) : (pending stream).EmitsStream stream := by
  refine ⟨fun input k (state : Option Bytes) rest => state.getD (stream rest) = (stream input).drop k,
    ⟨none, rfl, fun input => rfl⟩, ?_⟩
  intro input k state rest availOut hstate hk
  refine ⟨rest.length, some (((stream input).drop k).drop availOut), ?_, ?_⟩
  · simp only [Option.getD_some, List.drop_drop]
    rcases Nat.le_total availOut ((stream input).length - k) with h | h
    · rw [Nat.min_eq_left h]
    · rw [Nat.min_eq_right h, List.drop_eq_nil_of_le (by omega), List.drop_eq_nil_of_le (by omega)]
  · simp only [pending, hstate, List.length_drop]
    congr 2
    simp only [eq_iff_iff]
    omega

/-- 1500 bytes that deflate cannot shorten. -/
def noise : Bytes :=
  (List.iterate (fun x => (x * 1103515245 + 12345) % 2 ^ 31) 1 1500).map fun x =>
    UInt8.ofNat (x / 65536)

/-- The gzip file of `noise`: one stored block, longer than the block that is allocated first. -/
def gzipNoise : Bytes :=
  [31, 139, 8, 0, 0, 0, 0, 0, 0, 3, 1, 220, 5, 35, 250] ++ noise ++
    [53, 208, 96, 213, 220, 5, 0, 0]

theorem length_noise : noise.length = 1500 := by
  rw [noise, List.length_map, List.length_iterate]

theorem length_gzipNoise : gzipNoise.length = 1523 := by
  rw [gzipNoise, List.length_append, List.length_append, length_noise]
  rfl

theorem gzipCompress_stream_noise : ∃ block windows,
    (pending fun _ => gzipNoise).gzipCompress (fun _ => 0) 1524 noise =
        some ⟨0, block, gzipNoise.length, windows⟩ ∧
      gzipNoise.length ≤ block.length ∧ block.take gzipNoise.length = gzipNoise ∧
      (∀ w ∈ windows, w.Fits) ∧
      ∀ env : Env, (env.withZlib (pending fun _ => gzipNoise) (fun _ => 0) 1524).gzipCompress noise =
        some gzipNoise :=
  gzipCompress_stream (pending_emitsStream fun _ => gzipNoise) (fun _ => 0)
    (by rw [length_noise]; norm_num) (by rw [length_gzipNoise]; norm_num) 1524 (by rw [length_gzipNoise]; norm_num)

end Zlib

end HttpServer

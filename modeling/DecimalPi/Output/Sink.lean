/-!
# Lines and Sinks

A line ends at a line feed. A carriage return directly in front of it belongs to the line
end as well; any other is part of the line.

A sink accepts bytes until it is full. One write may be interrupted, and then has to be tried
again, or may accept only the first of the bytes offered, and then has to be continued with
the others. `writeAll` does both, so that it fails only when the sink is full, and then every
byte that the sink had room for has been accepted.

## Names in the program

* `firstLine`: the first of the `lines` of a message;
* `Sink.writeText`: `write_digits`; a fault is written by `write_fault` as the text of its first
  line.
-/

namespace DecimalPi

/-! ## Lines -/

/-- A line without the carriage return at its end, if there is one. -/
def withoutReturn (line : List Char) : List Char :=
  if line.getLast? = some '\r' then line.dropLast else line

/-- The first line of a text, all of it if no line ends in it. -/
def firstLine (text : List Char) : List Char :=
  match text.dropWhile (· ≠ '\n') with
  | [] => text
  | _ :: _ => withoutReturn (text.takeWhile (· ≠ '\n'))

/-! ## Sinks -/

/-- Why a sink does not take what it is given. -/
inductive SinkFailure where
  /-- The sink accepts nothing more. -/
  | exhausted
  /-- Nobody is there any longer to read from the sink. -/
  | brokenPipe
  /-- The sink did not answer in time. -/
  | timedOut
  /-- The device behind the sink is full. -/
  | deviceFull
deriving DecidableEq, Repr

/-- The wording of a failure. -/
def SinkFailure.message : SinkFailure → String
  | .exhausted => "failed to write whole buffer"
  | .brokenPipe => "broken pipe"
  | .timedOut => "timed out"
  | .deviceFull => "No space left on device (os error 28)"

/-- Something that bytes are written to. -/
structure Sink where
  /-- The bytes that can still be accepted, if they are limited. -/
  room : Option Nat := none
  /-- The most bytes that one write accepts, if that is limited; every write to a sink with
  room accepts one at least. -/
  chunk : Option Nat := none
  /-- So many of the next writes are interrupted. -/
  interrupts : Nat := 0
  /-- How a write fails when the sink is full. -/
  whenFull : SinkFailure := .exhausted
  /-- How a flush fails, if it does. -/
  whenFlushed : Option SinkFailure := none
  /-- The bytes accepted so far. -/
  written : List UInt8 := []
  /-- The flushes so far. -/
  flushes : Nat := 0
deriving DecidableEq, Repr

/-- What one write comes to. -/
inductive Attempt where
  /-- The write was interrupted and can be tried again. -/
  | interrupted
  /-- The first byte was accepted, and so many of the others. -/
  | accepted (more : Nat)
  /-- The write failed. -/
  | failed (failure : SinkFailure)
deriving DecidableEq, Repr

namespace Sink

/-- The smaller of a number and a limit, where there is one. -/
def atMost (limit : Option Nat) (count : Nat) : Nat :=
  match limit with
  | some limit => min limit count
  | none => count

/-- Offers a first byte and more bytes after it to a sink. -/
def write (sink : Sink) (first : UInt8) (more : List UInt8) : Attempt × Sink :=
  if 0 < sink.interrupts then
    (.interrupted, { sink with interrupts := sink.interrupts - 1 })
  else if sink.room = some 0 then
    (.failed sink.whenFull, sink)
  else
    let count := atMost (sink.room.map (· - 1)) (atMost (sink.chunk.map (· - 1)) more.length)
    (.accepted count,
      { sink with
        room := sink.room.map (· - (count + 1))
        written := sink.written ++ first :: more.take count })

/-- An interrupted write uses up an interrupt. -/
theorem interrupts_of_interrupted {sink after : Sink} {first : UInt8} {more : List UInt8}
    (h : sink.write first more = (.interrupted, after)) :
    after.interrupts < sink.interrupts := by
  unfold write at h
  split at h
  next pending =>
    obtain rfl := (Prod.mk.inj h).2
    exact Nat.sub_lt pending Nat.one_pos
  next =>
    split at h
    next => exact absurd (Prod.mk.inj h).1 (by simp)
    next => exact absurd (Prod.mk.inj h).1 (by simp)

/-- A write that accepts bytes uses up no interrupt. -/
theorem interrupts_of_accepted {sink after : Sink} {first : UInt8} {more : List UInt8}
    {count : Nat} (h : sink.write first more = (.accepted count, after)) :
    after.interrupts = sink.interrupts := by
  unfold write at h
  split at h
  next => exact absurd (Prod.mk.inj h).1 (by simp)
  next =>
    split at h
    next => exact absurd (Prod.mk.inj h).1 (by simp)
    next =>
      obtain rfl := (Prod.mk.inj h).2
      rfl

/-- Writes all bytes, trying again and going on until every one is accepted or a write
fails. -/
def writeAll (sink : Sink) : List UInt8 → Option SinkFailure × Sink
  | [] => (none, sink)
  | first :: more =>
    match _ : sink.write first more with
    | (.interrupted, after) => after.writeAll (first :: more)
    | (.accepted count, after) => after.writeAll (more.drop count)
    | (.failed failure, after) => (some failure, after)
termination_by bytes => bytes.length + sink.interrupts
decreasing_by
  · have := interrupts_of_interrupted ‹_›
    simp only [List.length_cons]
    omega
  · have := interrupts_of_accepted ‹_›
    simp only [List.length_cons, List.length_drop]
    omega

/-- Flushes a sink. -/
def flush (sink : Sink) : Option SinkFailure × Sink :=
  (sink.whenFlushed, { sink with flushes := sink.flushes + 1 })

/-- Writes a text and then flushes; a failed write leaves nothing to flush. -/
def writeText (sink : Sink) (text : List Char) : Option SinkFailure × Sink :=
  match sink.writeAll (String.ofList text).toUTF8.toList with
  | (none, after) => after.flush
  | (some failure, after) => (some failure, after)

end Sink

end DecimalPi

import DecimalPi.DigitStream.Basic

/-!
# Queries to a Stream

What one can ask of a stream of digit groups. Most queries use groups up, and those are gone
for the queries that follow; the answer to a query holds the groups that it was about, its
effects are all groups that it used up and the stream that is left.

## Names in the program

* `Query`: what an iterator offers on `PiDigits`, that is `next`, `nth`, `last`, `take`,
  `step_by`, `take_while`, all of it, `count` and `len`, in the order of the cases here.
-/

namespace DecimalPi

/-- Something to ask of a stream. -/
inductive Query where
  /-- The next group. -/
  | next
  /-- The group after the next `skipped` ones, which are dropped. -/
  | nth (skipped : Nat)
  /-- The last group; all others are dropped. -/
  | last
  /-- Up to `count` groups. -/
  | take (count : Nat)
  /-- The next group and every `stride`-th after it, to the end; all others are dropped. -/
  | stepBy (stride : Nat)
  /-- The groups before the first one that is not below `bound`, which is dropped. -/
  | takeBelow (bound : UInt64)
  /-- All groups that are left. -/
  | rest
  /-- How many groups are left, using them up. -/
  | count
  /-- How many groups are left, using none up. -/
  | length
deriving DecidableEq, Repr

/-- The answer to a query. -/
inductive Answer where
  /-- One group, if there was one. -/
  | group (found : Option Group)
  /-- Groups in order. -/
  | groups (found : List Group)
  /-- A number of groups. -/
  | number (count : Nat)
deriving DecidableEq, Repr

/-- The answer to a query together with its effects. -/
structure Reply where
  /-- The answer. -/
  answer : Answer
  /-- The groups that were used up, in order. -/
  emissions : List Emission
  /-- The stream that is left. -/
  stream : DigitStream
deriving DecidableEq, Repr

/-- The groups that answering a query used up, in order. -/
def Reply.groups (reply : Reply) : List Group :=
  reply.emissions.map Emission.group

/-- The events of answering a query. -/
def Reply.events (reply : Reply) : List Event :=
  reply.emissions.map Emission.event

/-- The first element of a list and every `stride`-th after it. -/
def everyNth {α : Type} (stride : Nat) (elements : List α) : List α :=
  elements.zipIdx.filterMap fun (element, index) =>
    if index % stride = 0 then some element else none

namespace DigitStream

/-- Uses up the given emissions and answers from their groups. -/
def replyWith (answer : List Group → Answer) (pulled : List Emission × DigitStream) : Reply where
  answer := answer (pulled.1.map Emission.group)
  emissions := pulled.1
  stream := pulled.2

/-- Answers a query. -/
def ask (stream : DigitStream) : Query → Reply
  | .next => replyWith (fun groups => .group groups.head?) (stream.pull 1)
  | .nth skipped => replyWith (fun groups => .group groups[skipped]?) (stream.pull (skipped + 1))
  | .last => replyWith (fun groups => .group groups.getLast?) stream.pullAll
  | .take count => replyWith .groups (stream.pull count)
  | .stepBy stride => replyWith (fun groups => .groups (everyNth stride groups)) stream.pullAll
  | .takeBelow bound =>
    let below := fun group : Group => decide (group.value < bound)
    replyWith (fun groups => .groups (groups.takeWhile below))
      (stream.pullWhile below stream.remaining.toNat)
  | .rest => replyWith .groups stream.pullAll
  | .count => replyWith (fun groups => .number groups.length) stream.pullAll
  | .length => { answer := .number stream.length.toNat, emissions := [], stream }

end DigitStream

end DecimalPi

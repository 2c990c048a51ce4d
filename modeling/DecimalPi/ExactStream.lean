import DecimalPi.DigitStream.Basic

/-!
# The Stream in Unbounded Arithmetic

The extraction of `DigitStream` once more, over natural numbers of any size. Nothing wraps
here and nothing is cut off, so this is the arithmetic that the words are meant to carry out:
`DigitStream.exact` reads a stream of words as one of numbers, and as long as no word
overflows the two yield the same groups and stay in step.
-/

namespace DecimalPi

/-- A stream of groups whose remainders, place and carry are natural numbers of any size. -/
structure ExactStream where
  /-- The remainders of all terms, the ones given up included. -/
  table : Array Nat
  /-- The last term that is alive, `0` when the stream is exhausted. -/
  cursor : Nat
  /-- What the pass before left over for the next group. -/
  carry : Nat
deriving DecidableEq, Repr

namespace ExactStream

/-- Walks from the given term down to the first, dividing at each term `i` by `2i - 1` and
leaving the remainder there; the result is what arrives below the first term. -/
def divideDown : (index : Nat) → (carried : Nat) → Array Nat → Nat × Array Nat
  | 0, carried, table => (carried, table)
  | i + 1, carried, table =>
    let total := carried * (i + 1) + table.getD (i + 1) 0 * base.toNat
    let divisor := 2 * (i + 1) - 1
    divideDown i (total / divisor) (table.setIfInBounds (i + 1) (total % divisor))

/-- The next group and the stream after it, if the stream is not exhausted. -/
def next? (stream : ExactStream) : Option (Nat × ExactStream) :=
  if stream.cursor = 0 then
    none
  else
    let (total, table) := divideDown stream.cursor 0 stream.table
    some
      (stream.carry + total / base.toNat,
        { table
          cursor := stream.cursor - termsPerGroup.toNat
          carry := total % base.toNat })

/-- A stream in which every term of a table of `entries` entries is alive. -/
def seeded (entries : Nat) : ExactStream where
  table := Array.replicate entries seed.toNat
  cursor := entries - 1
  carry := 0

/-- Emits up to `count` groups. -/
def pull : (count : Nat) → ExactStream → List Nat × ExactStream
  | 0, stream => ([], stream)
  | count + 1, stream =>
    match stream.next? with
    | none => ([], stream)
    | some (group, stream) =>
      let (groups, stream) := pull count stream
      (group :: groups, stream)

end ExactStream

/-- The numbers that the words of a stream stand for. -/
def DigitStream.exact (stream : DigitStream) : ExactStream where
  table := stream.table.map UInt32.toNat
  cursor := stream.cursor.toNat
  carry := stream.carry.toNat

end DecimalPi

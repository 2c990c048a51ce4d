import DecimalPi.Event
import DecimalPi.Extent

/-!
# The Stream of Digit Groups

The digits of `π` are extracted from a table of remainders, one for each term of the series.
Between passes the number still to be written out is the carry plus `Σ table[i] · wᵢ`, taken
over the terms that are still alive. A pass multiplies that sum by `base` and divides it out
in the mixed radix of the series: it walks from the last live term down to the first, leaves
a remainder smaller than `2i - 1` at each term `i`, and arrives at a whole number. That
number, less what is too small for a group, is added to the carry of the pass before to make
the next group; what is too small becomes the new carry.

After each group the last `termsPerGroup` live terms are given up. The entries that belonged
to them stay in the table and are never looked at again, so a stream can be used only once
and ends when no term is left.

All arithmetic is done in words: 64 bits for the running total, 32 bits for a remainder.

## Names in the program

* `DigitStream`: `PiDigits`, with its `table`, `cursor` and `carry`;
* `Remainders.pass`, with `divideDown` for the loop in it: `pass`;
* `DigitStream.next?`: `next`;
* `DigitStream.remaining`, `DigitStream.sizeHint` and `DigitStream.length`: `remaining`,
  `size_hint` and `len`;
* `DigitStream.start`, with `seeded` for the table and `startEvents` for what is logged: `new`
  and `seeded_table`;
* `expansion`: `pi_digits`.
-/

namespace DecimalPi

/-- One remainder for each term of the series, that of the term `i` at index `i`. The index
`0` is not in use. -/
abbrev Remainders := Array UInt32

namespace Remainders

/-- The remainder of the term `index`, as a full word. -/
def word (table : Remainders) (index : Nat) : UInt64 :=
  (table.getD index 0).toUInt64

/-- Walks from the given term down to the first, dividing at each term `i` by `2i - 1` and
leaving the remainder there. `carried` is what arrives from the term above, still to be
multiplied by `i`; the result is what arrives below the first term. -/
def divideDown : (index : Nat) → (carried : UInt64) → Remainders → UInt64 × Remainders
  | 0, carried, table => (carried, table)
  | i + 1, carried, table =>
    let total := carried * UInt64.ofNat (i + 1) + table.word (i + 1) * base
    let divisor := 2 * UInt64.ofNat (i + 1) - 1
    divideDown i (total / divisor) (table.setIfInBounds (i + 1) (total % divisor).toUInt32)

/-- One pass over the terms up to `last`: the whole number that comes out of the sum of the
live terms, made larger by the factor `base`, and the remainders that are left. -/
def pass (table : Remainders) (last : UInt64) : UInt64 × Remainders :=
  table.divideDown last.toNat 0

end Remainders

/-- A group together with the place it was emitted at. -/
structure Emission where
  /-- The last live term of the pass that produced the group. -/
  cursor : UInt64
  /-- The group. -/
  group : Group
deriving DecidableEq, Repr

/-- The event that tells of an emission. -/
def Emission.event (emission : Emission) : Event :=
  .groupEmitted emission.cursor emission.group

/-- Bounds on the number of groups that a stream still has. -/
structure SizeHint where
  /-- There are no fewer groups. -/
  lower : UInt64
  /-- There are no more groups, if that is known. -/
  upper : Option UInt64
deriving DecidableEq, Repr

/-- A stream of groups: the table of remainders, the last live term and the carry. -/
structure DigitStream where
  /-- The remainders of all terms, the ones given up included. -/
  table : Remainders
  /-- The last term that is alive, `0` when the stream is exhausted. -/
  cursor : UInt64
  /-- What the pass before left over for the next group. -/
  carry : UInt64
deriving DecidableEq, Repr

namespace DigitStream

/-- Groups still to come. -/
def remaining (stream : DigitStream) : UInt64 :=
  stream.cursor / termsPerGroup

/-- Bounds on the number of groups still to come: a stream knows that number. -/
def sizeHint (stream : DigitStream) : SizeHint where
  lower := stream.remaining
  upper := some stream.remaining

/-- Groups still to come as the bounds tell, which have to agree on it (`upper_sizeHint`). -/
def length (stream : DigitStream) : UInt64 :=
  stream.sizeHint.lower

/-- The upper bound is the lower one. -/
@[simp]
theorem upper_sizeHint (stream : DigitStream) : stream.sizeHint.upper = some stream.length := rfl

/-- The next group and the stream after it, if the stream is not exhausted. -/
def next? : DigitStream → Option (Emission × DigitStream)
  | ⟨table, cursor, carry⟩ =>
    if cursor = 0 then
      none
    else
      let (total, table) := table.pass cursor
      -- The subtraction cannot wrap: a live stream has a multiple of `termsPerGroup` terms.
      some
        ({ cursor, group := ⟨carry + total / base⟩ },
          { table, cursor := cursor - termsPerGroup, carry := total % base })

/-- A stream in which every term of a table of `entries` entries is alive. -/
def seeded (entries : UInt64) : DigitStream where
  table := Array.replicate entries.toNat seed
  cursor := entries - 1
  carry := 0

/-- Opens a stream of `count` digits; `room` is the number of entries that a table may have,
where there is such a limit. -/
def start (room : Option UInt64) (count : UInt64) : Except Fault DigitStream := do
  let entries ← entriesFor count
  match room with
  | some limit => if limit < entries then .error (.noRoom entries) else .ok (seeded entries)
  | none => .ok (seeded entries)

/-- The events of opening a stream, which come before the table is made. -/
def startEvents (count : UInt64) : List Event :=
  match entriesFor count with
  | .ok entries => [.tableMeasured entries count ((entries - 1) / termsPerGroup)]
  | .error _ => []

/-- Emits groups until one of them fails `keep`, that one included, but no more than
`limit`. -/
def pullWhile (keep : Group → Bool) :
    (limit : Nat) → DigitStream → List Emission × DigitStream
  | 0, stream => ([], stream)
  | limit + 1, stream =>
    match stream.next? with
    | none => ([], stream)
    | some (emission, stream) =>
      if keep emission.group then
        let (emissions, stream) := pullWhile keep limit stream
        (emission :: emissions, stream)
      else
        ([emission], stream)

/-- Emits up to `count` groups. -/
def pull (count : Nat) (stream : DigitStream) : List Emission × DigitStream :=
  stream.pullWhile (fun _ => true) count

/-- Emits all groups that are left. -/
def pullAll (stream : DigitStream) : List Emission × DigitStream :=
  stream.pull stream.remaining.toNat

/-- All groups that are left, without the places they are emitted at. -/
def groups (stream : DigitStream) : List Group :=
  stream.pullAll.1.map Emission.group

/-- The entries of the table from one index up to another, both limited to what is there. -/
def entries (stream : DigitStream) (first last : Nat) : List UInt32 :=
  (stream.table.extract first last).toList

/-- The sum of all entries of the table. -/
def entrySum (stream : DigitStream) : Nat :=
  stream.table.foldl (fun sum entry => sum + entry.toNat) 0

end DigitStream

/-- The digits of an expansion of `count` digits, whole groups of them. -/
def expansion (room : Option UInt64) (count : UInt64) : Except Fault (List Char) := do
  let stream ← DigitStream.start room count
  return Group.concat stream.groups

end DecimalPi

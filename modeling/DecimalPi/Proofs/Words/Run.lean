import DecimalPi.Proofs.Exact.Run
import DecimalPi.Proofs.Extent
import DecimalPi.Proofs.Words.Pass

/-!
# Runs in words

A stream of words and the stream of numbers that it stands for stay in step: each emission of
the one is an emission of the other, and the streams that are left correspond again. Nothing
is asked of the entries for that, since whatever fits a word of 32 bits is small enough.

## Main definitions

* `DigitStream.emission`, `DigitStream.advanced`: the next emission, and the stream after it;
* `DigitStream.InRange`: a stream that no emission takes out of the range of its words;
* `DigitStream.Opened`: a new stream with a given number of groups.

## Main results

* `DigitStream.next?_eq_some_iff` and `DigitStream.pull_induction`: what an emission can be, and
  what every emission preserves;
* `DigitStream.InRange.next?_exact` and `DigitStream.InRange.pull_exact`: emissions correspond;
* `DigitStream.exists_opened`: an accepted number of digits, given room, opens a stream;
* `DigitStream.Opened.numbers_take_groups`: the first groups of an opened stream.
-/

namespace DecimalPi

/-- The numbers that groups stand for. -/
def Group.numbers (groups : List Group) : List ℕ := groups.map fun group => group.value.toNat

namespace DigitStream

/-- The numbers of the groups that `count` emissions yield. -/
def emitted (stream : DigitStream) (count : ℕ) : List ℕ :=
  Group.numbers ((stream.pull count).1.map Emission.group)

/-- What has been written out after `count` emissions: the number that the groups spell,
followed by the carry. -/
def account (stream : DigitStream) (count : ℕ) : ℕ :=
  10000 * spelled (stream.emitted count) + (stream.pull count).2.carry.toNat

/-! ## Emissions one by one -/

@[simp]
theorem pull_zero (stream : DigitStream) : stream.pull 0 = ([], stream) := rfl

theorem pull_succ (stream : DigitStream) (count : ℕ) :
    stream.pull (count + 1) =
      match stream.next? with
      | none => ([], stream)
      | some (emission, rest) => (emission :: (rest.pull count).1, (rest.pull count).2) := by
  rw [pull, pullWhile]
  cases stream.next? <;> rfl

/-- A shorter run is the beginning of a longer one. -/
theorem take_fst_pull {stream : DigitStream} {count count' : ℕ} (h : count ≤ count') :
    (stream.pull count').1.take count = (stream.pull count).1 := by
  induction count generalizing stream count' with
  | zero => simp
  | succ count ih =>
    obtain ⟨more, rfl⟩ : ∃ more, count' = more + 1 := ⟨count' - 1, by omega⟩
    rw [pull_succ, pull_succ]
    cases stream.next? with
    | none => simp
    | some emission => simp [ih (Nat.le_of_succ_le_succ h)]

theorem next?_of_eq_zero {stream : DigitStream} (h : stream.cursor = 0) :
    stream.next? = none := by
  obtain ⟨table, cursor, carry⟩ := stream
  rw [next?, if_pos h]

/-- The group that the next pass yields, and its place. -/
def emission (stream : DigitStream) : Emission where
  cursor := stream.cursor
  group := ⟨stream.carry + (stream.table.pass stream.cursor).1 / base⟩

/-- The stream after one more pass. -/
def advanced (stream : DigitStream) : DigitStream where
  table := (stream.table.pass stream.cursor).2
  cursor := stream.cursor - termsPerGroup
  carry := (stream.table.pass stream.cursor).1 % base

theorem next?_of_ne_zero {stream : DigitStream} (h : stream.cursor ≠ 0) :
    stream.next? = some (stream.emission, stream.advanced) := by
  obtain ⟨table, cursor, carry⟩ := stream
  rw [next?, if_neg h]
  rfl

/-- All that an emission can be. -/
theorem next?_eq_some_iff {stream rest : DigitStream} {emission : Emission} :
    stream.next? = some (emission, rest) ↔
      stream.cursor ≠ 0 ∧ stream.emission = emission ∧ stream.advanced = rest := by
  by_cases hcursor : stream.cursor = 0
  · simp [next?_of_eq_zero hcursor, hcursor]
  · rw [next?_of_ne_zero hcursor, Option.some_inj, Prod.mk.injEq]
    exact (and_iff_right hcursor).symm

/-- What every emission preserves, a run preserves. -/
theorem pull_induction {motive : DigitStream → Prop} {stream : DigitStream}
    (start : motive stream)
    (step : ∀ stream : DigitStream, stream.cursor ≠ 0 → motive stream → motive stream.advanced)
    (count : ℕ) : motive (stream.pull count).2 := by
  induction count generalizing stream with
  | zero => exact start
  | succ count ih =>
    rw [pull_succ]
    cases hnext : stream.next? with
    | none => exact start
    | some next =>
      obtain ⟨emission, rest⟩ := next
      obtain ⟨hcursor, -, rfl⟩ := next?_eq_some_iff.mp hnext
      exact ih (step stream hcursor start)

/-! ## Staying in step -/

/-- No emission takes the stream out of the range of its words. -/
structure InRange (stream : DigitStream) : Prop where
  -- so that divisors fit the word of a remainder
  cursor_lt : stream.cursor.toNat < 2 ^ 31
  -- so that giving up terms does not go below zero
  cursor_dvd : 14 ∣ stream.cursor.toNat
  -- so that a group fits its word
  carry_lt : stream.carry.toNat < 10000

namespace InRange

variable {stream : DigitStream} (h : InRange stream)

include h

theorem pass_exact :
    ((stream.table.pass stream.cursor).1.toNat,
        (stream.table.pass stream.cursor).2.map UInt32.toNat) =
      ExactStream.divideDown stream.exact.cursor 0 stream.exact.table :=
  Remainders.pass_exact h.cursor_lt stream.table

theorem fst_pass : (stream.table.pass stream.cursor).1.toNat = stream.exact.yield :=
  congrArg Prod.fst h.pass_exact

theorem snd_pass :
    (stream.table.pass stream.cursor).2.map UInt32.toNat = stream.exact.advanced.table :=
  congrArg Prod.snd h.pass_exact

omit h

theorem cursor_toNat_ne_zero (hcursor : stream.cursor ≠ 0) : stream.cursor.toNat ≠ 0 :=
  fun h => hcursor (UInt64.toNat_inj.mp h)

include h

theorem le_cursor (hcursor : stream.cursor ≠ 0) : 14 ≤ stream.cursor.toNat :=
  Nat.le_of_dvd (Nat.pos_of_ne_zero (cursor_toNat_ne_zero hcursor)) h.cursor_dvd

theorem toNat_cursor_advanced (hcursor : stream.cursor ≠ 0) :
    stream.advanced.cursor.toNat = stream.cursor.toNat - 14 := by
  have hle : termsPerGroup ≤ stream.cursor := UInt64.le_iff_toNat_le.mpr (h.le_cursor hcursor)
  rw [advanced, UInt64.toNat_sub_of_le _ _ hle]
  rfl

/-- The cursor only goes down. -/
theorem toNat_cursor_advanced_le (hcursor : stream.cursor ≠ 0) :
    stream.advanced.cursor.toNat ≤ stream.cursor.toNat :=
  (h.toNat_cursor_advanced hcursor).trans_le (Nat.sub_le _ _)

/-- The sum that makes a group does not wrap. -/
theorem carry_add_lt :
    stream.carry.toNat + (stream.table.pass stream.cursor).1.toNat / 10000 < 2 ^ 64 := by
  have hcarry := h.carry_lt
  have htotal := (stream.table.pass stream.cursor).1.toNat_lt
  omega

theorem toNat_emission :
    stream.emission.group.value.toNat = stream.exact.carry + stream.exact.yield / 10000 := by
  have hquotient : ((stream.table.pass stream.cursor).1 / base).toNat =
      stream.exact.yield / 10000 := by
    rw [UInt64.toNat_div, h.fst_pass]
    rfl
  have hsum := h.carry_add_lt
  rw [h.fst_pass] at hsum
  rw [emission, UInt64.toNat_add, hquotient]
  exact Nat.mod_eq_of_lt hsum

theorem toNat_carry_advanced : stream.advanced.carry.toNat = stream.exact.yield % 10000 := by
  rw [advanced, UInt64.toNat_mod, h.fst_pass]
  rfl

/-- The streams that are left correspond. -/
theorem exact_advanced (hcursor : stream.cursor ≠ 0) :
    stream.advanced.exact = stream.exact.advanced := by
  rw [exact, h.toNat_cursor_advanced hcursor, h.toNat_carry_advanced, advanced, h.snd_pass]
  rfl

/-- An emission is the one in unbounded arithmetic. -/
theorem next?_exact :
    stream.next?.map (fun (emission, rest) => (emission.group.value.toNat, rest.exact)) =
      stream.exact.next? := by
  by_cases hcursor : stream.cursor = 0
  · have hexact : stream.exact.cursor = 0 := by rw [exact, hcursor]; rfl
    rw [ExactStream.next?, if_pos hexact, next?_of_eq_zero hcursor]
    rfl
  · have hexact : stream.exact.cursor ≠ 0 := cursor_toNat_ne_zero hcursor
    rw [next?_of_ne_zero hcursor, ExactStream.next?_of_ne_zero hexact, ← h.toNat_emission,
      ← h.exact_advanced hcursor]
    rfl

/-- An emission keeps the stream in range. -/
theorem advanced (hcursor : stream.cursor ≠ 0) : InRange stream.advanced := by
  have hlower := h.toNat_cursor_advanced hcursor
  have hlt := h.cursor_lt
  exact
    { cursor_lt := by omega
      cursor_dvd := hlower ▸ Nat.dvd_sub h.cursor_dvd (dvd_refl 14)
      carry_lt := by
        rw [h.toNat_carry_advanced]
        exact Nat.mod_lt _ (by decide) }

theorem of_next? {emission : Emission} {rest : DigitStream}
    (hnext : stream.next? = some (emission, rest)) : InRange rest := by
  obtain ⟨hcursor, -, rfl⟩ := next?_eq_some_iff.mp hnext
  exact h.advanced hcursor

theorem pull (count : ℕ) : InRange (stream.pull count).2 :=
  pull_induction h (fun _ hcursor hrange => hrange.advanced hcursor) count

/-- Any number of emissions is the same in unbounded arithmetic. -/
theorem pull_exact (count : ℕ) :
    stream.emitted count = stream.exact.emitted count ∧
      (stream.pull count).2.exact = stream.exact.after count := by
  induction count generalizing stream with
  | zero => exact ⟨rfl, rfl⟩
  | succ count ih =>
    have hstep := h.next?_exact
    rw [emitted, pull_succ, ExactStream.emitted, ExactStream.after, ExactStream.pull]
    cases hnext : stream.next? with
    | none =>
      rw [hnext] at hstep
      rw [← hstep]
      exact ⟨rfl, rfl⟩
    | some next =>
      obtain ⟨emission, rest⟩ := next
      obtain ⟨hgroups, hrest⟩ := ih (h.of_next? hnext)
      rw [hnext] at hstep
      rw [← hstep]
      refine ⟨?_, hrest⟩
      rw [List.map_cons, Group.numbers, List.map_cons]
      exact congrArg _ hgroups

end InRange

/-! ## Opened streams -/

/-- The stream is a new one with `groups` groups, and the divisors of its terms fit the word of
a remainder. -/
structure Opened (groups : ℕ) (stream : DigitStream) : Prop where
  pos : 1 ≤ groups
  size_le : 2 * (14 * groups + 1) ≤ 4294967295
  -- all terms are alive and no group has been emitted
  exact_eq : stream.exact = ExactStream.seeded (14 * groups + 1)

theorem exact_seeded {entries : UInt64} (h : 1 ≤ entries.toNat) :
    (seeded entries).exact = ExactStream.seeded entries.toNat := by
  have hcursor : (entries - 1).toNat = entries.toNat - 1 :=
    UInt64.toNat_sub_of_le _ _ (UInt64.le_iff_toNat_le.mpr h)
  rw [exact, seeded, ExactStream.seeded]
  simp only [hcursor, Array.map_replicate]
  rfl

/-- An accepted number of digits, given room for its table, opens a stream. -/
theorem exists_opened {room : Option UInt64} {count entries : UInt64}
    (accepted : entriesFor count = .ok entries) (granted : ∀ limit ∈ room, entries ≤ limit) :
    ∃ groups stream, groupsFor count = .ok groups ∧ start room count = .ok stream ∧
      entries.toNat = 14 * groups.toNat + 1 ∧ Opened groups.toNat stream := by
  obtain ⟨groups, hgroups, hentries, hle⟩ := entriesFor_eq_ok_iff_groups.mp accepted
  obtain ⟨hcount, hquarter⟩ := groupsFor_eq_ok_iff.mp hgroups
  have hstart : start room count = .ok (seeded entries) :=
    start_eq_ok_iff.mpr ⟨entries, accepted, granted, rfl⟩
  refine ⟨groups, seeded entries, hgroups, hstart, hentries, by omega, by omega, ?_⟩
  rw [← hentries]
  exact exact_seeded (by omega)

namespace Opened

variable {groups : ℕ} {stream : DigitStream} (h : Opened groups stream)

include h

theorem ready : stream.exact.Ready groups :=
  h.exact_eq ▸ ExactStream.ready_seeded groups

theorem cursor_eq : stream.cursor.toNat = 14 * groups := h.ready.cursor_eq

theorem inRange : InRange stream where
  cursor_lt := by
    have := h.size_le
    rw [h.cursor_eq]
    omega
  cursor_dvd := by rw [h.cursor_eq]; exact Nat.dvd_mul_right 14 groups
  carry_lt := by
    have hcarry : stream.carry.toNat = 0 := congrArg ExactStream.carry h.exact_eq
    omega

theorem remaining_eq : stream.remaining.toNat = groups := by
  rw [remaining, UInt64.toNat_div, h.cursor_eq]
  exact Nat.mul_div_cancel_left groups (by norm_num)

/-! The run, read off the one in unbounded arithmetic. -/

theorem emitted_eq (count : ℕ) : stream.emitted count = stream.exact.emitted count :=
  (h.inRange.pull_exact count).1

theorem exact_pull (count : ℕ) : (stream.pull count).2.exact = stream.exact.after count :=
  (h.inRange.pull_exact count).2

theorem length_emitted {count : ℕ} (hle : count ≤ groups) :
    (stream.emitted count).length = count := by
  rw [h.emitted_eq, h.ready.length_emitted hle]

/-- The first groups of the stream are those of as many emissions. -/
theorem numbers_take_groups {count : ℕ} (hle : count ≤ groups) :
    Group.numbers (stream.groups.take count) = stream.emitted count := by
  rw [DigitStream.groups, pullAll, h.remaining_eq, ← List.map_take, take_fst_pull hle, emitted]

theorem length_groups : stream.groups.length = groups := by
  have hall : Group.numbers stream.groups = stream.emitted groups := by
    rw [DigitStream.groups, pullAll, h.remaining_eq, emitted]
  have hlength := congrArg List.length hall
  rw [Group.numbers, List.length_map, h.length_emitted le_rfl] at hlength
  exact hlength

/-- The group at an index is what one more emission adds to those before it. -/
theorem emitted_succ {index : ℕ} (hindex : index < stream.groups.length) :
    stream.emitted (index + 1) =
      stream.emitted index ++ [stream.groups[index].value.toNat] := by
  have hlt := hindex.trans_eq h.length_groups
  rw [← h.numbers_take_groups hlt, ← h.numbers_take_groups hlt.le,
    ← List.take_append_getElem hindex, Group.numbers, List.map_append]
  rfl

theorem carry_pull (count : ℕ) :
    (stream.pull count).2.carry.toNat = (stream.exact.after count).carry := by
  rw [← h.exact_pull]
  rfl

theorem account_eq (count : ℕ) :
    stream.account count = (ExactStream.seeded (14 * groups + 1)).account count := by
  rw [account, h.emitted_eq, h.carry_pull, h.exact_eq, ExactStream.account]

theorem cursor_pull {count : ℕ} (hle : count ≤ groups) :
    (stream.pull count).2.cursor.toNat = 14 * (groups - count) := by
  rw [← h.ready.cursor_after hle, ← h.exact_pull]
  rfl

theorem remainder_pull (count : ℕ) :
    (stream.pull count).2.table.remainder =
      ExactStream.remainder (stream.exact.after count).table := by
  rw [← h.exact_pull, exact, Remainders.exact_remainder]

end Opened

end DigitStream

end DecimalPi

import DecimalPi.Proofs.Words.Run

/-!
# Positions in a run

A stream has nothing in it but its place in a run: what is left after some emissions yields the
groups that come after them, whether those were emitted one by one or many at a time. So a
stream that is used up bit by bit can be looked at as a position in the list of its groups.

## Main results

* `pull_add`: emissions may be asked for in several parts;
* `InRange.pull_min`: nothing is emitted beyond the last group;
* `InRange.take_groups` and `InRange.drop_groups`: the groups emitted and the groups left;
* `InRange.fst_pull_eq`: where each of them was emitted.
-/

namespace DecimalPi.DigitStream

theorem pull_of_next?_eq_none {stream : DigitStream} (h : stream.next? = none) (count : ℕ) :
    stream.pull count = ([], stream) := by
  cases count with
  | zero => rfl
  | succ count => rw [pull_succ, h]

/-- Emissions may be asked for in several parts. -/
theorem pull_add (stream : DigitStream) (first second : ℕ) :
    stream.pull (first + second) =
      ((stream.pull first).1 ++ ((stream.pull first).2.pull second).1,
        ((stream.pull first).2.pull second).2) := by
  induction first generalizing stream with
  | zero => rw [Nat.zero_add, pull_zero, List.nil_append]
  | succ first ih =>
    rw [Nat.add_right_comm, pull_succ, pull_succ]
    cases hnext : stream.next? with
    | none => rw [pull_of_next?_eq_none hnext, List.nil_append]
    | some next =>
      obtain ⟨emission, rest⟩ := next
      simp only [ih, List.cons_append]

theorem toNat_remaining (stream : DigitStream) :
    stream.remaining.toNat = stream.cursor.toNat / 14 :=
  UInt64.toNat_div _ _

namespace InRange

variable {stream : DigitStream} (h : InRange stream)

include h

/-- An emission tells the last live term and gives up fourteen terms. -/
theorem cursor_of_next? {emission : Emission} {rest : DigitStream}
    (hnext : stream.next? = some (emission, rest)) :
    emission.cursor = stream.cursor ∧ stream.cursor.toNat = rest.cursor.toNat + 14 := by
  obtain ⟨hcursor, rfl, rfl⟩ := next?_eq_some_iff.mp hnext
  have hle := h.le_cursor hcursor
  refine ⟨rfl, ?_⟩
  rw [h.toNat_cursor_advanced hcursor]
  omega

theorem remaining_of_next? {emission : Emission} {rest : DigitStream}
    (hnext : stream.next? = some (emission, rest)) :
    stream.remaining.toNat = rest.remaining.toNat + 1 := by
  obtain ⟨-, hcursor⟩ := h.cursor_of_next? hnext
  rw [toNat_remaining, toNat_remaining]
  omega

theorem next?_eq_none_iff : stream.next? = none ↔ stream.remaining.toNat = 0 := by
  constructor
  · intro hnext
    by_cases hcursor : stream.cursor = 0
    · rw [toNat_remaining, hcursor]
      rfl
    · rw [next?_of_ne_zero hcursor] at hnext
      contradiction
  · intro hremaining
    cases hnext : stream.next? with
    | none => rfl
    | some next =>
      have := h.remaining_of_next? hnext
      omega

theorem remaining_pull (count : ℕ) :
    (stream.pull count).2.remaining.toNat = stream.remaining.toNat - count := by
  induction count generalizing stream with
  | zero => rfl
  | succ count ih =>
    rw [pull_succ]
    cases hnext : stream.next? with
    | none => simp [h.next?_eq_none_iff.mp hnext]
    | some next =>
      rw [ih (h.of_next? hnext), h.remaining_of_next? hnext]
      exact (Nat.add_sub_add_right _ 1 count).symm

/-- Nothing is emitted beyond the last group. -/
theorem pull_min (count : ℕ) :
    stream.pull (min count stream.remaining.toNat) = stream.pull count := by
  rcases Nat.le_total count stream.remaining.toNat with hle | hle
  · rw [Nat.min_eq_left hle]
  · obtain ⟨more, rfl⟩ := Nat.exists_eq_add_of_le hle
    -- after the last group the stream is exhausted, and more cannot be had from it
    have hremaining := h.remaining_pull stream.remaining.toNat
    rw [Nat.sub_self] at hremaining
    have hnone := (h.pull stream.remaining.toNat).next?_eq_none_iff.mpr hremaining
    rw [Nat.min_eq_right hle, pull_add, pull_of_next?_eq_none hnone, List.append_nil]

theorem length_fst_pull (count : ℕ) :
    (stream.pull count).1.length = min count stream.remaining.toNat := by
  induction count generalizing stream with
  | zero => exact (Nat.zero_min _).symm
  | succ count ih =>
    rw [pull_succ]
    cases hnext : stream.next? with
    | none => simp [h.next?_eq_none_iff.mp hnext]
    | some next =>
      rw [List.length_cons, ih (h.of_next? hnext), h.remaining_of_next? hnext,
        Nat.add_min_add_right]

theorem length_groups : stream.groups.length = stream.remaining.toNat := by
  rw [groups, pullAll, List.length_map, h.length_fst_pull, Nat.min_self]

theorem take_groups (count : ℕ) :
    stream.groups.take count = (stream.pull count).1.map Emission.group := by
  rcases Nat.le_total count stream.remaining.toNat with hle | hle
  · rw [groups, pullAll, ← List.map_take, take_fst_pull hle]
  · rw [List.take_of_length_le (h.length_groups.trans_le hle), ← h.pull_min count,
      Nat.min_eq_right hle]
    rfl

/-- What is left after some emissions has the groups that come after them. -/
theorem drop_groups (count : ℕ) :
    stream.groups.drop count = (stream.pull count).2.groups := by
  have hall : stream.groups =
      (stream.pull count).1.map Emission.group ++ (stream.pull count).2.groups := by
    -- all groups are those of the count and those that remain after it
    have hlast : stream.pull stream.remaining.toNat =
        stream.pull (count + (stream.pull count).2.remaining.toNat) := by
      rw [← h.pull_min (count + _), h.remaining_pull, Nat.min_eq_right (by omega)]
    rw [groups, pullAll, hlast, pull_add, List.map_append]
    rfl
  rw [← h.take_groups] at hall
  exact List.append_cancel_left ((List.take_append_drop count stream.groups).trans hall)

/-- The place at which each group is emitted: the last live term goes down by fourteen. Groups
are counted from `position` on. -/
theorem fst_pull_eq (count position : ℕ) :
    (stream.pull count).1 =
      ((stream.groups.take count).zipIdx position).map fun (group, index) =>
        { cursor := UInt64.ofNat (stream.cursor.toNat + 14 * position - 14 * index), group } := by
  rw [h.take_groups]
  -- the rest of the run counts its groups from the next position on
  induction count generalizing stream position with
  | zero => rfl
  | succ count ih =>
    rw [pull_succ]
    cases hnext : stream.next? with
    | none => rfl
    | some next =>
      obtain ⟨emission, rest⟩ := next
      obtain ⟨hemission, hcursor⟩ := h.cursor_of_next? hnext
      have hfirst : emission = { emission with
          cursor := UInt64.ofNat (stream.cursor.toNat + 14 * position - 14 * position) } := by
        rw [Nat.add_sub_cancel, UInt64.ofNat_toNat, ← hemission]
      have hplace : stream.cursor.toNat + 14 * position =
          rest.cursor.toNat + 14 * (position + 1) := by omega
      simp only [List.map_cons, List.zipIdx_cons]
      rw [← hfirst, hplace, ← ih (h.of_next? hnext)]

end InRange

end DecimalPi.DigitStream

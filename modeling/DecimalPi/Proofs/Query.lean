import DecimalPi.DigitStream.Query
import DecimalPi.Proofs.Words.Pull

/-!
# Queries to a stream are queries to a list

A stream is used up as it is asked, and groups that are skipped have to be computed all the same.
Seen from outside it is nevertheless a position in one fixed list, the groups of the new stream:
every query is answered as that list would answer it from the position on, and moves the position
by as many groups as the query is about. Nothing else is in a stream, so two sequences of queries
that use up equally many groups leave the same stream.

## Main definitions

* `Query.answerFrom`, `Query.used`: what a list of groups answers, and how many of them that uses
  up;
* `DigitStream.afterAll`, `DigitStream.usedUp`: what queries leave of a stream, and what not;
* `DigitStream.AtPosition`, `DigitStream.RepliesAt`: a stream at a position of the list, and a
  reply that is given there.

## Main results

* `InRange.ask_eq`: one query, in terms of the list;
* `InRange.afterAll_eq`: any number of queries;
* `DigitStream.queries_simulate_list`: the simulation for all accepted numbers of digits.
-/

namespace DecimalPi

/-! ## Lists -/

/-- The first element of a list and every `stride`-th after it, skipping those between. -/
def strided {α : Type} (stride : ℕ) : List α → List α
  | [] => []
  | element :: rest => element :: strided stride (rest.drop (stride - 1))
termination_by elements => elements.length
decreasing_by
  rw [List.length_drop, List.length_cons]
  omega

/-- An element is taken where its index is divisible by the stride. The elements before the next
such index are passed over. -/
theorem filterMap_zipIdx_eq_strided {α : Type} {stride index skipped : ℕ}
    (hskipped : skipped < stride) (hnext : stride ∣ index + skipped) (elements : List α) :
    ((elements.zipIdx index).filterMap fun (element, index) =>
        if index % stride = 0 then some element else none) =
      strided stride (elements.drop skipped) := by
  induction elements generalizing index skipped with
  | nil => rw [List.drop_nil, strided]; rfl
  | cons element rest ih =>
    rw [List.zipIdx_cons]
    cases skipped with
    | zero =>
      -- this element is taken, and the next one to be taken is a stride away
      have hstride : stride ∣ index + 1 + (stride - 1) := by
        rw [Nat.add_assoc, Nat.add_sub_cancel' hskipped]
        exact Nat.dvd_add_self_right.mpr hnext
      have hafter := ih (Nat.sub_one_lt_of_lt hskipped) hstride
      have hindex : index % stride = 0 := Nat.mod_eq_zero_of_dvd hnext
      rw [List.filterMap_cons, hafter, List.drop_zero, strided]
      simp only [hindex, reduceIte]
    | succ skipped =>
      -- an index between two multiples of the stride is none
      have hindex : index % stride ≠ 0 := by
        intro hzero
        have := Nat.le_of_dvd (Nat.succ_pos skipped)
          ((Nat.dvd_add_right (Nat.dvd_of_mod_eq_zero hzero)).mp hnext)
        omega
      have hstride : stride ∣ index + 1 + skipped := by
        rw [Nat.add_right_comm]
        exact hnext
      have hafter := ih (Nat.lt_of_succ_lt hskipped) hstride
      rw [List.filterMap_cons, hafter, List.drop_succ_cons]
      simp only [hindex, reduceIte]

theorem everyNth_eq_strided {α : Type} {stride : ℕ} (hpos : 1 ≤ stride) (elements : List α) :
    everyNth stride elements = strided stride elements := by
  rw [everyNth, filterMap_zipIdx_eq_strided hpos (dvd_zero stride), List.drop_zero]

/-- The elements that are kept are known from these and the one after them. -/
theorem takeWhile_take_succ {α : Type} (keep : α → Bool) (elements : List α) :
    (elements.take ((elements.takeWhile keep).length + 1)).takeWhile keep =
      elements.takeWhile keep := by
  induction elements with
  | nil => rfl
  | cons element rest ih =>
    by_cases hkeep : keep element = true
    · simp [hkeep, ih]
    · simp [hkeep]

namespace Query

/-- A stride of zero leads nowhere; everything else may be asked. -/
def IsPosable : Query → Prop
  | .stepBy stride => 1 ≤ stride
  | _ => True

/-- What a list of groups answers to a query. -/
def answerFrom (groups : List Group) : Query → Answer
  | .next => .group groups.head?
  | .nth skipped => .group (groups.drop skipped).head?
  | .last => .group groups.getLast?
  | .take limit => .groups (groups.take limit)
  | .stepBy stride => .groups (strided stride groups)
  | .takeBelow bound => .groups (groups.takeWhile fun group => group.value < bound)
  | .rest => .groups groups
  | .count | .length => .number groups.length

/-- How many groups of a list a query uses up. The group that ends a query for those below a
bound is among them. -/
def used (groups : List Group) : Query → ℕ
  | .next => min 1 groups.length
  | .nth skipped => min (skipped + 1) groups.length
  | .take limit => min limit groups.length
  | .takeBelow bound =>
    min ((groups.takeWhile fun group => group.value < bound).length + 1) groups.length
  | .last | .stepBy _ | .rest | .count => groups.length
  | .length => 0

theorem used_le_length (groups : List Group) (query : Query) :
    query.used groups ≤ groups.length := by
  cases query with
  | next | nth | take | takeBelow => exact Nat.min_le_right _ _
  | last | stepBy | rest | count => exact le_rfl
  | length => exact Nat.zero_le _

end Query

/-! ## Streams -/

namespace DigitStream

/-- The stream that is left when queries were answered one after the other. -/
def afterAll (stream : DigitStream) (queries : List Query) : DigitStream :=
  queries.foldl (fun stream query => (stream.ask query).stream) stream

/-- The groups that answering queries one after the other used up. -/
def usedUp : DigitStream → List Query → List Group
  | _, [] => []
  | stream, query :: queries =>
    (stream.ask query).groups ++ (stream.ask query).stream.usedUp queries

/-- Emissions end with the first group that is not kept, if there is one. -/
theorem pullWhile_eq_pull (keep : Group → Bool) (limit : ℕ) (stream : DigitStream) :
    stream.pullWhile keep limit = stream.pull
      (min ((((stream.pull limit).1.map Emission.group).takeWhile keep).length + 1) limit) := by
  induction limit generalizing stream with
  | zero => rfl
  | succ limit ih =>
    rw [pullWhile, pull_succ]
    cases hnext : stream.next? with
    | none => rw [pull_of_next?_eq_none hnext]
    | some next =>
      obtain ⟨emission, rest⟩ := next
      by_cases hkeep : keep emission.group = true
      · simp [hkeep, ih, pull_succ, hnext]
      · simp [hkeep, pull_succ, hnext]

namespace InRange

variable {stream : DigitStream} (h : InRange stream)

include h

theorem pull_min_length (count : ℕ) :
    stream.pull (min count stream.groups.length) = stream.pull count := by
  rw [h.length_groups, h.pull_min]

theorem pullWhile_remaining (keep : Group → Bool) :
    stream.pullWhile keep stream.remaining.toNat =
      stream.pull ((stream.groups.takeWhile keep).length + 1) := by
  rw [pullWhile_eq_pull, h.pull_min]
  rfl

theorem pullAll_eq : stream.pullAll = stream.pull stream.groups.length := by
  rw [h.length_groups]
  rfl

/-- A query is answered from the groups that are left, and uses up the first of them. -/
theorem ask_eq {query : Query} (hposable : query.IsPosable) :
    stream.ask query =
      { answer := query.answerFrom stream.groups
        emissions := (stream.pull (query.used stream.groups)).1
        stream := (stream.pull (query.used stream.groups)).2 } := by
  cases query with
  | next =>
    rw [ask, replyWith, ← h.take_groups, Query.used, h.pull_min_length, Query.answerFrom,
      List.head?_take, if_neg one_ne_zero]
  | nth skipped =>
    rw [ask, replyWith, ← h.take_groups, Query.used, h.pull_min_length, Query.answerFrom,
      List.head?_drop, List.getElem?_take_of_lt (Nat.lt_add_one skipped)]
  | take count =>
    rw [ask, replyWith, ← h.take_groups, Query.used, h.pull_min_length, Query.answerFrom]
  | takeBelow bound =>
    rw [ask, replyWith, h.pullWhile_remaining, ← h.take_groups, takeWhile_take_succ, Query.used,
      h.pull_min_length, Query.answerFrom]
  | stepBy stride =>
    rw [ask, replyWith, h.pullAll_eq, ← h.take_groups, List.take_length,
      everyNth_eq_strided hposable, Query.answerFrom, Query.used]
  | last | rest | count =>
    rw [ask, replyWith, h.pullAll_eq, ← h.take_groups, List.take_length, Query.answerFrom,
      Query.used]
  | length =>
    rw [ask, Query.answerFrom, Query.used, h.length_groups]
    rfl

theorem groups_ask {query : Query} (hposable : query.IsPosable) :
    (stream.ask query).groups = stream.groups.take (query.used stream.groups) := by
  rw [h.ask_eq hposable, Reply.groups, h.take_groups]

/-- Queries use up the first groups of a stream, and leave what as many emissions leave. -/
theorem afterAll_eq {queries : List Query} (hposable : ∀ query ∈ queries, query.IsPosable) :
    stream.usedUp queries = stream.groups.take (stream.usedUp queries).length ∧
      stream.afterAll queries = (stream.pull (stream.usedUp queries).length).2 := by
  induction queries generalizing stream with
  | nil => exact ⟨List.take_zero.symm, rfl⟩
  | cons query queries ih =>
    have hfirst := hposable query List.mem_cons_self
    obtain ⟨used, hused⟩ : ∃ used, used = query.used stream.groups := ⟨_, rfl⟩
    have hrest : (stream.ask query).stream = (stream.pull used).2 := by
      rw [h.ask_eq hfirst, hused]
    have hlength : (stream.groups.take used).length = used :=
      List.length_take_of_le (hused ▸ query.used_le_length stream.groups)
    obtain ⟨hgroups, hafter⟩ := ih (h.pull used)
      fun query hquery => hposable query (List.mem_cons_of_mem _ hquery)
    rw [← h.drop_groups] at hgroups
    rw [usedUp, afterAll, List.foldl_cons, ← afterAll, hrest, h.groups_ask hfirst, ← hused,
      List.length_append, hlength]
    constructor
    · rw [List.take_add, ← hgroups]
    · rw [hafter, pull_add]

end InRange

/-- A stream at a position of the run of another one: nothing is left of the state but the
position. -/
structure AtPosition (start : DigitStream) (position : ℕ) (stream : DigitStream) : Prop where
  position_le : position ≤ start.groups.length
  stream_eq : stream = (start.pull position).2
  groups_eq : stream.groups = start.groups.drop position
  cursor_eq : stream.cursor.toNat = 14 * (start.groups.length - position)
  -- the number of groups that are left, the bounds on it and what is told of it without using any
  remaining_eq : stream.remaining.toNat = start.groups.length - position
  lower_eq : stream.sizeHint.lower.toNat = start.groups.length - position
  upper_eq : stream.sizeHint.upper.map UInt64.toNat = some (start.groups.length - position)
  length_eq : stream.length.toNat = start.groups.length - position
  -- at the end there is no further group, and asking for one changes nothing
  exhausted : position = start.groups.length →
    stream.ask .next = { answer := .group none, emissions := [], stream }

/-- A reply that is given at a position: the answer and the groups used up are those of the list
from there on, and each of these groups leaves its trace in the log. -/
structure RepliesAt (start : DigitStream) (position : ℕ) (query : Query) (reply : Reply) :
    Prop where
  answer_eq : reply.answer = query.answerFrom (start.groups.drop position)
  groups_eq : reply.groups =
    (start.groups.drop position).take (query.used (start.groups.drop position))
  length_eq : reply.groups.length = query.used (start.groups.drop position)
  level_eq : ∀ event ∈ reply.events, event.level = .trace
  text_eq : ∀ showTime, reply.events.map (Event.text showTime) =
    (reply.groups.zipIdx position).map fun (group, index) =>
      s!"k={14 * (start.groups.length - index)} group={group.text}"
  stream_at : AtPosition start (position + query.used (start.groups.drop position)) reply.stream

namespace Opened

variable {groups position : ℕ} {start : DigitStream} (h : Opened groups start)

include h

theorem atPosition (hle : position ≤ groups) :
    AtPosition start position (start.pull position).2 := by
  have hrange := h.inRange.pull position
  have hremaining : (start.pull position).2.remaining.toNat = start.groups.length - position := by
    rw [h.inRange.remaining_pull, h.remaining_eq, h.length_groups]
  refine
    { position_le := hle.trans_eq h.length_groups.symm
      stream_eq := rfl
      groups_eq := (h.inRange.drop_groups position).symm
      cursor_eq := by rw [h.cursor_pull hle, h.length_groups]
      remaining_eq := hremaining
      lower_eq := hremaining
      upper_eq := congrArg some hremaining
      length_eq := hremaining
      exhausted := ?_ }
  intro hend
  have hnil : (start.pull position).2.groups = [] := by
    rw [← h.inRange.drop_groups, hend, List.drop_length]
  have hposable : Query.IsPosable .next := trivial
  rw [hrange.ask_eq hposable, hnil]
  rfl

theorem repliesAt (hle : position ≤ groups) {query : Query} (hposable : query.IsPosable) :
    RepliesAt start position query ((start.pull position).2.ask query) := by
  have hrange := h.inRange.pull position
  have hgroups := h.inRange.drop_groups position
  have hused := query.used_le_length (start.groups.drop position)
  have hasked := hrange.groups_ask hposable
  rw [← hgroups] at hasked
  refine
    { answer_eq := by rw [hrange.ask_eq hposable, hgroups]
      groups_eq := hasked
      length_eq := by rw [hasked, List.length_take_of_le hused]
      level_eq := ?_
      text_eq := ?_
      stream_at := ?_ }
  · intro event hevent
    obtain ⟨emission, -, rfl⟩ := List.mem_map.mp hevent
    rfl
  · intro showTime
    have hcursor : (start.pull position).2.cursor.toNat + 14 * position =
        14 * start.groups.length := by
      rw [h.cursor_pull hle, h.length_groups]
      omega
    rw [hasked, hgroups, hrange.ask_eq hposable, Reply.events, hrange.fst_pull_eq _ position,
      hcursor, List.map_map, List.map_map]
    refine List.map_congr_left ?_
    rintro ⟨group, index⟩ -
    have hword : (UInt64.ofNat (14 * start.groups.length - 14 * index)).toNat =
        14 * (start.groups.length - index) := by
      have := h.size_le
      rw [UInt64.toNat_ofNat_of_lt' (show _ < 2 ^ 64 by rw [h.length_groups]; omega)]
      omega
    dsimp only
    rw [← hword]
    rfl
  · rw [hrange.ask_eq hposable, ← hgroups]
    have hafter := congrArg Prod.snd
      (pull_add start position (query.used (start.groups.drop position)))
    rw [← hafter]
    refine h.atPosition ?_
    rw [List.length_drop, h.length_groups] at hused
    omega

end Opened

/-- Queries to a stream are queries to a list. Where a number of digits is accepted and there is
room for its table, the stream has a list of groups such that, whatever was asked before, the
stream is at a position of that list and replies to every query from there. The groups used up
are those before the position, and the stream that is left depends on their number alone. -/
theorem queries_simulate_list {room : Option UInt64} {count entries : UInt64}
    (accepted : entriesFor count = .ok entries) (granted : ∀ limit ∈ room, entries ≤ limit) :
    ∃ groups start, groupsFor count = .ok groups ∧ DigitStream.start room count = .ok start ∧
      start.groups.length = groups.toNat ∧
      (∀ queries, (∀ query ∈ queries, query.IsPosable) →
        ∃ position, start.usedUp queries = start.groups.take position ∧
          AtPosition start position (start.afterAll queries) ∧
          ∀ query, query.IsPosable →
            RepliesAt start position query ((start.afterAll queries).ask query)) ∧
      ∀ queries queries', (∀ query ∈ queries, query.IsPosable) →
        (∀ query ∈ queries', query.IsPosable) →
        (start.usedUp queries).length = (start.usedUp queries').length →
          start.afterAll queries = start.afterAll queries' := by
  obtain ⟨groups, start, hgroups, hstart, -, hopened⟩ := exists_opened accepted granted
  refine ⟨groups, start, hgroups, hstart, hopened.length_groups, ?_, ?_⟩
  · intro queries hposable
    obtain ⟨hused, hafter⟩ := hopened.inRange.afterAll_eq hposable
    have hle : (start.usedUp queries).length ≤ groups.toNat := by
      rw [← hopened.length_groups, hused]
      exact List.length_take_le' _ _
    refine ⟨(start.usedUp queries).length, hused, ?_, ?_⟩
    · rw [hafter]
      exact hopened.atPosition hle
    · intro query hquery
      rw [hafter]
      exact hopened.repliesAt hle hquery
  · intro queries queries' hposable hposable' hlength
    rw [(hopened.inRange.afterAll_eq hposable).2, (hopened.inRange.afterAll_eq hposable').2,
      hlength]

/-- Forty digits. The groups below five thousand end at the second, and two more are used up by
asking for the one after the next; the rest is asked for in steps of two. Taking four groups at
once leaves the same stream. -/
theorem queries_simulate_list_forty :
    entriesFor 40 = .ok 141 ∧ start none 40 = .ok (seeded 141) ∧
      (∀ query ∈ [Query.takeBelow 5000, Query.nth 1], query.IsPosable) ∧
      AtPosition (seeded 141) 4 ((seeded 141).afterAll [.takeBelow 5000, .nth 1]) ∧
      (Query.stepBy 2).IsPosable ∧
      RepliesAt (seeded 141) 4 (.stepBy 2)
        (((seeded 141).afterAll [.takeBelow 5000, .nth 1]).ask (.stepBy 2)) ∧
      (∀ query ∈ [Query.take 4], query.IsPosable) ∧
      ((seeded 141).usedUp [.takeBelow 5000, .nth 1]).length =
        ((seeded 141).usedUp [.take 4]).length ∧
      (seeded 141).afterAll [.takeBelow 5000, .nth 1] = (seeded 141).afterAll [.take 4] := by
  have accepted : entriesFor 40 = .ok 141 := by decide
  have granted : ∀ limit ∈ (none : Option UInt64), (141 : UInt64) ≤ limit := by simp
  have hopen : start none 40 = .ok (seeded 141) :=
    start_eq_ok_iff.mpr ⟨141, accepted, granted, rfl⟩
  have hused : ((seeded 141).usedUp [.takeBelow 5000, .nth 1]).length = 4 := by decide +kernel
  have hused' : ((seeded 141).usedUp [.take 4]).length = 4 := by decide +kernel
  have hposable : ∀ query ∈ [Query.takeBelow 5000, Query.nth 1], query.IsPosable := by
    simp [Query.IsPosable]
  have hposable' : ∀ query ∈ [Query.take 4], query.IsPosable := by simp [Query.IsPosable]
  have hstride : (Query.stepBy 2).IsPosable := one_le_two
  obtain ⟨groups, stream, -, hstart, -, hreplies, hsame⟩ :=
    queries_simulate_list accepted granted
  obtain rfl : stream = seeded 141 := Except.ok.inj (hstart.symm.trans hopen)
  obtain ⟨position, htaken, hat, hreply⟩ := hreplies _ hposable
  obtain rfl : position = 4 := by
    rw [htaken, List.length_take_of_le hat.position_le] at hused
    exact hused
  exact ⟨accepted, hopen, hposable, hat, hstride, hreply _ hstride, hposable',
    hused.trans hused'.symm, hsame _ _ hposable hposable' (hused.trans hused'.symm)⟩

end DigitStream

end DecimalPi

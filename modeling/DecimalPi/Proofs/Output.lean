import DecimalPi.Output.Sink
import Mathlib.Data.List.TakeWhile

/-!
# Texts as bytes, and where they go

A text is written as the bytes of its characters. The byte of a line feed stands in them for a
line feed and never for a part of any other character, so lines can be counted in the bytes.

A sink that refuses nothing may still interrupt writes and accept bytes in small portions. In the
end it has all of them, in order, once each.

## Main definitions

* `encoded`: the bytes of a text;
* `IsLine`: bytes with a single line feed, at their end;
* `Sink.Obliging`: the sinks that refuse nothing.

## Main results

* `newline_mem_encoded` and `isLine_encoded`: line feeds are seen in the bytes;
* `newline_notMem_firstLine`: no line feed is left in the first line of a text;
* `Sink.writeText_of_obliging`: a text arrives.
-/

namespace DecimalPi

/-! ## Bytes -/

/-- The bytes of a text. -/
def encoded (text : List Char) : List UInt8 :=
  (String.ofList text).toUTF8.toList

/-- What is left to be collected of an array of bytes comes after what is collected. -/
theorem toList_loop_eq (array : ByteArray) (index : ℕ) (collected : List UInt8) :
    ByteArray.toList.loop array index collected =
      collected.reverse ++ array.data.toList.drop index := by
  fun_induction ByteArray.toList.loop array index collected with
  | case1 index collected hlt ih =>
    have hindex : index < array.data.toList.length := by simpa using hlt
    rw [ih, List.drop_eq_getElem_cons hindex, List.reverse_cons, List.append_assoc,
      List.singleton_append, Array.getElem_toList, ByteArray.get!, getElem!_pos]
  | case2 index collected hge =>
    rw [List.drop_of_length_le (by simpa using hge), List.append_nil]

/-- A text has the bytes of its characters. -/
theorem encoded_eq_flatMap (text : List Char) :
    encoded text = text.flatMap String.utf8EncodeChar := by
  rw [encoded, String.toUTF8_eq_toByteArray, String.toByteArray_ofList, List.utf8Encode,
    ByteArray.toList, toList_loop_eq, List.toList_data_toByteArray, List.reverse_nil,
    List.nil_append, List.drop_zero]

@[simp]
theorem encoded_append (first second : List Char) :
    encoded (first ++ second) = encoded first ++ encoded second := by
  rw [encoded_eq_flatMap, encoded_eq_flatMap, encoded_eq_flatMap, List.flatMap_append]

theorem encoded_newline : encoded ['\n'] = [10] := by
  rw [encoded_eq_flatMap]
  rfl

/-- The byte of a line feed is part of no other character. -/
theorem newline_mem_utf8EncodeChar {character : Char} :
    10 ∈ String.utf8EncodeChar character ↔ character = '\n' := by
  have hcharacter : character = '\n' ↔ character.val.toNat = 10 := by
    rw [Char.ext_iff, ← UInt32.toNat_inj]
    rfl
  have hbyte (number : ℕ) : (10 : UInt8) = UInt8.ofNat number ↔ number % 256 = 10 := by
    rw [← UInt8.toNat_inj, UInt8.toNat_ofNat', eq_comm]
    rfl
  rw [hcharacter, String.utf8EncodeChar]
  split_ifs <;> simp only [List.mem_cons, List.not_mem_nil, or_false, hbyte] <;> omega

theorem newline_mem_encoded {text : List Char} : 10 ∈ encoded text ↔ '\n' ∈ text := by
  rw [encoded_eq_flatMap, List.mem_flatMap]
  simp only [newline_mem_utf8EncodeChar, exists_eq_right]

/-- A line without line feeds in it, and then a line feed. -/
structure IsLine (bytes : List UInt8) : Prop where
  count_eq : bytes.count 10 = 1
  getLast?_eq : bytes.getLast? = some 10

theorem isLine_encoded {text : List Char} (h : '\n' ∉ text) :
    IsLine (encoded (text ++ ['\n'])) where
  count_eq := by
    rw [← newline_mem_encoded] at h
    rw [encoded_append, encoded_newline, List.count_append, List.count_eq_zero_of_not_mem h]
    rfl
  getLast?_eq := by
    rw [encoded_append, encoded_newline, List.getLast?_append]
    rfl

/-! ## Lines -/

/-- The first line begins where the text does. -/
theorem firstLine_isPrefix (text : List Char) : firstLine text <+: text := by
  have hbefore : text.takeWhile (· ≠ '\n') <+: text := List.takeWhile_prefix _
  rw [firstLine]
  cases text.dropWhile (· ≠ '\n') with
  | nil => exact List.prefix_rfl
  | cons _ _ =>
    dsimp only
    rw [withoutReturn]
    split_ifs with hreturn
    · have hwithout := List.dropLast_prefix (text.takeWhile (· ≠ '\n'))
      exact hwithout.trans hbefore
    · exact hbefore

theorem newline_notMem_firstLine (text : List Char) : '\n' ∉ firstLine text := by
  have hbefore : '\n' ∉ text.takeWhile (· ≠ '\n') := by
    intro hmem
    simpa using List.mem_takeWhile_imp hmem
  rw [firstLine]
  cases hrest : text.dropWhile (· ≠ '\n') with
  | nil =>
    -- Where nothing follows the first line feed there is none.
    rw [← List.takeWhile_append_dropWhile (p := (· ≠ '\n')) (l := text), hrest, List.append_nil]
    exact hbefore
  | cons _ _ =>
    rw [withoutReturn]
    split_ifs with hreturn
    · exact fun hmem => hbefore (List.dropLast_subset _ hmem)
    · exact hbefore

/-- A text without line feeds is its own first line. -/
theorem firstLine_eq_self {text : List Char} (h : '\n' ∉ text) : firstLine text = text := by
  have hrest : text.dropWhile (· ≠ '\n') = [] := by
    rw [List.dropWhile_eq_nil_iff]
    intro character hmem
    rw [decide_eq_true_eq]
    exact ne_of_mem_of_not_mem hmem h
  rw [firstLine, hrest]

/-! ## Sinks -/

/-- The bytes that one write accepts. -/
def Attempt.accepts (first : UInt8) (more : List UInt8) : Attempt → List UInt8
  | .interrupted => []
  | .accepted count => first :: more.take count
  | .failed _ => []

namespace Sink

/-- A sink that refuses neither bytes nor flushes. -/
structure Obliging (sink : Sink) : Prop where
  room_eq : sink.room = none
  whenFlushed_eq : sink.whenFlushed = none

/-- One write to an obliging sink does not fail, and the sink stays obliging. -/
theorem write_of_obliging {sink after : Sink} {first : UInt8} {more : List UInt8}
    {attempt : Attempt} (h : sink.Obliging) (hwrite : sink.write first more = (attempt, after)) :
    (∀ failure, attempt ≠ .failed failure) ∧ after.Obliging ∧
      after.written = sink.written ++ attempt.accepts first more := by
  rw [write] at hwrite
  by_cases hinterrupts : 0 < sink.interrupts
  · rw [if_pos hinterrupts] at hwrite
    obtain ⟨rfl, rfl⟩ := Prod.mk.inj hwrite
    exact ⟨by simp, ⟨h.room_eq, h.whenFlushed_eq⟩, (List.append_nil _).symm⟩
  · rw [if_neg hinterrupts, if_neg (by rw [h.room_eq]; simp)] at hwrite
    obtain ⟨rfl, rfl⟩ := Prod.mk.inj hwrite
    exact ⟨by simp, ⟨by simp [h.room_eq], h.whenFlushed_eq⟩, rfl⟩

/-- However often it is interrupted and however little it accepts at once, an obliging sink gets
all bytes in the end. -/
theorem writeAll_of_obliging {sink : Sink} (h : sink.Obliging) (bytes : List UInt8) :
    ∃ after, sink.writeAll bytes = (none, after) ∧ after.Obliging ∧
      after.written = sink.written ++ bytes := by
  fun_induction writeAll sink bytes with
  | case1 sink => exact ⟨sink, rfl, h, (List.append_nil _).symm⟩
  | case2 sink first more after hwrite ih =>
    obtain ⟨-, hafter, hwritten⟩ := write_of_obliging h hwrite
    obtain ⟨last, hlast, hobliging, hall⟩ := ih hafter
    refine ⟨last, hlast, hobliging, ?_⟩
    rw [hall, hwritten, Attempt.accepts, List.append_nil]
  | case3 sink first more count after hwrite ih =>
    obtain ⟨-, hafter, hwritten⟩ := write_of_obliging h hwrite
    obtain ⟨last, hlast, hobliging, hall⟩ := ih hafter
    refine ⟨last, hlast, hobliging, ?_⟩
    rw [hall, hwritten, Attempt.accepts, List.append_assoc, List.cons_append,
      List.take_append_drop]
  | case4 sink first more failure after hwrite =>
    exact absurd rfl ((write_of_obliging h hwrite).1 failure)

/-- A text that is written to an obliging sink arrives. -/
theorem writeText_of_obliging {sink : Sink} (h : sink.Obliging) (text : List Char) :
    ∃ after, sink.writeText text = (none, after) ∧
      after.written = sink.written ++ encoded text := by
  obtain ⟨after, hwrite, hafter, hwritten⟩ := writeAll_of_obliging h (encoded text)
  refine ⟨{ after with flushes := after.flushes + 1 }, ?_, hwritten⟩
  rw [encoded] at hwrite
  simp only [writeText, hwrite, flush, hafter.whenFlushed_eq]

end Sink

end DecimalPi

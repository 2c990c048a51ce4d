import DecimalPi.Audit
import DecimalPi.DigitStream.Basic
import DecimalPi.Proofs.Numerals
import DecimalPi.Run.Outcome
import Mathlib.Algebra.BigOperators.Fin

/-!
# Rendering groups

What is written for groups can be taken apart again. A single group is padded to four characters
and never cut, so that it reads back as itself whatever its value. Where every group is below ten
thousand all of them take four characters, and a text is cut into its groups at fixed places; the
digits then are those of the number that the groups spell in base ten thousand. The other way
round, any text of digits that can be cut into blocks of four was written for one list of groups,
that of its blocks.

## Main definitions

* `blocks`: the blocks of a text;
* `Group.ofBlock`: the group that a block was written for;
* `Group.Encodes`: how a text stands for groups that take a block each.

## Main results

* `Group.blocks_concat`: the blocks of what is written for small groups;
* `Group.concat_map_ofBlock`: a text is what is written for its blocks;
* `Group.rendering_faithful`: single groups, lists of groups in each place where they are written
  one after the other, and texts of digits.
-/

namespace DecimalPi

/-- A text cut after every fourth character. What is left over at the end is a shorter block. -/
def blocks : List Char → List (List Char)
  | a :: b :: c :: d :: rest => [a, b, c, d] :: blocks rest
  | [] => []
  | short => [short]

theorem blocks_append {block : List Char} (h : block.length = 4) (rest : List Char) :
    blocks (block ++ rest) = block :: blocks rest := by
  obtain ⟨a, b, c, d, rfl⟩ := List.length_eq_four.mp h
  rfl

/-- Nothing is lost between blocks. -/
theorem flatten_blocks (text : List Char) : (blocks text).flatten = text := by
  fun_induction blocks text with
  | case1 a b c d rest ih => rw [List.flatten_cons, ih]; rfl
  | case2 => rfl
  | case3 short => exact List.flatten_singleton

theorem mem_of_mem_blocks {text block : List Char} (h : block ∈ blocks text) {character : Char}
    (hmem : character ∈ block) : character ∈ text := by
  rw [← flatten_blocks text]
  exact List.mem_flatten_of_mem h hmem

theorem length_of_mem_blocks {text block : List Char} (hdvd : 4 ∣ text.length)
    (h : block ∈ blocks text) : block.length = 4 := by
  fun_induction blocks text with
  | case1 a b c d rest ih =>
    rcases List.mem_cons.mp h with rfl | hrest
    · rfl
    · exact ih ((Nat.dvd_add_left dvd_rfl).mp hdvd) hrest
  | case2 => exact absurd h List.not_mem_nil
  | case3 short hlong hne =>
    -- what is left over is nothing, or it would be long enough for another block
    have hle : 4 ≤ short.length := Nat.le_of_dvd (List.length_pos_of_ne_nil hne) hdvd
    obtain ⟨a, b, c, d, hblock⟩ :=
      List.length_eq_four.mp (List.length_take_of_le hle)
    refine (hlong a b c d (short.drop 4) ?_).elim
    rw [← List.take_append_drop 4 short, hblock]
    simp

namespace Group

/-- The group that a block was written for. -/
def ofBlock (block : List Char) : Group := ⟨UInt64.ofNat (Nat.ofDigitChars 10 block 0)⟩

/-- A text that stands for groups with a block for each of them. -/
structure Encodes (text : List Char) (groups : List Group) : Prop where
  /-- Every group takes four characters. -/
  length : text.length = 4 * groups.length
  /-- Block by block the text reads as the groups. -/
  blocks : (blocks text).map (fun block => Nat.ofDigitChars 10 block 0) =
    groups.map fun group => group.value.toNat
  /-- As a whole it reads as the number that they are the digits of in base ten thousand. -/
  number : Nat.ofDigitChars 10 text 0 =
    ∑ index : Fin groups.length,
      groups[index].value.toNat * 10000 ^ (groups.length - 1 - index)

/-! ## Single groups -/

/-- Padding is all that is added to the decimal digits. -/
theorem length_digits_eq_max (group : Group) :
    group.digits.length = max 4 (Nat.log 10 group.value.toNat + 1) := by
  rw [digits, List.length_leftpad, length_toDigits]
  rfl

/-- The literal of a group is the group. -/
theorem readUnsigned_digits (group : Group) :
    Literal.readUnsigned group.digits = .ok group.value := by
  have hne : group.digits ≠ [] :=
    List.ne_nil_of_length_pos ((Nat.zero_lt_succ 3).trans_le group.four_le_length_digits)
  have hlimit : Nat.ofDigitChars 10 group.digits 0 ≤ Literal.maxUnsigned := by
    rw [ofDigitChars_digits]
    exact Nat.le_of_lt_succ group.value.toNat_lt
  rw [Literal.readUnsigned_eq_ok hne (fun _ => isDigit_of_mem_digits) hlimit, ofDigitChars_digits,
    UInt64.ofNat_toNat]

theorem ofBlock_digits (group : Group) : ofBlock group.digits = group := by
  rw [ofBlock, ofDigitChars_digits, UInt64.ofNat_toNat]

/-! ## Groups below ten thousand -/

section Small

variable {groups : List Group} (h : ∀ group ∈ groups, group.value.toNat < 10000)

include h

theorem length_concat_of_lt : (concat groups).length = 4 * groups.length := by
  have hnone : groups.countP (fun group => group.value.toNat = 10000) = 0 := by
    rw [List.countP_eq_zero]
    intro group hgroup
    rw [decide_eq_true_eq]
    exact (h group hgroup).ne
  rw [length_concat fun group hgroup => (h group hgroup).le, hnone, Nat.add_zero]

/-- What is written for small groups is cut between them. -/
theorem blocks_concat : blocks (concat groups) = groups.map digits := by
  induction groups with
  | nil => rfl
  | cons group groups ih =>
    have hlength : group.digits.length = 4 := by
      rw [digits_eq_places (h group List.mem_cons_self), length_places]
    rw [concat_cons, blocks_append hlength, List.map_cons,
      ih fun other hother => h other (List.mem_cons_of_mem _ hother)]

theorem map_ofBlock_blocks_concat : (blocks (concat groups)).map ofBlock = groups := by
  rw [blocks_concat h, List.map_map]
  exact List.map_id'' ofBlock_digits groups

/-- Each group counts ten thousand times as much as the one after it. -/
theorem ofDigitChars_concat :
    Nat.ofDigitChars 10 (concat groups) 0 =
      ∑ index : Fin groups.length,
        groups[index].value.toNat * 10000 ^ (groups.length - 1 - index) := by
  induction groups with
  | nil => rfl
  | cons group groups ih =>
    have hrest : ∀ other ∈ groups, other.value.toNat < 10000 :=
      fun other hother => h other (List.mem_cons_of_mem _ hother)
    have hpower : 10 ^ (concat groups).length = 10000 ^ groups.length := by
      rw [length_concat_of_lt hrest, pow_mul]
      rfl
    rw [concat_cons, Nat.ofDigitChars_append, ofDigitChars_digits,
      Nat.ofDigitChars_eq_ofDigitChars_zero, hpower, ih hrest]
    change _ = ∑ index : Fin (groups.length + 1),
      (group :: groups)[index].value.toNat * 10000 ^ (groups.length + 1 - 1 - index)
    rw [Fin.sum_univ_succ, Nat.mul_comm]
    congr 1
    refine Finset.sum_congr rfl fun index _ => ?_
    -- the group at a later index has the same ones after it as in the shorter list
    congr 2
    rw [Fin.val_succ]
    omega

theorem encodes_concat : Encodes (concat groups) groups where
  length := length_concat_of_lt h
  blocks := by
    rw [blocks_concat h, List.map_map]
    exact List.map_congr_left fun group _ => ofDigitChars_digits group
  number := ofDigitChars_concat h

end Small

/-! ## Texts of digits -/

section Block

variable {block : List Char} (hlength : block.length = 4)
  (h : ∀ character ∈ block, character.isDigit)

include hlength h

theorem toNat_value_ofBlock : (ofBlock block).value.toNat = Nat.ofDigitChars 10 block 0 := by
  have hlt := ofDigitChars_lt h
  rw [hlength] at hlt
  exact UInt64.toNat_ofNat_of_lt (hlt.trans (by decide))

theorem toNat_value_ofBlock_lt : (ofBlock block).value.toNat < 10000 := by
  rw [toNat_value_ofBlock hlength h]
  have hlt := ofDigitChars_lt h
  rwa [hlength] at hlt

theorem digits_ofBlock : (ofBlock block).digits = block := by
  rw [digits_eq_places (toNat_value_ofBlock_lt hlength h), toNat_value_ofBlock hlength h, ← hlength,
    places_ofDigitChars h]

end Block

theorem concat_map_ofBlock {text : List Char} (hdvd : 4 ∣ text.length)
    (h : ∀ character ∈ text, character.isDigit) :
    concat ((blocks text).map ofBlock) = text := by
  have hdigits : ∀ block ∈ blocks text, (ofBlock block).digits = block := fun block hblock =>
    digits_ofBlock (length_of_mem_blocks hdvd hblock) fun character hmem =>
      h character (mem_of_mem_blocks hblock hmem)
  rw [concat, List.flatMap_map, List.flatMap_congr hdigits, List.flatMap_id', flatten_blocks]

/-- A text of digits that can be cut into blocks is written for the groups of its blocks only. -/
theorem existsUnique_concat_eq {text : List Char} (hdvd : 4 ∣ text.length)
    (h : ∀ character ∈ text, character.isDigit) :
    ∃! groups, (∀ group ∈ groups, group.value.toNat < 10000) ∧ concat groups = text := by
  refine ⟨(blocks text).map ofBlock, ⟨?_, concat_map_ofBlock hdvd h⟩, ?_⟩
  · intro group hgroup
    obtain ⟨block, hblock, rfl⟩ := List.mem_map.mp hgroup
    exact toNat_value_ofBlock_lt (length_of_mem_blocks hdvd hblock) fun character hmem =>
      h character (mem_of_mem_blocks hblock hmem)
  · rintro groups ⟨hsmall, rfl⟩
    exact (map_ofBlock_blocks_concat hsmall).symm

/-! ## Faithfulness -/

/-- Rendering is a faithful positional encoding. The text of a single group is made of digits, four
or as many as the group has, and reads back as the group, as a numeral and as a literal. Groups
below ten thousand are encoded by what is written for them one after the other, be it as the text
of an outcome, in front of the last group of an audit or as an expansion. And every text of digits
that four divides the length of is the text of exactly one list of such groups. -/
theorem rendering_faithful :
    (∀ group : Group,
      (∀ character ∈ group.text.toList, character.isDigit) ∧
      group.text.length = max 4 (Nat.log 10 group.value.toNat + 1) ∧
      Nat.ofDigitChars 10 group.text.toList 0 = group.value.toNat ∧
      Literal.readUnsigned group.text.toList = .ok group.value) ∧
    (∀ groups : List Group, (∀ group ∈ groups, group.value.toNat < 10000) →
      (∀ stop, Encodes (Outcome.text ⟨groups, stop⟩).toList groups) ∧
      (∀ last, Encodes (trustedDigits (groups ++ [last])) groups) ∧
      (∀ room count stream, DigitStream.start room count = .ok stream → stream.groups = groups →
        ∃ text, expansion room count = .ok text ∧ Encodes text groups)) ∧
    ∀ text : String, (∀ character ∈ text.toList, character.isDigit) → 4 ∣ text.length →
      ∃! groups : List Group, (∀ group ∈ groups, group.value.toNat < 10000) ∧
        ∀ stop, Outcome.text ⟨groups, stop⟩ = text := by
  refine ⟨fun group => ?_, fun groups hsmall => ?_, fun text hdigits hdvd => ?_⟩
  · rw [text, String.toList_ofList, String.length_ofList]
    exact ⟨fun _ => isDigit_of_mem_digits, length_digits_eq_max group, ofDigitChars_digits group,
      readUnsigned_digits group⟩
  · have hencodes := encodes_concat hsmall
    refine ⟨fun stop => ?_, fun last => ?_, fun room count stream hstart hgroups => ?_⟩
    · rwa [Outcome.text, String.toList_ofList]
    · rwa [trustedDigits, List.dropLast_concat]
    · refine ⟨concat groups, ?_, hencodes⟩
      rw [expansion, hstart, ← hgroups]
      rfl
  · rw [← String.length_toList] at hdvd
    obtain ⟨groups, ⟨hsmall, hconcat⟩, hunique⟩ := existsUnique_concat_eq hdvd hdigits
    refine ⟨groups, ⟨hsmall, fun stop => ?_⟩, fun other ⟨hother, htext⟩ => ?_⟩
    · rw [Outcome.text, Outcome.digits, hconcat, String.ofList_toList]
    · refine hunique other ⟨hother, ?_⟩
      rw [← htext .completed, Outcome.text, String.toList_ofList]
      rfl

/-- Zeros in front are kept, a fifth character is not cut off. -/
theorem rendering_faithful_zeros :
    (text ⟨12345⟩ = "12345" ∧ Literal.readUnsigned (text ⟨12345⟩).toList = .ok 12345) ∧
    Encodes "314102880003".toList [⟨3141⟩, ⟨288⟩, ⟨3⟩] ∧
    (∃ text, expansion none 10 = .ok text ∧ Encodes text [⟨3141⟩, ⟨5926⟩, ⟨5358⟩]) ∧
    ∃! groups : List Group, (∀ group ∈ groups, group.value.toNat < 10000) ∧
      ∀ stop, Outcome.text ⟨groups, stop⟩ = "314102880003" := by
  obtain ⟨hsingle, hlists, htexts⟩ := rendering_faithful
  refine ⟨⟨by decide +kernel, (hsingle ⟨12345⟩).2.2.2⟩, ?_, ?_, ?_⟩
  · have htext : Outcome.text ⟨[⟨3141⟩, ⟨288⟩, ⟨3⟩], .completed⟩ = "314102880003" := by
      decide +kernel
    have hencodes := (hlists [⟨3141⟩, ⟨288⟩, ⟨3⟩] (by decide)).1 .completed
    rwa [htext] at hencodes
  · obtain ⟨stream, hstart⟩ : ∃ stream, DigitStream.start none 10 = .ok stream := ⟨_, rfl⟩
    have hgroups : stream.groups = [⟨3141⟩, ⟨5926⟩, ⟨5358⟩] := by
      obtain rfl := Except.ok.inj hstart
      decide +kernel
    exact (hlists _ (by decide)).2.2 none 10 stream hstart hgroups
  · have hdigits : "314102880003".toList.all Char.isDigit = true := by decide
    exact htexts "314102880003" (List.all_eq_true.mp hdigits) (by decide)

end Group

end DecimalPi

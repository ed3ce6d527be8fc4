/-
Places and the lines of a text.

A place that comes of an offset lies on a line of the text, within the units of that line. The
other way, a place on a line leads to an offset on that line as long as the line has so many
units; past its end it leads to the start of the next line, if there is one.
-/

import RubySyntax.Proofs.Editor.Place

namespace RubySyntax

open String (utf8Len)

open TextExtent (ofChars)

variable {before rest chars line : List Char} {char : Char} {position : TextPosition}
  {text : String}

def linesOf (chars : List Char) : List (List Char) :=
  chars.splitOn '\n'

/-- A place on a line of a text, at its end at the farthest. -/
def TextPosition.Within (position : TextPosition) (text : String) : Prop :=
  ∃ line, (linesOf text.toList)[position.line.toNat]? = some line ∧
    position.character.toNat ≤ utf16Length line

namespace LineIndex

theorem linesOf_lineFeed (rest : List Char) : linesOf ('\n' :: rest) = [] :: linesOf rest := by
  unfold linesOf List.splitOn
  rw [List.splitOnP_cons_eq_if_modifyHead, if_pos (beq_self_eq_true '\n')]

theorem exists_linesOf_cons (other : char ≠ '\n') (rest : List Char) :
    ∃ first lines, linesOf rest = first :: lines ∧
      linesOf (char :: rest) = (char :: first) :: lines := by
  obtain ⟨first, lines, split⟩ := List.exists_cons_of_ne_nil (List.splitOn_ne_nil '\n' rest)
  refine ⟨first, lines, split, ?_⟩
  unfold linesOf List.splitOn at *
  rw [List.splitOnP_cons_eq_if_modifyHead, if_neg (by simpa using other), split]
  rfl

/-! ### Places that come of offsets -/

theorem ofChars_within (starts : before <+: chars) :
    ∃ line, (linesOf chars)[(ofChars before).lines]? = some line ∧
      (ofChars before).units ≤ utf16Length line := by
  induction before generalizing chars with
  | nil =>
      obtain ⟨first, lines, split⟩ := List.exists_cons_of_ne_nil (List.splitOn_ne_nil '\n' chars)
      exact ⟨first, congrArg (·[0]?) split, Nat.zero_le _⟩
  | cons char before ih =>
      obtain ⟨rest, rfl⟩ := starts
      obtain ⟨line, found, inside⟩ := ih (List.prefix_append before rest)
      rw [List.cons_append]
      by_cases lineFeed : char = '\n'
      · subst lineFeed
        rw [TextExtent.ofChars_cons_lineFeed, linesOf_lineFeed]
        exact ⟨line, found, inside⟩
      · obtain ⟨first, lines, split, joined⟩ := exists_linesOf_cons lineFeed (before ++ rest)
        rw [TextExtent.ofChars_cons_of_ne lineFeed, joined]
        rw [split] at found
        dsimp only
        cases number : (ofChars before).lines with
        | zero =>
            rw [number] at found
            obtain rfl : first = line := Option.some.inj found
            rw [if_pos rfl]
            refine ⟨char :: first, rfl, ?_⟩
            rw [utf16Length]
            omega
        | succ number' =>
            rw [number] at found
            rw [if_neg (Nat.succ_ne_zero _)]
            exact ⟨line, found, inside⟩

theorem position_within (small : text.utf8ByteSize < UInt32.size) (offset : Nat) :
    ((ofText text).position offset).Within text := by
  obtain ⟨lines, units⟩ := toNat_position small offset
  unfold TextPosition.Within
  rw [lines, units]
  exact ofChars_within (fitting_isPrefix offset text.toList)

/-- A carriage return alone ends no line. -/
example : linesOf "x\r)".toList = ["x\r)".toList] ∧ (ofText "x\r)").position 2 = ⟨0, 2⟩ := by
  decide

/-! ### Offsets that come of places -/

/-- The characters before a place on a line, of the lines that are counted: where there are
enough units on the line they end there, and else where the line does. -/
structure Reaches (number wanted : Nat) (line : List Char) (count : Nat) (before : List Char) :
    Prop where
  inside : wanted ≤ utf16Length line → (ofChars before).lines = number ∧
    wanted ≤ (ofChars before).units ∧ (ofChars before).units ≤ wanted + 1 ∧
      (wanted = 0 → (ofChars before).units = 0)
  past : utf16Length line < wanted → ofChars before =
    if number + 1 < count then ⟨number + 1, 0⟩ else ⟨number, utf16Length line⟩

namespace Reaches

variable {number wanted count : Nat}

theorem nothing (line : List Char) (count : Nat) : Reaches 0 0 line count [] :=
  ⟨fun _ => ⟨rfl, Nat.zero_le _, Nat.zero_le _, fun _ => rfl⟩, nofun⟩

theorem lastLine (wanted : Nat) : Reaches 0 wanted [] 1 [] :=
  ⟨fun within => ⟨rfl, within, Nat.zero_le _, fun _ => rfl⟩, fun _ => rfl⟩

theorem emptyLine (positive : wanted ≠ 0) (more : 1 < count) : Reaches 0 wanted [] count ['\n'] :=
  ⟨fun within => absurd (Nat.le_zero.mp within) positive, fun _ => (if_pos more).symm⟩

theorem lineChar (other : char ≠ '\n') (positive : wanted ≠ 0)
    (reaches : Reaches 0 (wanted - utf16Size char) line count before) :
    Reaches 0 wanted (char :: line) count (char :: before) := by
  have some := TextExtent.utf16Size_pos char
  have two : utf16Size char ≤ 2 := by
    unfold utf16Size
    split <;> decide
  refine ⟨fun within => ?_, fun beyond => ?_⟩
  · rw [utf16Length] at within
    obtain ⟨same, enough, closest, exact⟩ := reaches.inside (by omega)
    rw [TextExtent.ofChars_cons_of_ne other, same, if_pos rfl]
    refine ⟨rfl, ?_, ?_, fun none => absurd none positive⟩
    · dsimp only
      omega
    · dsimp only
      by_cases covered : wanted ≤ utf16Size char
      · have stays := exact (Nat.sub_eq_zero_of_le covered)
        omega
      · omega
  · rw [utf16Length] at beyond ⊢
    rw [TextExtent.ofChars_cons_of_ne other, reaches.past (by omega)]
    split
    · rfl
    · rfl

theorem earlierChar (other : char ≠ '\n')
    (reaches : Reaches (number + 1) wanted line count before) :
    Reaches (number + 1) wanted line count (char :: before) := by
  have later : (ofChars before).lines ≠ 0 := by
    by_cases within : wanted ≤ utf16Length line
    · rw [(reaches.inside within).1]
      exact Nat.succ_ne_zero _
    · rw [reaches.past (Nat.lt_of_not_le within)]
      split
      · exact Nat.succ_ne_zero _
      · exact Nat.succ_ne_zero _
  have same : ofChars (char :: before) = ofChars before := by
    rw [TextExtent.ofChars_cons_of_ne other, if_neg later]
  exact ⟨same.symm ▸ reaches.inside, same.symm ▸ reaches.past⟩

theorem earlierLine (reaches : Reaches number wanted line count before) :
    Reaches (number + 1) wanted line (count + 1) ('\n' :: before) := by
  refine ⟨fun within => ?_, fun beyond => ?_⟩
  · rw [TextExtent.ofChars_cons_lineFeed]
    obtain ⟨same, units⟩ := reaches.inside within
    exact ⟨congrArg Nat.succ same, units⟩
  · rw [TextExtent.ofChars_cons_lineFeed, reaches.past beyond]
    simp only [Nat.add_lt_add_iff_right]
    split
    · rfl
    · rfl

end Reaches

theorem offsetFrom?_line (number wanted : Nat) (found : (linesOf chars)[number]? = some line) :
    ∃ before, before <+: chars ∧ offsetFrom? number wanted chars = some (utf8Len before) ∧
      Reaches number wanted line (linesOf chars).length before := by
  induction chars generalizing number wanted line with
  | nil =>
      cases number with
      | zero =>
          obtain rfl : [] = line := Option.some.inj found
          exact ⟨[], List.prefix_rfl, rfl, .lastLine wanted⟩
      | succ number => cases found
  | cons char rest ih =>
      by_cases lineFeed : char = '\n'
      · subst lineFeed
        rw [linesOf_lineFeed] at found ⊢
        cases number with
        | zero =>
            obtain rfl : [] = line := Option.some.inj found
            rw [offsetFrom?_zero, unitsLength]
            by_cases none : wanted = 0
            · subst none
              exact ⟨[], List.nil_prefix, rfl, .nothing _ _⟩
            · rw [if_neg none, if_pos (beq_self_eq_true '\n')]
              have more : 0 < (linesOf rest).length :=
                List.length_pos_of_ne_nil (List.splitOn_ne_nil '\n' rest)
              exact ⟨['\n'], List.prefix_append ['\n'] rest, rfl,
                .emptyLine none (Nat.succ_lt_succ more)⟩
        | succ number =>
            obtain ⟨before, starts, led, reaches⟩ := ih number wanted found
            refine ⟨'\n' :: before, (List.prefix_cons_inj _).mpr starts, ?_, reaches.earlierLine⟩
            rw [offsetFrom?, if_neg (Nat.succ_ne_zero _), if_pos (beq_self_eq_true '\n'),
              Nat.add_sub_cancel, led, Option.map_some, String.utf8Len_cons, Nat.add_comm]
      · obtain ⟨first, lines, split, joined⟩ := exists_linesOf_cons lineFeed rest
        have plain : ¬(char == '\n') = true := by simpa using lineFeed
        rw [joined] at found ⊢
        rw [split] at ih
        cases number with
        | zero =>
            obtain rfl : char :: first = line := Option.some.inj found
            rw [offsetFrom?_zero, unitsLength]
            by_cases none : wanted = 0
            · subst none
              exact ⟨[], List.nil_prefix, rfl, .nothing _ _⟩
            · obtain ⟨before, starts, led, reaches⟩ :=
                ih 0 (wanted - utf16Size char) rfl
              rw [offsetFrom?_zero, Option.some.injEq] at led
              refine ⟨char :: before, (List.prefix_cons_inj _).mpr starts, ?_,
                reaches.lineChar lineFeed none⟩
              rw [if_neg none, if_neg plain, led, String.utf8Len_cons, Nat.add_comm]
        | succ number =>
            obtain ⟨before, starts, led, reaches⟩ :=
              ih (number + 1) wanted found
            refine ⟨char :: before, (List.prefix_cons_inj _).mpr starts, ?_,
              reaches.earlierChar lineFeed⟩
            rw [offsetFrom?, if_neg (Nat.succ_ne_zero _), if_neg plain, led, Option.map_some,
              String.utf8Len_cons, Nat.add_comm]

/-- A place on a line leads to an offset. It is one on that line as long as the line has the
units that are asked for, and else the start of the next line or the end of the text. -/
theorem offset?_line (small : text.utf8ByteSize < UInt32.size)
    (found : (linesOf text.toList)[position.line.toNat]? = some line) :
    ∃ offset, (ofText text).offset? position = some offset ∧
      (position.character.toNat ≤ utf16Length line →
        ((ofText text).position offset).line = position.line ∧
          position.character.toNat ≤ ((ofText text).position offset).character.toNat ∧
            ((ofText text).position offset).character.toNat ≤ position.character.toNat + 1) ∧
      (utf16Length line < position.character.toNat → (ofText text).position offset =
        if position.line.toNat + 1 < (linesOf text.toList).length then ⟨position.line + 1, 0⟩
        else ⟨position.line, .ofNat (utf16Length line)⟩) := by
  obtain ⟨before, starts, led, reaches⟩ :=
    offsetFrom?_line position.line.toNat position.character.toNat found
  refine ⟨utf8Len before, (offset?_eq text position).trans led, fun within => ?_,
    fun beyond => ?_⟩
  · obtain ⟨lines, units⟩ := toNat_position small (utf8Len before)
    rw [fitting_utf8Len starts] at lines units
    obtain ⟨same, enough, closest, -⟩ := reaches.inside within
    rw [units, ← UInt32.toNat_inj, lines]
    exact ⟨same, enough, closest⟩
  · rw [position_eq, fitting_utf8Len starts, reaches.past beyond, TextExtent.position]
    split
    · exact congrArg (TextPosition.mk · 0) (UInt32.toNat_inj.mp (by simp))
    · exact congrArg (TextPosition.mk · _) (UInt32.ofNat_toNat)

example : (ofText "a\nb").offset? ⟨0, 5⟩ = some 2 ∧ (ofText "a\nb").position 2 = ⟨1, 0⟩ := by
  decide

end LineIndex

end RubySyntax

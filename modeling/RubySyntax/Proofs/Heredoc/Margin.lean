/-
The margin of a text: the indentation that its lines share.

Blanks are as wide as the column that they reach. A line that holds nothing else does
not count. The margin is found and taken off in two passes over the bytes of each line;
here both are what they should be: the least column among the lines, and the longest row
of blanks within it.
-/

import Mathlib.Data.Nat.Find
import RubySyntax.Proofs.Reading.Token

namespace RubySyntax

namespace Margin

def isBlank (byte : Byte) : Bool :=
  byte == 0x20 || byte == 0x09

def blanks (line : Bytes) : Bytes :=
  line.takeWhile isBlank

/-- A blank is one column wide, and a tab goes on to the next multiple of eight. -/
def columnAfter (column : Nat) (byte : Byte) : Nat :=
  if byte = 0x09 then column + (8 - column % 8) else column + 1

def columnFrom (column : Nat) (blanks : Bytes) : Nat :=
  blanks.foldl columnAfter column

def isEmpty (line : Bytes) : Bool :=
  line.dropWhile isBlank == [] || line.dropWhile isBlank == [0x0D]

def of? (lines : List Bytes) : Option Nat :=
  ((lines.filter fun line => !isEmpty line).map fun line => columnFrom 0 (blanks line)).min?

def depth (column margin : Nat) (line : Bytes) : Nat :=
  Nat.findGreatest (fun count => columnFrom column ((blanks line).take count) ≤ margin)
    (blanks line).length

def strip (margin : Nat) (line : Bytes) : Bytes :=
  line.drop (depth 0 margin line)

/-- Lines without their margin; if all of them are empty, they stay as they are. -/
def stripAll (lines : List Bytes) : List Bytes :=
  match of? lines with
  | none => lines
  | some margin => lines.map (strip margin)

/-! ### Finding the margin -/

theorem columnFrom_cons (column : Nat) (byte : Byte) (more : Bytes) :
    columnFrom column (byte :: more) = columnFrom (columnAfter column byte) more :=
  rfl

theorem lt_columnAfter (column : Nat) (byte : Byte) : column < columnAfter column byte := by
  unfold columnAfter
  split <;> omega

theorem le_columnFrom (column : Nat) (blanks : Bytes) : column ≤ columnFrom column blanks := by
  induction blanks generalizing column with
  | nil => exact Nat.le_refl column
  | cons byte more ih =>
      rw [columnFrom_cons]
      exact Nat.le_trans (Nat.le_of_lt (lt_columnAfter column byte)) (ih _)

theorem tabStop_eq (column : Nat) : Heredoc.tabStop column = columnAfter column 0x09 := by
  unfold Heredoc.tabStop columnAfter
  rw [if_pos rfl]
  omega

theorem isBlank_iff {byte : Byte} : isBlank byte = true ↔ byte = 0x20 ∨ byte = 0x09 := by
  simp [isBlank]

theorem blanks_cons {byte : Byte} (blank : isBlank byte = true) (more : Bytes) :
    blanks (byte :: more) = byte :: blanks more := by
  rw [blanks, List.takeWhile_cons, if_pos blank]
  rfl

theorem blanks_solid {byte : Byte} (solid : isBlank byte = false) (more : Bytes) :
    blanks (byte :: more) = [] := by
  rw [blanks, List.takeWhile_cons, if_neg (by rw [solid]; decide)]

theorem isEmpty_cons {byte : Byte} (blank : isBlank byte = true) (more : Bytes) :
    isEmpty (byte :: more) = isEmpty more := by
  simp only [isEmpty, List.dropWhile_cons, blank, if_true]

theorem isEmpty_solid {byte : Byte} (solid : isBlank byte = false) (more : Bytes) :
    isEmpty (byte :: more) = (byte :: more == [0x0D]) := by
  simp [isEmpty, solid]

theorem indentFrom?_solid {byte : Byte} (solid : isBlank byte = false) (more : Bytes)
    (goesOn : byte ≠ 0x0A) (noReturn : byte ≠ 0x0D) (column : Nat) :
    Heredoc.indentFrom? column (byte :: more) = some column := by
  have other {char : Byte} (different : byte ≠ char) : byte.char ≠ char.char :=
    fun same => different (Byte.char_injective same)
  have notBlank : ¬(byte = 0x20 ∨ byte = 0x09) := by
    rw [← isBlank_iff, solid]
    decide
  rw [not_or] at notBlank
  unfold Heredoc.indentFrom?
  split
  · next same => exact absurd same (other notBlank.1)
  · next same => exact absurd same (other notBlank.2)
  · next same => exact absurd same (other goesOn)
  · next same => exact absurd same (other noReturn)
  · rfl

/-- A line that is not empty is indented as far as its blanks reach. -/
theorem indentFrom?_line {line : Bytes} (whole : 0x0A ∉ line) (column : Nat) :
    Heredoc.indentFrom? column (line ++ [0x0A]) =
      if isEmpty line then none else some (columnFrom column (blanks line)) := by
  induction line generalizing column with
  | nil => rfl
  | cons byte more ih =>
      have rest := ih fun member => whole (List.mem_cons_of_mem _ member)
      cases blank : isBlank byte with
      | true =>
          rw [isEmpty_cons blank, blanks_cons blank, columnFrom_cons, ← rest]
          rcases isBlank_iff.mp blank with rfl | rfl
          · rfl
          · rw [← tabStop_eq]
            rfl
      | false =>
          have goesOn : byte ≠ 0x0A := fun same => whole (same ▸ List.mem_cons_self)
          rw [isEmpty_solid blank, blanks_solid blank]
          by_cases ending : byte = 0x0D
          · subst ending
            cases more with
            | nil => rfl
            | cons second others =>
                have goesOn : second ≠ 0x0A := fun same => whole (by simp [same])
                change (if some second == some 0x0A then none else some column) = _
                simp [goesOn, columnFrom]
          · rw [List.cons_append, indentFrom?_solid blank _ goesOn ending]
            simp [ending, columnFrom]

/-- The margin is found from the lines with their line feeds. -/
theorem of?_eq {lines : List Bytes} (whole : ∀ line ∈ lines, 0x0A ∉ line) :
    ((lines.map (· ++ [0x0A])).filterMap Heredoc.indent?).min? = of? lines := by
  have each : (lines.map (· ++ [0x0A])).filterMap Heredoc.indent? =
      (lines.filter fun line => !isEmpty line).map fun line => columnFrom 0 (blanks line) := by
    induction lines with
    | nil => rfl
    | cons line more ih =>
        have rest := ih fun line member => whole line (List.mem_cons_of_mem _ member)
        have first := indentFrom?_line (whole line List.mem_cons_self) 0
        rw [List.map_cons, List.filterMap_cons, Heredoc.indent?, first, rest, List.filter_cons]
        cases isEmpty line <;> rfl
  rw [each, of?]

/-! ### Taking it off -/

theorem depth_solid {byte : Byte} (solid : isBlank byte = false) (column margin : Nat)
    (more : Bytes) : depth column margin (byte :: more) = 0 := by
  rw [depth, blanks_solid solid]
  rfl

/-- A search for the greatest number that starts at one instead of zero. -/
theorem findGreatest_succ_of_one {holds : Nat → Prop} [DecidablePred holds] (one : holds 1)
    (bound : Nat) :
    Nat.findGreatest holds (bound + 1) =
      Nat.findGreatest (fun count => holds (count + 1)) bound + 1 := by
  induction bound with
  | zero => exact Nat.findGreatest_eq one
  | succ bound ih =>
      rw [Nat.findGreatest_succ, ih, Nat.findGreatest_succ]
      split <;> rfl

/-- The first blank is within the margin, or none is. -/
theorem depth_cons {byte : Byte} (blank : isBlank byte = true) (column margin : Nat)
    (more : Bytes) :
    depth column margin (byte :: more) =
      if columnAfter column byte ≤ margin then depth (columnAfter column byte) margin more + 1
      else 0 := by
  have further (count : Nat) :
      columnFrom column ((byte :: blanks more).take (count + 1)) =
        columnFrom (columnAfter column byte) ((blanks more).take count) := by
    rw [List.take_succ_cons, columnFrom_cons]
  unfold depth
  rw [blanks_cons blank, List.length_cons]
  split
  · next within =>
    rw [findGreatest_succ_of_one (by rw [further]; exact within)]
    simp only [further]
  · next beyond =>
    refine Nat.findGreatest_eq_zero_iff.mpr fun count positive _ reaches => beyond ?_
    obtain ⟨count, rfl⟩ := Nat.exists_eq_succ_of_ne_zero (Nat.ne_of_gt positive)
    rw [Nat.succ_eq_add_one, further] at reaches
    exact Nat.le_trans (le_columnFrom _ _) reaches

/-- A blank is passed over if the column after it is within the margin. -/
theorem stripFrom_cons {byte : Byte} (blank : isBlank byte = true) (column margin : Nat)
    (more : Bytes) :
    Heredoc.stripFrom column margin (byte :: more) =
      if columnAfter column byte ≤ margin then
        Heredoc.stripFrom (columnAfter column byte) margin more
      else byte :: more := by
  have guard : (decide (column < margin) && decide (columnAfter column byte ≤ margin)) =
      decide (columnAfter column byte ≤ margin) := by
    by_cases fits : columnAfter column byte ≤ margin
    · simp [fits, Nat.lt_of_lt_of_le (lt_columnAfter column byte) fits]
    · simp [fits]
  rcases isBlank_iff.mp blank with rfl | rfl
  · change (if (decide (column < margin) && decide (columnAfter column 0x20 ≤ margin)) = true
      then _ else _) = _
    rw [guard]
    simp only [decide_eq_true_eq]
    rfl
  · rw [← tabStop_eq] at guard ⊢
    change (if (decide (column < margin) && decide (Heredoc.tabStop column ≤ margin)) = true
      then _ else _) = _
    rw [guard]
    simp only [decide_eq_true_eq]

theorem stripFrom_solid {byte : Byte} (solid : isBlank byte = false) (column margin : Nat)
    (more : Bytes) : Heredoc.stripFrom column margin (byte :: more) = byte :: more := by
  have notBlank : ¬(byte = 0x20 ∨ byte = 0x09) := by
    rw [← isBlank_iff, solid]
    decide
  rw [not_or] at notBlank
  have other {char : Byte} (different : byte ≠ char) : byte.char ≠ char.char :=
    fun same => different (Byte.char_injective same)
  unfold Heredoc.stripFrom
  split
  · next same => exact absurd same (other notBlank.1)
  · next same => exact absurd same (other notBlank.2)
  · rfl

/-- The blanks that are passed over are the longest row within the margin. -/
theorem stripFrom_line (column margin : Nat) (line : Bytes) :
    Heredoc.stripFrom column margin (line ++ [0x0A]) =
      line.drop (depth column margin line) ++ [0x0A] := by
  induction line generalizing column with
  | nil => rfl
  | cons byte more ih =>
      cases blank : isBlank byte with
      | true =>
          rw [List.cons_append, stripFrom_cons blank, depth_cons blank]
          split
          · rw [ih, List.drop_succ_cons]
          · rfl
      | false =>
          rw [List.cons_append, stripFrom_solid blank, depth_solid blank, List.drop_zero,
            List.cons_append]

theorem stripAll_eq {lines : List Bytes} (whole : ∀ line ∈ lines, 0x0A ∉ line) :
    (match ((lines.map (· ++ [0x0A])).filterMap Heredoc.indent?).min? with
      | none => lines.map (· ++ [0x0A])
      | some margin => (lines.map (· ++ [0x0A])).map (Heredoc.strip margin)) =
      (stripAll lines).map (· ++ [0x0A]) := by
  rw [of?_eq whole, stripAll]
  cases of? lines with
  | none => rfl
  | some margin =>
      simp only [List.map_map]
      exact List.map_congr_left fun line _ => stripFrom_line 0 margin line

end Margin

end RubySyntax

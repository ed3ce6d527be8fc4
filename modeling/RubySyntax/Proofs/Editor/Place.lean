/-
Places in a text and byte offsets.

What a text is long in lines and units is that of its parts, where a part with a line feed
forgets the units before. The place that the table of line starts gives for an offset is the
length of the characters before it, and leads back to where the last of them ends. Both hold of
every text, with numbers that wrap; in a text of fewer than 2^32 bytes none of them does.
-/

import Mathlib.Data.String.Basic
import Mathlib.Order.Bounds.Basic
import RubySyntax.Editor.LineIndex

namespace RubySyntax

open String (utf8Len)

/-! ### Places that add up -/

structure TextExtent where
  lines : Nat
  units : Nat

namespace TextExtent

variable {char : Char} {before after rest chars : List Char}

instance : Add TextExtent where
  add first second :=
    if second.lines = 0 then ⟨first.lines, first.units + second.units⟩
    else ⟨first.lines + second.lines, second.units⟩

instance : LE TextExtent where
  le first second :=
    first.lines < second.lines ∨ first.lines = second.lines ∧ first.units ≤ second.units

theorem add_def (first second : TextExtent) : first + second =
    if second.lines = 0 then ⟨first.lines, first.units + second.units⟩
    else ⟨first.lines + second.lines, second.units⟩ := rfl

theorem le_def {first second : TextExtent} : first ≤ second ↔
    first.lines < second.lines ∨ first.lines = second.lines ∧ first.units ≤ second.units :=
  Iff.rfl

theorem lines_add (first second : TextExtent) :
    (first + second).lines = first.lines + second.lines := by
  rw [add_def]
  split
  · next none => exact (Nat.add_eq_left.mpr none).symm
  · rfl

theorem zero_add (extent : TextExtent) : ⟨0, 0⟩ + extent = extent := by
  rw [add_def]
  split
  · next none =>
      rw [Nat.zero_add, ← none]
  · rw [Nat.zero_add]

theorem add_assoc (first second third : TextExtent) :
    first + second + third = first + (second + third) := by
  have lines := lines_add second third
  rw [add_def (first + second), add_def first (second + third), lines, lines_add first]
  by_cases last : third.lines = 0
  · rw [if_pos last, last, Nat.add_zero, add_def first, add_def second, if_pos last]
    split
    · next none => rw [none, Nat.add_zero, Nat.add_assoc]
    · rfl
  · rw [if_neg last, if_neg (by omega), add_def second, if_neg last, Nat.add_assoc]

theorem le_add (first second : TextExtent) : first ≤ first + second := by
  rw [le_def, add_def]
  split
  · exact .inr ⟨rfl, Nat.le_add_right _ _⟩
  · next lines => exact .inl (Nat.lt_add_of_pos_right (Nat.pos_of_ne_zero lines))

def ofChar (char : Char) : TextExtent :=
  if char == '\n' then ⟨1, 0⟩ else ⟨0, utf16Size char⟩

def ofChars : List Char → TextExtent
  | [] => ⟨0, 0⟩
  | char :: rest => ofChar char + ofChars rest

theorem ofChars_append (before after : List Char) :
    ofChars (before ++ after) = ofChars before + ofChars after := by
  induction before with
  | nil => exact (zero_add _).symm
  | cons char rest ih => rw [List.cons_append, ofChars, ih, ofChars, add_assoc]

theorem ofChars_mono (starts : before <+: chars) : ofChars before ≤ ofChars chars := by
  obtain ⟨rest, rfl⟩ := starts
  rw [ofChars_append]
  exact le_add _ _

theorem ofChars_cons_lineFeed (rest : List Char) :
    ofChars ('\n' :: rest) = ⟨(ofChars rest).lines + 1, (ofChars rest).units⟩ := by
  rw [ofChars, add_def]
  change (if (ofChars rest).lines = 0 then (⟨1, 0 + (ofChars rest).units⟩ : TextExtent)
    else ⟨1 + (ofChars rest).lines, (ofChars rest).units⟩) = _
  split
  · next none => rw [none, Nat.zero_add]
  · rw [Nat.add_comm 1]

theorem ofChars_cons_of_ne (other : char ≠ '\n') (rest : List Char) :
    ofChars (char :: rest) = ⟨(ofChars rest).lines, if (ofChars rest).lines = 0
      then utf16Size char + (ofChars rest).units else (ofChars rest).units⟩ := by
  rw [ofChars, ofChar, if_neg (by simpa using other), add_def]
  split
  · next none => rw [none]
  · rw [Nat.zero_add]

theorem utf16Size_pos (char : Char) : 0 < utf16Size char := by
  unfold utf16Size
  split <;> decide

theorem utf16Size_le (char : Char) : utf16Size char ≤ char.utf8Size := by
  have positive := char.utf8Size_pos
  unfold utf16Size
  split
  · exact positive
  · next wide =>
      unfold Char.utf8Size
      simp only [UInt32.lt_iff_toNat_lt, UInt32.le_iff_toNat_le] at wide ⊢
      simp at wide ⊢
      grind

/-- A text has no more lines, and no more units on its last one, than bytes. -/
theorem ofChars_le (chars : List Char) :
    (ofChars chars).lines ≤ utf8Len chars ∧ (ofChars chars).units ≤ utf8Len chars := by
  induction chars with
  | nil => exact ⟨Nat.le_refl _, Nat.le_refl _⟩
  | cons char rest ih =>
      have positive := char.utf8Size_pos
      have narrow := utf16Size_le char
      rw [String.utf8Len_cons]
      by_cases lineFeed : char = '\n'
      · subst lineFeed
        rw [ofChars_cons_lineFeed]
        dsimp only
        omega
      · rw [ofChars_cons_of_ne lineFeed]
        dsimp only
        split <;> omega

def position (extent : TextExtent) : TextPosition :=
  ⟨.ofNat extent.lines, .ofNat extent.units⟩

end TextExtent

open TextExtent (ofChars)

instance : LE TextPosition where
  le first second :=
    first.line < second.line ∨ first.line = second.line ∧ first.character ≤ second.character

theorem TextPosition.le_def {first second : TextPosition} : first ≤ second ↔
    first.line < second.line ∨
      first.line = second.line ∧ first.character ≤ second.character :=
  Iff.rfl

namespace LineIndex

variable {char : Char} {before after rest chars : List Char} {bytes more : Nat} {text : String}

/-! ### Characters that fit -/

/-- The characters at the start of a text that fit in a number of bytes. -/
def fitting (bytes : Nat) : List Char → List Char
  | [] => []
  | char :: rest =>
      if char.utf8Size ≤ bytes then char :: fitting (bytes - char.utf8Size) rest else []

theorem fitting_isPrefix (bytes : Nat) (chars : List Char) : fitting bytes chars <+: chars := by
  fun_induction fitting bytes chars with
  | case1 => exact List.prefix_rfl
  | case2 bytes char rest fits ih => exact (List.prefix_cons_inj char).mpr ih
  | case3 => exact List.nil_prefix

theorem utf8Len_fitting_le (bytes : Nat) (chars : List Char) :
    utf8Len (fitting bytes chars) ≤ bytes := by
  fun_induction fitting bytes chars with
  | case1 => exact Nat.zero_le _
  | case2 bytes char rest fits ih =>
      rw [String.utf8Len_cons]
      omega
  | case3 => exact Nat.zero_le _

theorem isPrefix_fitting (starts : before <+: chars) (fits : utf8Len before ≤ bytes) :
    before <+: fitting bytes chars := by
  induction before generalizing chars bytes with
  | nil => exact List.nil_prefix
  | cons char before ih =>
      obtain ⟨rest, rfl⟩ := starts
      rw [String.utf8Len_cons] at fits
      rw [List.cons_append, fitting, if_pos (by omega)]
      exact (List.prefix_cons_inj char).mpr (ih (List.prefix_append before rest) (by omega))

theorem fitting_mono (fewer : bytes ≤ more) (chars : List Char) :
    fitting bytes chars <+: fitting more chars :=
  isPrefix_fitting (fitting_isPrefix bytes chars)
    (Nat.le_trans (utf8Len_fitting_le bytes chars) fewer)

theorem fitting_utf8Len (starts : before <+: chars) :
    fitting (utf8Len before) chars = before := by
  have within := isPrefix_fitting starts (Nat.le_refl _)
  obtain ⟨rest, whole⟩ := within
  have size := utf8Len_fitting_le (utf8Len before) chars
  rw [← whole, String.utf8Len_append] at size
  cases rest with
  | nil => rw [← whole, List.append_nil]
  | cons char rest =>
      have positive := char.utf8Size_pos
      rw [String.utf8Len_cons] at size
      omega

theorem fitting_min (bytes : Nat) (chars : List Char) :
    fitting (min bytes (utf8Len chars)) chars = fitting bytes chars := by
  have size := utf8Len_fitting_le bytes chars
  have starts := fitting_isPrefix bytes chars
  have inside : utf8Len (fitting bytes chars) ≤ utf8Len chars := by
    obtain ⟨rest, whole⟩ := starts
    conv_rhs => rw [← whole, String.utf8Len_append]
    exact Nat.le_add_right _ _
  exact (fitting_mono (Nat.min_le_left _ _) chars).eq_of_length_le
    (isPrefix_fitting starts (Nat.le_min.mpr ⟨size, inside⟩)).length_le

theorem utf8Len_toList (text : String) : utf8Len text.toList = text.utf8ByteSize := by
  rw [← String.utf8ByteSize_ofList, String.ofList_toList]

theorem isValid_iff_exists {offset : Nat} :
    (⟨offset⟩ : String.Pos.Raw).IsValid text ↔
      ∃ before, before <+: text.toList ∧ utf8Len before = offset := by
  rw [String.Pos.Raw.isValid_iff_exists_append]
  constructor
  · rintro ⟨first, second, rfl, same⟩
    refine ⟨first.toList, ?_, ?_⟩
    · rw [String.toList_append]
      exact List.prefix_append _ _
    · rw [utf8Len_toList]
      exact (congrArg String.Pos.Raw.byteIdx same).symm
  · rintro ⟨before, ⟨after, whole⟩, rfl⟩
    refine ⟨String.ofList before, String.ofList after, ?_, ?_⟩
    · rw [← String.ofList_append, whole, String.ofList_toList]
    · rw [String.rawEndPos, String.utf8ByteSize_ofList]

/-- The characters that fit end at the greatest boundary that is not above. -/
theorem fitting_isGreatest (text : String) (offset : Nat) :
    IsGreatest {bytes | bytes ≤ min offset text.utf8ByteSize ∧
      (⟨bytes⟩ : String.Pos.Raw).IsValid text} (utf8Len (fitting offset text.toList)) := by
  have starts := fitting_isPrefix offset text.toList
  refine ⟨⟨?_, isValid_iff_exists.mpr ⟨_, starts, rfl⟩⟩, ?_⟩
  · rw [← utf8Len_toList, ← fitting_min]
    exact utf8Len_fitting_le _ _
  · rintro bytes ⟨below, valid⟩
    obtain ⟨before, starts, rfl⟩ := isValid_iff_exists.mp valid
    obtain ⟨rest, whole⟩ := isPrefix_fitting starts (Nat.le_trans below (Nat.min_le_left _ _))
    rw [← whole, String.utf8Len_append]
    exact Nat.le_add_right _ _

theorem floorOffset_isGreatest (text : String) (offset : Nat) :
    IsGreatest {bytes | bytes ≤ offset ∧ (⟨bytes⟩ : String.Pos.Raw).IsValid text}
      (floorOffset text offset) := by
  induction offset with
  | zero =>
      refine ⟨⟨Nat.le_refl _, isValid_iff_exists.mpr ⟨[], List.nil_prefix, rfl⟩⟩, ?_⟩
      exact fun bytes below => below.1
  | succ offset ih =>
      unfold floorOffset
      split
      · next valid =>
          exact ⟨⟨Nat.le_refl _, String.Pos.Raw.isValid_eq_true_iff.mp valid⟩,
            fun bytes below => below.1⟩
      · next cut =>
          refine ⟨⟨Nat.le_succ_of_le ih.1.1, ih.1.2⟩, fun bytes below => ih.2 ⟨?_, below.2⟩⟩
          rcases Nat.lt_or_eq_of_le below.1 with less | rfl
          · exact Nat.le_of_lt_succ less
          · exact absurd (String.Pos.Raw.isValid_eq_true_iff.mpr below.2) cut

theorem floorOffset_eq (text : String) (offset : Nat) :
    floorOffset text (min offset text.utf8ByteSize) = utf8Len (fitting offset text.toList) :=
  (floorOffset_isGreatest text _).unique (fitting_isGreatest text offset)

/-! ### From offsets to places -/

theorem lt_of_mem_startsFrom {base start : Nat} (listed : start ∈ startsFrom base chars) :
    base < start := by
  induction chars generalizing base with
  | nil => cases listed
  | cons char rest ih =>
      have positive := char.utf8Size_pos
      unfold startsFrom at listed
      split at listed
      · rcases List.mem_cons.mp listed with rfl | later
        · omega
        · have := ih later
          omega
      · have := ih listed
        omega

theorem countP_startsFrom (base bytes : Nat) (chars : List Char) :
    (startsFrom base chars).countP (· ≤ base + bytes) = (ofChars (fitting bytes chars)).lines := by
  induction chars generalizing base bytes with
  | nil => rfl
  | cons char rest ih =>
      rw [fitting]
      by_cases fits : char.utf8Size ≤ bytes
      · have whole : base + bytes = base + char.utf8Size + (bytes - char.utf8Size) := by omega
        rw [if_pos fits, startsFrom]
        by_cases lineFeed : char = '\n'
        · subst lineFeed
          rw [if_pos (beq_self_eq_true _), List.countP_cons_of_pos (by simpa using fits), whole,
            ih, TextExtent.ofChars_cons_lineFeed]
        · rw [if_neg (by simpa using lineFeed), whole, ih,
            TextExtent.ofChars_cons_of_ne lineFeed]
      · rw [if_neg fits]
        refine List.countP_eq_zero.mpr fun start listed within => ?_
        have within := of_decide_eq_true within
        unfold startsFrom at listed
        split at listed
        · rcases List.mem_cons.mp listed with rfl | later
          · omega
          · have := lt_of_mem_startsFrom later
            omega
        · have := lt_of_mem_startsFrom listed
          omega

/-- The last line of the characters at the start of a text begins where the table says. -/
theorem exists_lastLine (base : Nat) (starts : before <+: chars) :
    ∃ earlier line, before = earlier ++ line ∧
      (base :: startsFrom base chars)[(ofChars before).lines]? = some (base + utf8Len earlier) ∧
      ((ofChars before).lines = 0 → earlier = []) ∧
      (ofChars before).units = utf16Length line := by
  induction before generalizing chars base with
  | nil => exact ⟨[], [], rfl, rfl, fun _ => rfl, rfl⟩
  | cons char before ih =>
      obtain ⟨rest, rfl⟩ := starts
      obtain ⟨earlier, line, rfl, found, first, units⟩ :=
        ih (base + char.utf8Size) (List.prefix_append before rest)
      have size : base + char.utf8Size + utf8Len earlier = base + utf8Len (char :: earlier) := by
        rw [String.utf8Len_cons]
        omega
      rw [List.cons_append, startsFrom]
      by_cases lineFeed : char = '\n'
      · subst lineFeed
        rw [if_pos (beq_self_eq_true _), TextExtent.ofChars_cons_lineFeed]
        exact ⟨'\n' :: earlier, line, rfl, found.trans (congrArg some size),
          fun none => absurd none (Nat.succ_ne_zero _), units⟩
      · rw [if_neg (by simpa using lineFeed), TextExtent.ofChars_cons_of_ne lineFeed]
        dsimp only
        by_cases none : (ofChars (earlier ++ line)).lines = 0
        · obtain rfl := first none
          rw [if_pos none, none]
          exact ⟨[], char :: line, rfl, rfl, fun _ => rfl,
            congrArg (utf16Size char + ·) units⟩
        · rw [if_neg none]
          obtain ⟨number, next⟩ := Nat.exists_eq_succ_of_ne_zero none
          rw [next] at found ⊢
          exact ⟨char :: earlier, line, rfl, found.trans (congrArg some size),
            fun zero => absurd zero (Nat.succ_ne_zero _), units⟩

theorem extract_append (before line after : List Char)
    (whole : text.toList = before ++ line ++ after) :
    String.Pos.Raw.extract text ⟨utf8Len before⟩ ⟨utf8Len before + utf8Len line⟩ =
      String.ofList line := by
  have same : String.ofList (before ++ line ++ after) = text := by
    rw [← whole, String.ofList_toList]
  rw [← same]
  exact String.extract_of_valid before line after

/-- The place of an offset in a text is how long the characters are that fit before it. -/
theorem position_eq (text : String) (offset : Nat) :
    (ofText text).position offset = (ofChars (fitting offset text.toList)).position := by
  obtain ⟨earlier, line, whole, found, -, units⟩ :=
    exists_lastLine 0 (fitting_isPrefix offset text.toList)
  have counted : ((0 :: startsFrom 0 text.toList).toArray.countP
      (· ≤ min offset text.utf8ByteSize)) - 1 = (ofChars (fitting offset text.toList)).lines := by
    have count := countP_startsFrom 0 (min offset text.utf8ByteSize) text.toList
    rw [← utf8Len_toList, fitting_min, Nat.zero_add] at count
    rw [List.countP_toArray, List.countP_cons_of_pos (by simp), Nat.add_sub_cancel,
      ← utf8Len_toList, count]
  have stop := floorOffset_eq text offset
  obtain ⟨after, rest⟩ := fitting_isPrefix offset text.toList
  rw [whole] at rest
  rw [Nat.zero_add] at found
  have start : min (utf8Len earlier) (utf8Len (earlier ++ line)) = utf8Len earlier := by
    rw [String.utf8Len_append]
    exact Nat.min_eq_left (Nat.le_add_right _ _)
  unfold LineIndex.position ofText TextExtent.position
  dsimp only
  rw [counted, stop, List.getElem?_toArray, found, Option.getD_some]
  rw [units, whole, start, String.utf8Len_append, extract_append earlier line after rest.symm,
    String.toList_ofList]

theorem ofChars_fitting_lt (small : text.utf8ByteSize < UInt32.size) (offset : Nat) :
    (ofChars (fitting offset text.toList)).lines < UInt32.size ∧
      (ofChars (fitting offset text.toList)).units < UInt32.size := by
  obtain ⟨lines, units⟩ := TextExtent.ofChars_le (fitting offset text.toList)
  have inside := Nat.lt_of_le_of_lt
    (Nat.le_trans (fitting_isGreatest text offset).1.1 (Nat.min_le_right _ _)) small
  exact ⟨Nat.lt_of_le_of_lt lines inside, Nat.lt_of_le_of_lt units inside⟩

theorem toNat_position (small : text.utf8ByteSize < UInt32.size) (offset : Nat) :
    ((ofText text).position offset).line.toNat = (ofChars (fitting offset text.toList)).lines ∧
      ((ofText text).position offset).character.toNat =
        (ofChars (fitting offset text.toList)).units := by
  obtain ⟨lines, units⟩ := ofChars_fitting_lt small offset
  rw [position_eq]
  exact ⟨UInt32.toNat_ofNat_of_lt' lines, UInt32.toNat_ofNat_of_lt' units⟩

theorem position_mono (small : text.utf8ByteSize < UInt32.size) {offset later : Nat}
    (ordered : offset ≤ later) : (ofText text).position offset ≤ (ofText text).position later := by
  obtain ⟨lines, units⟩ := toNat_position small offset
  obtain ⟨lines', units'⟩ := toNat_position small later
  rw [TextPosition.le_def, UInt32.lt_iff_toNat_lt, UInt32.le_iff_toNat_le, ← UInt32.toNat_inj,
    lines, units, lines', units']
  exact TextExtent.le_def.mp (TextExtent.ofChars_mono (fitting_mono ordered text.toList))

/-! ### From places to offsets -/

/-- How many bytes lie before the given number of units of a line. Past the end
of the line that is the start of the next one. -/
def unitsLength (wanted : Nat) : List Char → Nat
  | [] => 0
  | char :: rest =>
      if wanted = 0 then 0
      else if char == '\n' then 1
      else char.utf8Size + unitsLength (wanted - utf16Size char) rest

def offsetFrom? (line wanted : Nat) : List Char → Option Nat
  | [] => if line = 0 then some 0 else none
  | char :: rest =>
      if line = 0 then some (unitsLength wanted (char :: rest))
      else
        (offsetFrom? (if char == '\n' then line - 1 else line) wanted rest).map
          (char.utf8Size + ·)

theorem offsetFrom?_zero (wanted : Nat) (chars : List Char) :
    offsetFrom? 0 wanted chars = some (unitsLength wanted chars) := by
  cases chars with
  | nil => rfl
  | cons char rest => rfl

/-- The place where characters end leads to the bytes that they take. -/
theorem offsetFrom?_ofChars (before after : List Char) :
    offsetFrom? (ofChars before).lines (ofChars before).units (before ++ after) =
      some (utf8Len before) := by
  induction before with
  | nil =>
      cases after with
      | nil => rfl
      | cons char rest => rfl
  | cons char before ih =>
      rw [String.utf8Len_cons, List.cons_append]
      by_cases lineFeed : char = '\n'
      · subst lineFeed
        rw [TextExtent.ofChars_cons_lineFeed, offsetFrom?, if_neg (Nat.succ_ne_zero _),
          if_pos (beq_self_eq_true '\n')]
        dsimp only
        rw [Nat.add_sub_cancel, ih, Option.map_some, Nat.add_comm]
      · rw [TextExtent.ofChars_cons_of_ne lineFeed]
        dsimp only
        by_cases same : (ofChars before).lines = 0
        · have positive := TextExtent.utf16Size_pos char
          rw [same, offsetFrom?_zero, Option.some.injEq] at ih
          rw [same, if_pos rfl, offsetFrom?_zero, unitsLength, if_neg (by omega),
            if_neg (by simpa using lineFeed), Nat.add_sub_cancel_left, ih, Nat.add_comm]
        · rw [offsetFrom?, if_neg same, if_neg same, if_neg (by simpa using lineFeed), ih,
            Option.map_some, Nat.add_comm]

/-- The line that starts here ends where the next one in the table starts, or with the text. -/
theorem exists_firstLine (base : Nat) (chars : List Char) :
    ∃ line rest, chars = line ++ rest ∧
      ((startsFrom base chars).head?).getD (base + utf8Len chars) = base + utf8Len line ∧
      ∀ wanted units, seekUnits wanted units base line =
        base + unitsLength (wanted - units) chars := by
  induction chars generalizing base with
  | nil => exact ⟨[], [], rfl, rfl, fun _ _ => rfl⟩
  | cons char rest ih =>
      have stops (wanted units : Nat) (line : List Char) (enough : wanted ≤ units) :
          seekUnits wanted units base (char :: line) =
            base + unitsLength (wanted - units) (char :: rest) := by
        rw [seekUnits, if_pos enough, unitsLength, if_pos (Nat.sub_eq_zero_of_le enough),
          Nat.add_zero]
      by_cases lineFeed : char = '\n'
      · subst lineFeed
        refine ⟨['\n'], rest, rfl, rfl, fun wanted units => ?_⟩
        by_cases enough : wanted ≤ units
        · exact stops wanted units [] enough
        · rw [seekUnits, if_neg enough, seekUnits, unitsLength, if_neg (by omega),
            if_pos (beq_self_eq_true _)]
          rfl
      · have plain : ¬(char == '\n') = true := by simpa using lineFeed
        obtain ⟨line, rest', rfl, ends, seeks⟩ := ih (base + char.utf8Size)
        refine ⟨char :: line, rest', rfl, ?_, fun wanted units => ?_⟩
        · have size : base + utf8Len (char :: (line ++ rest')) =
              base + char.utf8Size + utf8Len (line ++ rest') := by
            rw [String.utf8Len_cons]
            omega
          rw [startsFrom, if_neg plain, size, ends, String.utf8Len_cons]
          omega
        · by_cases enough : wanted ≤ units
          · exact stops wanted units line enough
          · rw [seekUnits, if_neg enough, seeks, unitsLength, if_neg (by omega), if_neg plain,
              Nat.sub_add_eq, Nat.add_assoc]

/-- What a table that starts at an offset has for a line: its start, and where the next one
starts or the text ends. -/
def lookUp (text : String) (wanted number : Nat) (starts : List Nat) : Option Nat :=
  (starts[number]?).map fun start =>
    seekUnits wanted 0 start (String.Pos.Raw.extract text ⟨start⟩
      ⟨(starts[number + 1]?).getD text.utf8ByteSize⟩).toList

theorem lookUp_zero (wanted : Nat) (whole : text.toList = before ++ chars) :
    lookUp text wanted 0 (utf8Len before :: startsFrom (utf8Len before) chars) =
      some (utf8Len before + unitsLength wanted chars) := by
  obtain ⟨line, rest, rfl, ends, seeks⟩ := exists_firstLine (utf8Len before) chars
  have size : text.utf8ByteSize = utf8Len before + utf8Len (line ++ rest) := by
    rw [← utf8Len_toList, whole, String.utf8Len_append]
  unfold lookUp
  rw [List.getElem?_cons_zero, Option.map_some, List.getElem?_cons_succ,
    ← List.head?_eq_getElem?, size, ends,
    extract_append before line rest (whole.trans (List.append_assoc _ _ _).symm),
    String.toList_ofList, seeks]
  rfl

/-- A walk over a text finds the offset that the table leads to. -/
theorem lookUp_eq (number wanted : Nat) (whole : text.toList = before ++ chars) :
    lookUp text wanted number (utf8Len before :: startsFrom (utf8Len before) chars) =
      (offsetFrom? number wanted chars).map (utf8Len before + ·) := by
  induction chars generalizing number before with
  | nil =>
      cases number with
      | zero => exact lookUp_zero wanted whole
      | succ number => rfl
  | cons char rest ih =>
      cases number with
      | zero =>
          rw [lookUp_zero wanted whole, offsetFrom?_zero]
          rfl
      | succ number =>
          have split : text.toList = (before ++ [char]) ++ rest :=
            whole.trans (List.append_cons _ _ _)
          have step (number : Nat) := ih number split
          simp only [String.utf8Len_append, String.utf8Len_cons, String.utf8Len_nil,
            Nat.zero_add] at step
          rw [startsFrom, offsetFrom?, if_neg (Nat.succ_ne_zero _), Option.map_map]
          have shift : (utf8Len before + ·) ∘ (char.utf8Size + ·) =
              (utf8Len before + char.utf8Size + ·) := funext fun _ => (Nat.add_assoc _ _ _).symm
          rw [shift]
          by_cases lineFeed : (char == '\n') = true
          · rw [if_pos lineFeed, if_pos lineFeed, Nat.add_sub_cancel, ← step]
            rfl
          · rw [if_neg lineFeed, if_neg lineFeed, ← step]
            rfl

theorem offset?_eq (text : String) (position : TextPosition) :
    (ofText text).offset? position =
      offsetFrom? position.line.toNat position.character.toNat text.toList := by
  have whole : text.toList = [] ++ text.toList := rfl
  have found := lookUp_eq position.line.toNat position.character.toNat whole
  simp only [String.utf8Len_nil, Nat.zero_add, Option.map_id'] at found
  rw [← found]
  unfold LineIndex.offset? lookUp ofText
  simp only [List.getElem?_toArray]

/-- The place of an offset leads back to the end of the last character that is whole before
it. -/
theorem offset?_position (small : text.utf8ByteSize < UInt32.size) (offset : Nat) :
    ∃ boundary, IsGreatest {bytes | bytes ≤ min offset text.utf8ByteSize ∧
        (⟨bytes⟩ : String.Pos.Raw).IsValid text} boundary ∧
      (ofText text).offset? ((ofText text).position offset) = some boundary := by
  obtain ⟨lines, units⟩ := toNat_position small offset
  obtain ⟨rest, whole⟩ := fitting_isPrefix offset text.toList
  have led := offsetFrom?_ofChars (fitting offset text.toList) rest
  rw [whole] at led
  exact ⟨_, fitting_isGreatest text offset, by rw [offset?_eq, lines, units, led]⟩

end LineIndex

end RubySyntax

/-
How many bytes the readings of the lexer take: never more than there are.

The one exception is an escaped delimiter in a literal that is closed by the
byte 0, which is also what a look past the end gives.
-/

import RubySyntax.Proofs.Outcome

namespace RubySyntax

theorem length_pos_of_headD {bytes : Bytes} {first : Byte} (head : bytes.headD 0 = first)
    (filled : first ≠ 0) : 0 < bytes.length := by
  cases bytes with
  | nil => exact absurd head.symm filled
  | cons => simp

theorem length_of_headD_drop {bytes : Bytes} {distance : Nat}
    (filled : (bytes.drop distance).headD 0 ≠ 0) : distance < bytes.length := by
  have some := length_pos_of_headD rfl filled
  rw [List.length_drop] at some
  omega

theorem length_pos_of_char {bytes : Bytes} {char : Char}
    (head : (bytes.headD 0).char = char) (filled : char ≠ Byte.char 0) :
    0 < bytes.length :=
  length_pos_of_headD rfl fun zero => filled (by rw [← head, zero])

theorem length_of_char_drop {bytes : Bytes} {distance : Nat} {char : Char}
    (head : ((bytes.drop distance).headD 0).char = char) (filled : char ≠ Byte.char 0) :
    distance < bytes.length :=
  length_of_headD_drop fun zero => filled (by rw [← head, zero])

theorem length_of_namePart_drop {bytes : Bytes} {distance : Nat}
    (part : ((bytes.drop distance).headD 0).isNamePart = true) :
    distance < bytes.length := by
  refine length_of_headD_drop fun zero => ?_
  rw [zero] at part
  exact absurd part (by decide)

theorem Input.length_of_peekAt {input : Input} {distance : Nat} {char : Char}
    (found : input.peekAt distance = char) (filled : char ≠ Byte.char 0) :
    distance < input.rest.length := by
  refine Nat.lt_of_not_le fun outside => ?_
  unfold Input.peekAt at found
  rw [List.getElem?_eq_none outside] at found
  exact filled found.symm

theorem length_takeWhile_le (test : Byte → Bool) (bytes : Bytes) :
    (bytes.takeWhile test).length ≤ bytes.length :=
  (List.takeWhile_sublist test).length_le

/-! ### Names -/

namespace Utf8

theorem nameLengthFrom_le (pending : Nat) (bytes : Bytes) :
    nameLengthFrom pending bytes ≤ bytes.length := by
  induction bytes generalizing pending with
  | nil => simp [nameLengthFrom]
  | cons byte rest ih =>
      rw [List.length_cons]
      unfold nameLengthFrom
      split
      · next pending =>
          have shorter := ih pending
          omega
      · split
        · split
          · have shorter := ih 0
            omega
          · omega
        · split
          · next length _ =>
              have shorter := ih (length - 1)
              omega
          · omega

theorem nameLength_le (bytes : Bytes) : nameLength bytes ≤ bytes.length :=
  nameLengthFrom_le 0 bytes

theorem nameLength_pos {bytes : Bytes} (starts : (bytes.headD 0).isNameStart = true)
    (valid : ¬(decide (bytes.headD 0 ≥ 0x80) && (charLength? bytes).isNone) = true) :
    0 < nameLength bytes := by
  cases bytes with
  | nil => exact absurd starts (by decide)
  | cons byte rest =>
      change byte.isNameStart = true at starts
      rw [List.headD_cons, Bool.and_eq_true, decide_eq_true_eq] at valid
      simp only [nameLength, nameLengthFrom]
      split
      · next low =>
          have part : byte.isNamePart = true := by
            unfold Byte.isNameStart at starts
            unfold Byte.isNamePart Byte.isAlphanumeric
            rw [Bool.or_eq_true, Bool.or_eq_true] at starts
            rcases starts with (alpha | underscore) | high
            · simp [alpha]
            · simp [underscore]
            · simp [high]
          rw [if_pos part]
          omega
      · next high =>
          cases found : charLength? (byte :: rest) with
          | none =>
              rw [found] at valid
              exact absurd ⟨UInt8.not_lt.mp high, rfl⟩ valid
          | some length => exact Nat.add_pos_left Nat.one_pos _

end Utf8

namespace Scan

theorem suffixLength_le (mode : Mode) (after : Bytes) :
    suffixLength mode after ≤ after.length := by
  cases after with
  | nil => simp [suffixLength]
  | cons byte rest =>
      rw [List.length_cons]
      simp only [suffixLength]
      split
      · split <;> omega
      · split <;> omega
      · split <;> omega
      · omega

theorem globalLength_le (rest : Bytes) : globalLength rest ≤ rest.length := by
  cases rest with
  | nil => simp [globalLength]
  | cons byte after =>
      have named := Utf8.nameLength_le (byte :: after)
      rw [List.length_cons] at named ⊢
      unfold globalLength
      dsimp only
      split
      · omega
      · split
        · omega
        · split
          · split
            · next part =>
                have some : 0 < after.length := length_of_namePart_drop part
                omega
            · omega
          · split <;> omega

end Scan

/-! ### Escape sequences -/

namespace EscapeReading

theorem number_length_le (base count : Nat) (rest : Bytes) :
    (number base count rest).1 ≤ rest.length :=
  Nat.le_trans (length_takeWhile_le _ _) (List.length_take_le' count rest)

theorem codePoints_length_le (current : Option (Nat × Nat)) (offset : Nat) (rest : Bytes) :
    (codePoints current (offset + 1) rest).length ≤ offset + rest.length := by
  induction rest generalizing current offset with
  | nil => simp [codePoints]
  | cons byte rest ih =>
      rw [List.length_cons]
      unfold codePoints
      dsimp only
      split
      · next digit _ =>
          have shorter := ih
            (some ((current.getD (0, 0)).1 * 16 + digit, (current.getD (0, 0)).2 + 1))
            (offset + 1)
          omega
      · dsimp only
        split
        · have shorter := ih none (offset + 1)
          omega
        · split
          · dsimp only
            omega
          · dsimp only
            omega

theorem unicode_length_le (rest : Bytes) : (unicode rest).length ≤ rest.length + 1 := by
  unfold unicode
  split
  · next brace =>
      have some := length_pos_of_char (eq_of_beq brace) (by decide)
      have shorter : (codePoints none 3 (rest.drop 1)).length ≤ _ :=
        codePoints_length_le none 2 (rest.drop 1)
      rw [List.length_drop] at shorter
      omega
  · have shorter := number_length_le 16 4 rest
    dsimp only
    split
    · dsimp only
      omega
    · simp only [invalid]
      omega

theorem mapLast_length (reading : EscapeReading) (f : Byte → Byte) :
    (reading.mapLast f).length = reading.length :=
  rfl

theorem controlled_length_le {offset bound : Nat} {rest : Bytes} {operand : EscapeReading}
    (short : operand.length ≤ bound) (plain : 0 < rest.length → offset ≤ bound) :
    (controlled offset rest operand).length ≤ bound := by
  unfold controlled
  split
  · next mark => exact plain (length_pos_of_char (eq_of_beq mark) (by decide))
  · exact short

/-- A sequence takes at most the bytes after its backslash. For the operand of
a control or meta mark, `offset` bytes up to its own first one come before. -/
theorem read_length_le_of_size (size : Nat) :
    (∀ rest : Bytes, rest.length ≤ size → (read rest).length ≤ rest.length) ∧
      ∀ (offset : Nat) (rest : Bytes), rest.length ≤ size →
        (operand (offset + 1) rest).length ≤ offset + rest.length := by
  -- A sequence and the operand of its mark call each other, so both are bounded in one
  -- induction on the bytes that are left.
  induction size with
  | zero =>
      refine ⟨fun rest short => ?_, fun offset rest short => ?_⟩
      · rw [List.length_eq_zero_iff.mp (Nat.le_zero.mp short)]
        simp [read, invalid]
      · rw [List.length_eq_zero_iff.mp (Nat.le_zero.mp short)]
        simp [operand]
  | succ size ih =>
      obtain ⟨readShort, operandShort⟩ := ih
      refine ⟨fun rest short => ?_, fun offset rest short => ?_⟩
      · cases rest with
        | nil => simp [read, invalid]
        | cons byte rest =>
            rw [List.length_cons] at short ⊢
            have digits (base count : Nat) := number_length_le base count rest
            unfold read
            split
            · simp [single]
            · split
              · simp
              · dsimp only
                have shorter := digits 16 2
                split
                · simp [invalid]
                · simp only [single]
                  omega
              · exact unicode_length_le rest
              · cases rest with
                | nil => simp [invalid]
                | cons mark after =>
                    dsimp only
                    rw [List.length_cons] at short ⊢
                    split
                    · rw [mapLast_length]
                      have shorter : (operand 3 after).length ≤ _ := operandShort 2 after (by omega)
                      omega
                    · simp [invalid]
              · cases rest with
                | nil => simp [invalid]
                | cons mark after =>
                    dsimp only
                    rw [List.length_cons] at short ⊢
                    split
                    · have shorter : (operand 3 after).length ≤ _ := operandShort 2 after (by omega)
                      exact controlled_length_le (by omega) (by omega)
                    · simp [invalid]
              · have shorter : (operand 2 rest).length ≤ _ := operandShort 1 rest (by omega)
                exact controlled_length_le (by omega) (by omega)
              · split
                · exact number_length_le 8 3 (byte :: rest)
                · simp [single]
      · cases rest with
        | nil => simp [operand]
        | cons byte rest =>
            rw [List.length_cons] at short ⊢
            unfold operand
            split
            · have shorter := readShort rest (by omega)
              simp only [shift]
              omega
            · simp only [single]
              omega

theorem read_length_le (rest : Bytes) : (read rest).length ≤ rest.length :=
  (read_length_le_of_size rest.length).1 rest (Nat.le_refl _)

/-- In a literal an escaped delimiter may lie one byte past the end, unless
the text is that of a regexp. -/
theorem readIn_length_le (rule : EscapeRule) (list : Bool) (opening : Option Byte)
    (closing : Byte) (rest : Bytes) :
    (readIn rule list opening closing rest).length ≤ rest.length ∨
      rest = [] ∧ rule ≠ .keep ∧ (readIn rule list opening closing rest).length = 1 := by
  have read := read_length_le rest
  cases rest with
  | cons byte rest =>
      left
      rw [List.length_cons] at read ⊢
      unfold readIn
      cases rule with
      | decode =>
          dsimp only
          split
          · simp [single]
          · exact read
      | keep =>
          dsimp only
          split
          · simp [single]
          · split
            · simp
            · split <;> simp
      | delimiters =>
          dsimp only
          split <;> simp [single]
  | nil =>
      unfold readIn
      cases rule with
      | decode =>
          dsimp only
          split
          · exact .inr ⟨rfl, by decide, rfl⟩
          · exact .inl read
      | keep =>
          left
          dsimp only
          split
          · next slash =>
              rw [Bool.and_eq_true, beq_iff_eq, beq_iff_eq] at slash
              exact absurd slash.2 (by rw [← slash.1]; decide)
          · split
            · next line => exact absurd (eq_of_beq line) (by decide)
            · simp
      | delimiters =>
          dsimp only
          split
          · exact .inr ⟨rfl, by decide, rfl⟩
          · exact .inl (Nat.zero_le _)

/-- An escaped delimiter lies inside the input unless it is the byte as which the end is read. -/
theorem readIn_length_le_of_marked {closing : Byte} {opening : Option Byte} (rule : EscapeRule)
    (list : Bool) (closes : closing ≠ 0) (opens : opening ≠ some 0) (rest : Bytes) :
    (readIn rule list opening closing rest).length ≤ rest.length := by
  rcases readIn_length_le rule list opening closing rest with short | ⟨rfl, keep, one⟩
  · exact short
  · have other : ((0 : Byte) == closing || some 0 == opening) = false := by
      rw [Bool.or_eq_false_iff, beq_eq_false_iff_ne, beq_eq_false_iff_ne]
      exact ⟨closes.symm, opens.symm⟩
    have blank : (list && (0 : Byte).isSpace) = false := Bool.and_false list
    unfold readIn at one ⊢
    dsimp only [List.headD_nil] at one ⊢
    rw [other, blank] at one ⊢
    cases rule with
    | decode => exact read_length_le []
    | keep => exact absurd rfl keep
    | delimiters => exact Nat.le_refl 0

end EscapeReading

/-! ### Symbols -/

namespace Scan

theorem length_ascii (text : String) : (ascii text).length = text.length := by
  rw [ascii, List.length_map, String.length_toList]

theorem operatorLength_le (rest : Bytes) : operatorLength rest ≤ rest.length := by
  unfold operatorLength
  split
  · next operator found =>
      have starts : (ascii operator).isPrefixOf rest = true :=
        List.find?_some (p := fun operator => (ascii operator).isPrefixOf rest) found
      have shorter := (List.isPrefixOf_iff_prefix.mp starts).length_le
      rwa [length_ascii] at shorter
  · exact Nat.zero_le _

theorem wordLength_le (rest : Bytes) : wordLength rest ≤ rest.length := by
  unfold wordLength
  split
  · exact Utf8.nameLength_le rest
  · exact Nat.zero_le _

theorem wordLength_drop_le {rest : Bytes} {distance : Nat} (inside : distance ≤ rest.length) :
    distance + wordLength (rest.drop distance) ≤ rest.length := by
  have shorter := wordLength_le (rest.drop distance)
  rw [List.length_drop] at shorter
  omega

theorem symbolLength?_le {rest : Bytes} {length : Nat}
    (read : symbolLength? rest = some length) : length ≤ rest.length := by
  unfold symbolLength? at read
  dsimp only at read
  have named {distance : Nat} (part : ((rest.drop distance).headD 0).isNamePart = true) :
      distance + wordLength (rest.drop distance) ≤ rest.length :=
    wordLength_drop_le (Nat.le_of_lt (length_of_namePart_drop part))
  split at read
  · split at read
    · split at read
      · next part => exact Option.some.inj read ▸ named part
      · cases read
    · split at read
      · next part => exact Option.some.inj read ▸ named part
      · cases read
  · split at read
    · next part => exact Option.some.inj read ▸ named part
    · split at read
      · next dash =>
          have two := length_of_char_drop (eq_of_beq dash) (by decide)
          rw [← Option.some.inj read]
          split
          · next part => exact length_of_namePart_drop part
          · exact two
      · split at read
        · next special =>
            rw [← Option.some.inj read]
            refine @length_of_headD_drop rest 1 fun zero => ?_
            rw [zero] at special
            exact absurd special (by decide)
        · cases read
  · split at read
    · have word := wordLength_le rest
      rw [← Option.some.inj read]
      split
      · next mark =>
          have after := length_of_char_drop mark (by decide)
          split <;> omega
      · next mark =>
          have after := length_of_char_drop mark (by decide)
          split <;> omega
      · next mark =>
          have after := length_of_char_drop mark (by decide)
          split <;> omega
      · simpa using word
    · rw [← Option.some.inj read]
      exact operatorLength_le rest

end Scan

/-! ### Heredocs -/

theorem HeredocOpening.read_length_le {rest delimiter : Bytes} {indented dedented : Bool}
    {quote : Option Char} {length : Nat}
    (opened : HeredocOpening.read rest = .opened delimiter indented dedented quote length) :
    length ≤ rest.length := by
  unfold read at opened
  dsimp only at opened
  generalize (if ((rest.headD 0).char == '-' || (rest.headD 0).char == '~') = true
    then 1 else 0) = offset at opened
  have size := List.length_drop (i := offset) (l := rest)
  split at opened
  · cases opened
  · next first text following =>
      rw [following, List.length_cons] at size
      split at opened
      · split at opened
        · next closed =>
            rw [HeredocOpening.opened.injEq] at opened
            have inside := (List.getElem?_eq_some_iff.mp (eq_of_beq closed)).1
            omega
        · cases opened
      · split at opened
        · have named := Utf8.nameLength_le (first :: text)
          rw [List.length_cons] at named
          rw [HeredocOpening.opened.injEq] at opened
          omega
        · cases opened

theorem Heredoc.closingLength?_le {heredoc : Heredoc} {rest : Bytes} {length : Nat}
    (closing : heredoc.closingLength? rest = some length) : length ≤ rest.length := by
  unfold closingLength? at closing
  dsimp only at closing
  have indent : (if heredoc.indented then
      (rest.takeWhile fun byte => byte.char == ' ' || byte.char == '\t').length
      else 0) ≤ rest.length := by
    split
    · exact length_takeWhile_le _ rest
    · exact Nat.zero_le _
  generalize (if heredoc.indented = true then _ else 0) = indentation at closing indent
  split at closing
  · next starts =>
      have shorter := (List.isPrefixOf_iff_prefix.mp starts).length_le
      rw [List.length_drop] at shorter
      have size : ((rest.drop indentation).drop heredoc.delimiter.length).length =
          rest.length - indentation - heredoc.delimiter.length := by
        rw [List.length_drop, List.length_drop]
      split at closing
      · have same := Option.some.inj closing
        omega
      · next following =>
          have same := Option.some.inj closing
          rw [following] at size
          simp only [List.length_cons] at size
          omega
      · next following =>
          have same := Option.some.inj closing
          rw [following] at size
          simp only [List.length_cons] at size
          omega
      · next following =>
          have same := Option.some.inj closing
          rw [following] at size
          simp only [List.length_cons] at size
          omega
      · cases closing
  · cases closing

/-! ### Numbers -/

theorem DigitRun.scan_length_le (accept : Byte → Bool) (separable : Bool) (rest : Bytes) :
    (scan accept separable rest).length ≤ rest.length := by
  induction rest generalizing separable with
  | nil => simp [scan]
  | cons byte rest ih =>
      rw [List.length_cons]
      unfold scan
      split
      · split
        · have shorter := ih false
          dsimp only
          omega
        · exact Nat.zero_le _
      · split
        · have shorter := ih true
          dsimp only
          omega
        · exact Nat.zero_le _

namespace NumberReading

theorem scan_drop_le (accept : Byte → Bool) (separable : Bool) {rest : Bytes}
    {distance : Nat} (inside : distance ≤ rest.length) :
    distance + (DigitRun.scan accept separable (rest.drop distance)).length ≤
      rest.length := by
  have shorter := DigitRun.scan_length_le accept separable (rest.drop distance)
  rw [List.length_drop] at shorter
  omega

theorem fraction_length_le (offset : Nat) (rest : Bytes) :
    (fraction offset rest).length ≤ rest.length := by
  unfold fraction
  split
  · split
    · exact scan_drop_le _ _ (by simp)
    · exact Nat.zero_le _
  · exact Nat.zero_le _

theorem exponent_length_le (offset : Nat) (rest : Bytes) :
    (exponent offset rest).length ≤ rest.length := by
  unfold exponent
  split
  · exact Nat.zero_le _
  · next mark after =>
      dsimp only
      split
      · split
        · have sign : ((after.take 1).filter fun byte =>
              byte.char == '+' || byte.char == '-').length ≤ after.length :=
            Nat.le_trans (List.length_filter_le _ _) (List.length_take_le' 1 after)
          have shorter := scan_drop_le Byte.isDigit true sign
          rw [List.length_cons]
          dsimp only
          omega
        · exact Nat.zero_le _
      · exact Nat.zero_le _

theorem float_length (text : Bytes) (length : Nat) (remarks : List (Option Nat × Problem)) :
    (float text length remarks).length = length :=
  rfl

theorem decimal_length_le (rest : Bytes) : (decimal rest).length ≤ rest.length := by
  have whole := DigitRun.scan_length_le Byte.isDigit true rest
  have point := fraction_length_le (DigitRun.scan Byte.isDigit true rest).length
    (rest.drop (DigitRun.scan Byte.isDigit true rest).length)
  rw [List.length_drop] at point
  unfold decimal
  dsimp only
  generalize fraction _ _ = piece at *
  have scale := exponent_length_le
    ((DigitRun.scan Byte.isDigit true rest).length + piece.length)
    (rest.drop ((DigitRun.scan Byte.isDigit true rest).length + piece.length))
  rw [List.length_drop] at scale
  split
  · dsimp only
    omega
  · rw [float_length]
    omega

theorem based_length_le (base : Nat) {marked : Nat} {rest : Bytes}
    (inside : marked ≤ rest.length) : (based base marked rest).length ≤ rest.length := by
  have shorter (accepted : Nat) := scan_drop_le (Byte.isDigitIn accepted) (marked == 1) inside
  unfold based
  generalize (if base = 8 then 10 else base) = accepted
  dsimp only
  split
  · exact shorter accepted
  · split <;> exact shorter accepted

theorem ofDigits_length_le (rest : Bytes) : (ofDigits rest).length ≤ rest.length := by
  have plain := decimal_length_le rest
  unfold ofDigits
  split
  · split
    · split
      all_goals first
        | exact based_length_le _ (by simp)
        | skip
      split
      · exact based_length_le _ (by simp)
      · exact plain
    · exact plain
  · exact plain

theorem ofDigits_length_pos {rest : Bytes} (digit : (rest.headD 0).isDigit = true) :
    0 < (ofDigits rest).length := by
  have based_pos (base : Nat) {marked : Nat} (some : 0 < marked) :
      0 < (based base marked rest).length := by
    unfold based
    generalize (if base = 8 then 10 else base) = accepted
    dsimp only
    split
    · exact Nat.add_pos_left some _
    · split <;> exact Nat.add_pos_left some _
  have decimal_pos : 0 < (decimal rest).length := by
    have whole : 0 < (DigitRun.scan Byte.isDigit true rest).length := by
      cases rest with
      | nil => exact absurd digit (by decide)
      | cons byte rest =>
          change byte.isDigit = true at digit
          have noSeparator : (byte.char == '_') = false := by
            refine beq_eq_false_iff_ne.mpr fun same => ?_
            have code : byte.toNat = 95 := congrArg (fun char : Char => char.val.toNat) same
            have small : byte.toNat ≤ 57 := by
              simp only [Byte.isDigit, Bool.and_eq_true, decide_eq_true_eq] at digit
              exact digit.2
            omega
          unfold DigitRun.scan
          rw [noSeparator, digit]
          exact Nat.succ_pos _
    unfold decimal
    dsimp only
    split
    · dsimp only
      omega
    · rw [float_length]
      omega
  unfold ofDigits
  split
  · split
    · split
      all_goals first
        | exact based_pos _ (by decide)
        | skip
      split
      · exact based_pos _ (by decide)
      · exact decimal_pos
    · exact decimal_pos
  · exact decimal_pos

theorem ofDigits_value (rest : Bytes) :
    (∃ number, (ofDigits rest).value = .integer number) ∨
      ∃ number, (ofDigits rest).value = .float number := by
  have plain : (∃ number, (decimal rest).value = .integer number) ∨
      ∃ number, (decimal rest).value = .float number := by
    unfold decimal
    dsimp only
    split
    · exact .inl ⟨_, rfl⟩
    · exact .inr ⟨_, rfl⟩
  have marked (base marked : Nat) : ∃ number, (based base marked rest).value = .integer number := by
    unfold based
    generalize (if base = 8 then 10 else base) = accepted
    dsimp only
    split
    · exact ⟨_, rfl⟩
    · split <;> exact ⟨_, rfl⟩
  unfold ofDigits
  split
  · split
    · split
      all_goals first
        | exact .inl (marked _ _)
        | skip
      split
      · exact .inl (marked _ _)
      · exact plain
    · exact plain
  · exact plain

theorem ofFraction_length_le (rest : Bytes) : (ofFraction rest).length ≤ rest.length := by
  have run := DigitRun.scan_length_le Byte.isDigit true rest
  have scale := exponent_length_le (DigitRun.scan Byte.isDigit true rest).length
    (rest.drop (DigitRun.scan Byte.isDigit true rest).length)
  rw [List.length_drop] at scale
  unfold ofFraction
  rw [float_length]
  omega

end NumberReading

/-! ### Operators -/

namespace OperatorReading

def Fits (reading : OperatorReading) (rest : Bytes) : Prop :=
  0 < reading.length ∧ reading.length ≤ rest.length + 1

variable {rest : Bytes} {before : Surroundings} {mode : Mode} {blank : Bool}

theorem fits_one (reading : OperatorReading) (one : reading.length = 1) :
    reading.Fits rest := by
  unfold Fits
  omega

theorem fits_two {char : Char} (reading : OperatorReading) (two : reading.length = 2)
    (next : head rest = char) (filled : char ≠ Byte.char 0) : reading.Fits rest := by
  have some := length_pos_of_char next filled
  unfold Fits
  omega

theorem fits_three {char : Char} (reading : OperatorReading) (three : reading.length = 3)
    (last : head (rest.drop 1) = char) (filled : char ≠ Byte.char 0) :
    reading.Fits rest := by
  have some := length_of_char_drop last filled
  unfold Fits
  omega

theorem star_fits : (star mode blank rest).Fits rest := by
  unfold star
  split
  · next second =>
      split
      · next third => exact fits_three _ rfl (eq_of_beq third) (by decide)
      · exact fits_two _ rfl (eq_of_beq second) (by decide)
  · split
    · next second => exact fits_two _ rfl (eq_of_beq second) (by decide)
    · exact fits_one _ rfl

theorem bang_fits : (bang mode rest).Fits rest := by
  unfold bang
  split
  · split
    · next second => exact fits_two _ rfl (eq_of_beq second) (by decide)
    · exact fits_one _ rfl
  · split
    · next second => exact fits_two _ rfl second (by decide)
    · next second => exact fits_two _ rfl second (by decide)
    · exact fits_one _ rfl

theorem equals_fits : (equals mode rest).Fits rest := by
  unfold equals
  split
  · next second =>
      split
      · next third => exact fits_three _ rfl (eq_of_beq third) (by decide)
      · exact fits_two _ rfl second (by decide)
  · next second => exact fits_two _ rfl second (by decide)
  · next second => exact fits_two _ rfl second (by decide)
  · exact fits_one _ rfl

theorem less_fits : (less mode rest).Fits rest := by
  unfold less
  split
  · next second =>
      split
      · next third => exact fits_three _ rfl (eq_of_beq third) (by decide)
      · exact fits_two _ rfl second (by decide)
  · next second =>
      split
      · next third => exact fits_three _ rfl (eq_of_beq third) (by decide)
      · exact fits_two _ rfl second (by decide)
  · exact fits_one _ rfl

theorem greater_fits : (greater mode rest).Fits rest := by
  unfold greater
  split
  · next second => exact fits_two _ rfl second (by decide)
  · next second =>
      split
      · next third => exact fits_three _ rfl (eq_of_beq third) (by decide)
      · exact fits_two _ rfl second (by decide)
  · exact fits_one _ rfl

theorem ampersand_fits : (ampersand mode blank rest).Fits rest := by
  unfold ampersand
  split
  · next second =>
      split
      · next third => exact fits_three _ rfl (eq_of_beq third) (by decide)
      · exact fits_two _ rfl second (by decide)
  · next second => exact fits_two _ rfl second (by decide)
  · next second => exact fits_two _ rfl second (by decide)
  · exact fits_one _ rfl

theorem bar_fits : (bar mode rest).Fits rest := by
  unfold bar
  split
  · next second =>
      split
      · exact fits_one _ rfl
      · split
        · next third => exact fits_three _ rfl (eq_of_beq third) (by decide)
        · exact fits_two _ rfl second (by decide)
  · next second => exact fits_two _ rfl second (by decide)
  · exact fits_one _ rfl

theorem sign_fits {unary binary : Punct} {method : String}
    (one : binary.spelling.length = 1) :
    (sign unary binary method mode blank rest).Fits rest := by
  unfold sign
  split
  · split
    · next second => exact fits_two _ rfl (eq_of_beq second) (by decide)
    · exact fits_one _ rfl
  · split
    · next second =>
        exact fits_two _ (congrArg (· + 1) one) (eq_of_beq second) (by decide)
    · split
      · exact fits_one _ rfl
      · exact fits_one _ rfl

theorem plus_length (unary : (plus mode blank rest).kind = .mark .unaryPlus) :
    (plus mode blank rest).length = 1 := by
  unfold plus sign at *
  split
  · split
    · next names second =>
        rw [if_pos names, if_pos second] at unary
        cases unary
    · rfl
  · next names =>
      split
      · next second =>
          rw [if_neg names, if_pos second] at unary
          cases unary
      · split <;> rfl

theorem minus_fits : (minus mode blank rest).Fits rest := by
  unfold minus
  split
  · next arrow =>
      rw [Bool.and_eq_true] at arrow
      exact fits_two _ rfl (eq_of_beq arrow.2) (by decide)
  · exact sign_fits rfl

theorem dot_fits : (dot rest).Fits rest := by
  unfold dot
  split
  · next second =>
      split
      · next third => exact fits_three _ rfl (eq_of_beq third) (by decide)
      · exact fits_two _ rfl (eq_of_beq second) (by decide)
  · exact fits_one _ rfl

theorem simple_fits {mark : Punct} (one : mark.spelling.length = 1) :
    (simple mark mode rest).Fits rest := by
  unfold simple
  split
  · next second =>
      exact fits_two _ (congrArg (· + 1) one) (eq_of_beq second) (by decide)
  · exact fits_one _ rfl

theorem tilde_fits : (tilde mode rest).Fits rest := by
  unfold tilde
  split
  · split
    · next second => exact fits_two _ rfl (eq_of_beq second) (by decide)
    · exact fits_one _ rfl
  · exact fits_one _ rfl

theorem of?_fits {first : Char} {reading : OperatorReading}
    (read : of? before first rest = some reading) : reading.Fits rest := by
  unfold of? at read
  dsimp only at read
  split at read
  case h_18 => cases read
  all_goals rw [← Option.some.inj read]
  · exact star_fits
  · exact bang_fits
  · exact equals_fits
  · exact less_fits
  · exact greater_fits
  · exact ampersand_fits
  · exact bar_fits
  · exact sign_fits rfl
  · exact minus_fits
  · exact dot_fits
  · exact simple_fits rfl
  · exact simple_fits rfl
  · exact simple_fits rfl
  · exact tilde_fits
  · exact fits_one _ rfl
  · exact fits_one _ rfl
  · exact fits_one _ rfl

end OperatorReading

/-! ### White space -/

namespace Space

theorem lengthFrom_le (comment : Bool) (rest : Bytes) :
    lengthFrom comment rest ≤ rest.length := by
  fun_induction lengthFrom comment rest <;> simp only [List.length_cons, List.length_nil] <;> omega

theorem lineLength_le (rest : Bytes) : lineLength rest ≤ rest.length :=
  length_takeWhile_le _ rest

theorem commentLinesFrom_le (comment : Bool) (rest : Bytes) :
    commentLinesFrom comment rest ≤ rest.length := by
  fun_induction commentLinesFrom comment rest <;> simp only [List.length_cons, List.length_nil] <;> omega

theorem continuation?_le {rest : Bytes} {length : Nat}
    (continued : continuation? rest = some length) : length ≤ rest.length := by
  unfold continuation? at continued
  dsimp only at continued
  split at continued
  · exact Option.some.inj continued ▸ commentLinesFrom_le false rest
  · cases continued

end Space

end RubySyntax

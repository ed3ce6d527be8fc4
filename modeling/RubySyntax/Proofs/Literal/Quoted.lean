/-
Strings as they are written out.

A byte is written as itself or as an escape sequence, and a string in double quotes reads
either back as the byte. A number sign is written as itself, so it is read back where it does
not start an interpolation.
-/

import RubySyntax.Proofs.Literal.Statement
import RubySyntax.Tree.Dump

namespace RubySyntax

/-- Two hexadecimal digits after the letter are read as one byte, whatever follows them. -/
theorem EscapeReading.read_hex {high low : Byte} {first second : Nat}
    (highDigit : high.digitValue? = some first) (firstHex : first < 16)
    (lowDigit : low.digitValue? = some second) (secondHex : second < 16) (more : Bytes) :
    read (0x78 :: high :: low :: more) = single (UInt8.ofNat (first * 16 + second)) 3 := by
  have isHigh : high.isDigitIn 16 = true := by
    rw [Byte.isDigitIn, highDigit]
    exact decide_eq_true firstHex
  have isLow : low.isDigitIn 16 = true := by
    rw [Byte.isDigitIn, lowDigit]
    exact decide_eq_true secondHex
  have digits : number 16 2 (high :: low :: more) = (2, first * 16 + second) := by
    simp only [number, List.take_succ_cons, List.take_zero, List.takeWhile_cons, isHigh, isLow,
      if_true, List.takeWhile_nil, positionalValue, List.foldl_cons, List.foldl_nil, highDigit,
      lowDigit, Option.getD_some, List.length_cons, List.length_nil, Nat.zero_mul, Nat.zero_add]
  have notSimple : simple? (0x78 : Byte).char = none := by decide
  have letter : (0x78 : Byte).char = 'x' := by decide
  rw [read, notSimple]
  simp only [letter, digits]
  rfl

namespace Quoted

def written (byte : Byte) : Bytes :=
  (encodeByte byte).flatMap fun char => Utf8.encode char.toNat

theorem ofText_quoted (bytes : Bytes) :
    Utf8.ofText (Shape.quoted bytes) = 0x22 :: (bytes.flatMap written ++ [0x22]) := by
  have quote : Utf8.encode '"'.toNat = [0x22] := by decide
  rw [Utf8.ofText, Shape.quoted, String.toList_ofList, encode, List.cons_append,
    List.flatMap_cons, List.flatMap_append, List.flatMap_assoc, quote]
  simp only [List.flatMap_cons, List.flatMap_nil, quote]
  rfl

abbrev literal (start : Nat) : Quotation :=
  { kind := .string, interpolates := true, closing := 0x22, start }

theorem hexDigit_value (value : Nat) (hex : value < 16) :
    ∃ digit, Utf8.encode (hexDigit value).toNat = [digit] ∧
      Byte.digitValue? digit = some value := by
  have each : ∀ value < 16, Utf8.encode (hexDigit value).toNat = [(hexDigit value).toUInt8] ∧
      Byte.digitValue? (hexDigit value).toUInt8 = some value := by decide
  exact ⟨_, each value hex⟩

theorem encode_printable (byte : Byte) :
    (decide (0x20 ≤ byte) && decide (byte ≤ 0x7E)) = true →
      Utf8.encode byte.char.toNat = [byte] := by
  revert byte
  exact Byte.forall_of_lt (by decide +kernel)

theorem hex_reads (byte : Byte) :
    ∃ high low, ['\\', 'x', hexDigit (byte.toNat / 16), hexDigit (byte.toNat % 16)].flatMap
        (fun char => Utf8.encode char.toNat) = [0x5C, 0x78, high, low] ∧
      ∀ more, EscapeReading.read (0x78 :: high :: low :: more) = .single byte 3 := by
  have firstHex : byte.toNat / 16 < 16 := Nat.div_lt_of_lt_mul byte.toNat_lt
  have secondHex : byte.toNat % 16 < 16 := Nat.mod_lt _ (by decide)
  obtain ⟨high, highText, highDigit⟩ := hexDigit_value _ firstHex
  obtain ⟨low, lowText, lowDigit⟩ := hexDigit_value _ secondHex
  refine ⟨high, low, ?_, fun more => ?_⟩
  · have backslash : Utf8.encode '\\'.toNat = [0x5C] := by decide
    have letter : Utf8.encode 'x'.toNat = [0x78] := by decide
    simp only [List.flatMap_cons, List.flatMap_nil, backslash, letter, highText, lowText]
    rfl
  · rw [EscapeReading.read_hex highDigit firstHex lowDigit secondHex, Nat.div_add_mod',
      UInt8.ofNat_toNat]

theorem written_cases (byte : Byte) :
    (written byte = [byte] ∧ byte ≠ 0x22 ∧ byte ≠ 0x5C) ∨
      ∃ escape, written byte = 0x5C :: escape ∧ ∀ start more,
        (literal start).escapeOf (escape ++ more) =
          { bytes := [byte], length := escape.length } := by
  have marked : ∀ {char : Char} (value : Byte), (byte.char == char) = true → value.char = char →
      byte = value := by
    intro char value same read
    exact Byte.char_injective ((eq_of_beq same).trans read.symm)
  rw [written, encodeByte]
  by_cases quote : (byte.char == '"') = true
  · rw [if_pos quote, marked 0x22 quote rfl]
    exact .inr ⟨[0x22], by decide, fun _ _ => rfl⟩
  rw [if_neg quote]
  by_cases backslash : (byte.char == '\\') = true
  · rw [if_pos backslash, marked 0x5C backslash rfl]
    exact .inr ⟨[0x5C], by decide, fun _ _ => rfl⟩
  rw [if_neg backslash]
  by_cases lineFeed : (byte.char == '\n') = true
  · rw [if_pos lineFeed, marked 0x0A lineFeed rfl]
    exact .inr ⟨[0x6E], by decide, fun _ _ => rfl⟩
  rw [if_neg lineFeed]
  by_cases tab : (byte.char == '\t') = true
  · rw [if_pos tab, marked 0x09 tab rfl]
    exact .inr ⟨[0x74], by decide, fun _ _ => rfl⟩
  rw [if_neg tab]
  by_cases printable : (decide (0x20 ≤ byte) && decide (byte ≤ 0x7E)) = true
  · rw [if_pos printable, List.flatMap_cons, List.flatMap_nil, encode_printable byte printable]
    refine .inl ⟨rfl, ?_, ?_⟩
    · rintro rfl
      exact quote rfl
    · rintro rfl
      exact backslash rfl
  · rw [if_neg printable]
    obtain ⟨high, low, text, reads⟩ := hex_reads byte
    exact .inr ⟨[0x78, high, low], text, fun _ more => reads more⟩

/-- The bytes after which a number sign starts an interpolation. -/
def marks : Bytes := [0x7B, 0x40, 0x24]

theorem variableFollows_none {rest : Bytes} (noInstance : (rest.headD 0).char ≠ '@')
    (noGlobal : (rest.headD 0).char ≠ '$') : Interpolation.variableFollows rest = false := by
  match rest with
  | [] => rfl
  | [_] => rfl
  | mark :: next :: after =>
      rw [Interpolation.variableFollows]
      split
      · next same => exact absurd same noInstance
      · next same => exact absurd same noGlobal
      · rfl

theorem interpolation_none {byte : Byte} {more : Bytes}
    (unmarked : byte = 0x23 → more.headD 0 ∉ marks) : Interpolation.at? (byte :: more) = none := by
  simp only [Interpolation.at?]
  by_cases sharp : byte = 0x23
  · have other : ∀ value ∈ marks, (more.headD 0).char ≠ value.char := by
      intro value member same
      exact unmarked sharp (Byte.char_injective same ▸ member)
    have noCode : ((more.headD 0).char == '\x7b') = false :=
      beq_false_of_ne (other 0x7B (by decide))
    have noVariable := variableFollows_none (other 0x40 (by decide)) (other 0x24 (by decide))
    rw [noCode, noVariable]
    split <;> rfl
  · have other : (byte.char != '#') = true :=
      bne_iff_ne.mpr fun same => sharp (Byte.char_injective (same.trans (by decide)))
    rw [if_pos other]

/-- What comes after a number sign is no mark if it was none before. -/
theorem headD_written {bytes : Bytes} (plain : bytes.headD 0 ∉ marks) :
    (bytes.flatMap written ++ [0x22]).headD 0 ∉ marks := by
  cases bytes with
  | nil => decide
  | cons byte more =>
      rw [List.flatMap_cons]
      rcases written_cases byte with ⟨same, -⟩ | ⟨escape, same, -⟩
      · rw [same]
        exact plain
      · rw [same]
        change (0x5C : Byte) ∉ marks
        decide

/-- What is written is read back. -/
theorem reads_written (start : Nat) (bytes : Bytes)
    (plain : ∀ mark ∈ marks, ¬ [0x23, mark] <:+: bytes) :
    (literal start).Reads [0x22] (bytes.flatMap written) bytes (literal start) [] := by
  induction bytes with
  | nil => exact .done
  | cons byte more ih =>
      have reads := ih fun mark member inside =>
        plain mark member (inside.trans (List.suffix_cons ..).isInfix)
      rw [List.flatMap_cons]
      rcases written_cases byte with ⟨same, noQuote, noBackslash⟩ | ⟨escape, same, reading⟩
      · have goesOn :
            (literal start).goesOnAt (byte :: (more.flatMap written ++ [0x22])) = true := by
          have unmarked : byte = 0x23 → (more.flatMap written ++ [0x22]).headD 0 ∉ marks := by
            rintro rfl
            refine headD_written fun mark => ?_
            cases more with
            | nil => exact absurd mark (by decide)
            | cons next rest => exact plain next mark ⟨[], rest, rfl⟩
          have opens : (literal start).closesAt byte = false := by
            rw [Quotation.closesAt, beq_false_of_ne noQuote]
            rfl
          rw [Quotation.goesOnAt, interpolation_none unmarked, opens]
          rfl
        rw [same]
        exact .plain goesOn noBackslash reads
      · have goesOn : (literal start).goesOnAt
            (0x5C :: (escape ++ (more.flatMap written ++ [0x22]))) = true := by
          rw [Quotation.goesOnAt, interpolation_none fun same => absurd same (by decide)]
          rfl
        rw [same]
        exact .escaped goesOn (reading start _) reads

end Quoted

/-- A string that is written out is read back, unless a part of it would be interpolated. The
limits need room for one level of nesting and for the nodes of the program and the string. -/
theorem parse_quoted (bytes : Bytes) (options : ParseOptions) (symbols : SymbolTable)
    (plain : ∀ mark ∈ [0x7B, 0x40, 0x24], ¬ [0x23, mark] <:+: bytes)
    (short : bytes.length ≤ options.tokenMax) (deep : 0 < options.maxDepth)
    (room : 2 ≤ options.maxNodes) :
    let parsed := parse (Utf8.ofText (Shape.quoted bytes)) options symbols
    parsed.Clean ∧ ∃ id, parsed.statements? = some [id] ∧
      parsed.arena.Shaped id (.text .string bytes) := by
  have spelled : Utf8.ofText (Shape.quoted bytes) =
      [0x22] ++ (bytes.flatMap Quoted.written ++ [(Quoted.literal 0).closing]) :=
    Quoted.ofText_quoted bytes
  have holds : (Quoted.literal 0).Holds (bytes.flatMap Quoted.written) bytes [] :=
    ⟨_, Quoted.reads_written 0 bytes plain, rfl⟩
  have left := State.start_left (Utf8.ofText (Shape.quoted bytes)) options symbols
  refine parse_text [0x22] spelled ?_ rfl rfl holds short deep room
  exact Scan.stringBegin_yields left.idle rfl rfl spelled

/-- A byte in hexadecimal before a letter that could be its digit, a quote and a backslash, a
number sign before an escape sequence, and one before the closing quote. -/
theorem parse_quoted_escapes :
    let bytes : Bytes := [0xFF, 0x41, 0x22, 0x5C, 0x23, 0x22, 0x0A, 0x09, 0x00, 0x39, 0x23]
    let options : ParseOptions := {}
    Shape.quoted bytes = "\"\\xFFA\\\"\\\\#\\\"\\n\\t\\x009#\"" ∧
      (∀ mark ∈ [0x7B, 0x40, 0x24], ¬ [0x23, mark] <:+: bytes) ∧
      bytes.length ≤ options.tokenMax ∧ 0 < options.maxDepth ∧ 2 ≤ options.maxNodes ∧
      let parsed := parse (Utf8.ofText (Shape.quoted bytes)) options {}
      parsed.Clean ∧ ∃ id, parsed.statements? = some [id] ∧
        parsed.arena.Shaped id (.text .string bytes) := by
  intro bytes options
  have plain : ∀ mark ∈ [0x7B, 0x40, 0x24], ¬ [0x23, mark] <:+: bytes := by
    simp only [List.forall_mem_cons]
    exact ⟨by decide, by decide, by decide, by nofun⟩
  exact ⟨by decide, plain, by decide, by decide, by decide,
    parse_quoted bytes options {} plain (by decide) (by decide) (by decide)⟩

end RubySyntax

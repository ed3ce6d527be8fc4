/-
Code points between braces.

A string may be written as one escape sequence that lists code points. It stands for the
UTF-8 encodings of those that are scalar values, in order, and for each of the others one
error is reported.
-/

import RubySyntax.Proofs.Integer.Digits
import RubySyntax.Proofs.Literal.Quoted
import RubySyntax.Proofs.ReportMode

namespace RubySyntax

/-! ### Scalar values -/

namespace Utf8

theorem isScalar_iff (value : Nat) : isScalar value = true ↔ value.isValidChar := by
  simp only [isScalar, Nat.isValidChar, Bool.or_eq_true, Bool.and_eq_true, decide_eq_true_eq]
  omega

theorem encode_eq {value : Nat} (scalar : value.isValidChar) :
    encode value = String.utf8EncodeChar (Char.ofNat value) := by
  have same : (Char.ofNat value).val.toNat = value := by
    rw [Char.ofNat, dif_pos scalar]
    rfl
  have small : value < 0x110000 := by
    unfold Nat.isValidChar at scalar
    omega
  have tail (number : Nat) : 0x80 + number % 0x40 = number % 64 + 128 := Nat.add_comm ..
  have none : value / 1 = value := Nat.div_one value
  unfold encode String.utf8EncodeChar
  dsimp only
  rw [same, tail, tail, tail, none]
  by_cases one : value < 0x80
  · rw [if_pos one, if_pos (show value ≤ 127 by omega)]
  rw [if_neg one, if_neg (show ¬value ≤ 127 by omega)]
  by_cases two : value < 0x800
  · have lead : 0xC0 + value / 0x40 = value / 64 % 32 + 192 := by omega
    rw [if_pos two, if_pos (show value ≤ 2047 by omega), lead]
  rw [if_neg two, if_neg (show ¬value ≤ 2047 by omega)]
  by_cases three : value < 0x10000
  · have lead : 0xE0 + value / 0x1000 = value / 4096 % 16 + 224 := by omega
    rw [if_pos three, if_pos (show value ≤ 65535 by omega), lead]
  have lead : 0xF0 + value / 0x40000 = value / 262144 % 8 + 240 := by omega
  rw [if_neg three, if_neg (show ¬value ≤ 65535 by omega), lead]

end Utf8

/-- The UTF-8 encodings of those numbers that are scalar values, in order. -/
def encodeScalars (values : List Nat) : Bytes :=
  ((values.filter fun value => value.isValidChar).map Char.ofNat).flatMap String.utf8EncodeChar

/-- How many numbers are surrogates or too large. -/
def countFaulty (values : List Nat) : Nat :=
  values.countP fun value => ¬value.isValidChar

/-! ### Written code points -/

structure WrittenCodePoint where
  first : WrittenDigit 16
  more : List (WrittenDigit 16) := []
  short : more.length ≤ 5

structure Gap where
  first : Byte
  more : Bytes := []
  blank : ∀ byte ∈ first :: more, byte = 0x20 ∨ byte = 0x09

namespace WrittenCodePoint

def digits (point : WrittenCodePoint) : List (WrittenDigit 16) :=
  point.first :: point.more

def text (point : WrittenCodePoint) : Bytes :=
  point.digits.map WrittenDigit.byte

def value (point : WrittenCodePoint) : Nat :=
  WrittenDigit.sum point.digits

def textAfter (points : List (Gap × WrittenCodePoint)) : Bytes :=
  points.flatMap fun (gap, point) => gap.first :: gap.more ++ point.text

def listText : List (Gap × WrittenCodePoint) → Bytes
  | [] => []
  | (_, point) :: more => point.text ++ textAfter more

def values (points : List (Gap × WrittenCodePoint)) : List Nat :=
  points.map fun (_, point) => point.value

end WrittenCodePoint

/-! ### Reading code points -/

namespace EscapeReading

structure Decodes (reading : EscapeReading) (values : List Nat) (stop : Nat) : Prop where
  bytes : reading.bytes = encodeScalars values
  length : reading.length = stop
  problems : reading.remarks.map Prod.snd = List.replicate (countFaulty values) .invalidCodePoint

theorem Decodes.cons {after : EscapeReading} {values : List Nat} {stop : Nat}
    (decodes : after.Decodes values stop) (value offset : Nat) :
    Decodes { bytes := (codePoint value offset).1 ++ after.bytes
              length := after.length
              remarks := (codePoint value offset).2 ++ after.remarks } (value :: values) stop := by
  by_cases scalar : value.isValidChar
  · have encoded : codePoint value offset = (String.utf8EncodeChar (Char.ofNat value), []) := by
      rw [codePoint, if_pos ((Utf8.isScalar_iff value).mpr scalar), Utf8.encode_eq scalar]
    rw [encoded]
    refine ⟨?_, decodes.length, ?_⟩
    · simp [encodeScalars, scalar, decodes.bytes]
    · have counted : countFaulty (value :: values) = countFaulty values :=
        List.countP_cons_of_neg fun faulty => of_decide_eq_true faulty scalar
      rw [counted]
      exact decodes.problems
  · have faulty : codePoint value offset = ([], [(⟨0, offset⟩, .invalidCodePoint)]) := by
      rw [codePoint, if_neg fun same => scalar ((Utf8.isScalar_iff value).mp same)]
    rw [faulty]
    refine ⟨?_, decodes.length, ?_⟩
    · simp [encodeScalars, scalar, decodes.bytes]
    · have counted : countFaulty (value :: values) = countFaulty values + 1 :=
        List.countP_cons_of_pos (decide_eq_true scalar)
      rw [counted, List.replicate_succ, ← decodes.problems]
      rfl

theorem codePoints_digits (digits : List (WrittenDigit 16)) (value count offset : Nat)
    (rest : Bytes) (short : count + digits.length ≤ 6) :
    codePoints (some (value, count)) offset (digits.map WrittenDigit.byte ++ rest) =
      codePoints (some (digits.foldl (fun value digit => value * 16 + digit.value) value,
        count + digits.length)) (offset + digits.length) rest := by
  induction digits generalizing value count offset with
  | nil => rfl
  | cons digit more ih =>
      rw [List.length_cons] at short
      have goesOn : (some (value, count)).any (fun number => number.2 == 6) = false :=
        beq_false_of_ne (by omega)
      rw [List.map_cons, List.cons_append, codePoints, goesOn]
      simp only [Bool.false_eq_true, if_false, digit.spells, Option.getD_some]
      rw [ih _ _ _ (by omega), List.foldl_cons, List.length_cons, Nat.add_assoc, Nat.add_assoc,
        Nat.add_comm 1]

theorem codePoints_point (point : WrittenCodePoint) (offset : Nat) (rest : Bytes) :
    ∃ count, codePoints none offset (point.text ++ rest) =
      codePoints (some (point.value, count)) (offset + point.text.length) rest := by
  have short : point.digits.length ≤ 6 := Nat.succ_le_succ point.short
  have value : (point.digits.map WrittenDigit.byte).foldl
      (fun value byte => value * 16 + byte.digitValue?.getD 0) 0 = point.value :=
    positionalValue_written point.digits
  rw [List.foldl_map] at value
  simp only [WrittenDigit.spells, Option.getD_some] at value
  have started : codePoints none offset (point.text ++ rest) =
      codePoints (some (0, 0)) offset (point.text ++ rest) := by
    change codePoints none offset (point.first.byte :: _) =
      codePoints (some (0, 0)) offset (point.first.byte :: _)
    rw [codePoints, codePoints]
    simp only [Option.any_none, Option.any_some, point.first.spells, Bool.false_eq_true, if_false,
      Option.getD_none, Option.getD_some, show ((0 : Nat) == 6) = false from rfl]
  refine ⟨0 + point.digits.length, ?_⟩
  rw [started, WrittenCodePoint.text, codePoints_digits _ _ _ _ _ (by omega), value,
    List.length_map]

/-- Blanks are passed over where no code point is at hand. -/
theorem codePoints_blanks (blanks : Bytes) (blank : ∀ byte ∈ blanks, byte = 0x20 ∨ byte = 0x09)
    (offset : Nat) (rest : Bytes) :
    codePoints none offset (blanks ++ rest) = codePoints none (offset + blanks.length) rest := by
  induction blanks generalizing offset with
  | nil => rfl
  | cons byte more ih =>
      have passed : codePoints none offset (byte :: (more ++ rest)) =
          codePoints none (offset + 1) (more ++ rest) := by
        rcases blank byte List.mem_cons_self with rfl | rfl <;> rfl
      rw [List.cons_append, passed, ih (fun other member => blank other (.tail _ member)),
        List.length_cons, Nat.add_assoc, Nat.add_comm 1]

/-- A blank completes the code point at hand. -/
theorem codePoints_complete {byte : Byte} (blank : byte = 0x20 ∨ byte = 0x09)
    (value count offset : Nat) (rest : Bytes) :
    codePoints (some (value, count)) offset (byte :: rest) =
      { bytes := (codePoint value offset).1 ++ (codePoints none (offset + 1) rest).bytes
        length := (codePoints none (offset + 1) rest).length
        remarks := (codePoint value offset).2 ++ (codePoints none (offset + 1) rest).remarks } := by
  have noDigit : byte.digitValue? = none := by
    rcases blank with rfl | rfl <;> rfl
  have isBlank : (byte.char == ' ' || byte.char == '\t') = true := by
    rcases blank with rfl | rfl <;> rfl
  rw [codePoints]
  simp only [noDigit, ite_self, isBlank, if_true, Option.elim_some]

/-- After a code point the others are decoded, up to the closing brace. -/
theorem codePoints_after (points : List (Gap × WrittenCodePoint)) (value count offset : Nat)
    (rest : Bytes) :
    Decodes (codePoints (some (value, count)) offset
        (WrittenCodePoint.textAfter points ++ 0x7D :: rest))
      (value :: WrittenCodePoint.values points)
      (offset + (WrittenCodePoint.textAfter points).length) := by
  induction points generalizing value count offset with
  | nil =>
      have closed : Decodes { length := offset } [] offset := ⟨rfl, rfl, rfl⟩
      have noDigit : (0x7D : Byte).digitValue? = none := rfl
      rw [WrittenCodePoint.textAfter, List.flatMap_nil, List.nil_append, codePoints]
      simp only [noDigit, ite_self]
      exact closed.cons value offset
  | cons point more ih =>
      obtain ⟨gap, point⟩ := point
      have blanks := List.forall_mem_cons.mp gap.blank
      obtain ⟨digits, read⟩ := codePoints_point point (offset + 1 + gap.more.length)
        (WrittenCodePoint.textAfter more ++ 0x7D :: rest)
      have text : WrittenCodePoint.textAfter ((gap, point) :: more) ++ 0x7D :: rest =
          gap.first :: (gap.more ++ (point.text ++
            (WrittenCodePoint.textAfter more ++ 0x7D :: rest))) := by
        simp [WrittenCodePoint.textAfter]
      have length : offset + (WrittenCodePoint.textAfter ((gap, point) :: more)).length =
          offset + 1 + gap.more.length + point.text.length +
            (WrittenCodePoint.textAfter more).length := by
        simp only [WrittenCodePoint.textAfter, List.flatMap_cons, List.length_append,
          List.length_cons]
        omega
      rw [text, length, codePoints_complete blanks.1, codePoints_blanks _ blanks.2, read]
      exact (ih point.value digits _).cons value offset

theorem codePoints_list (points : List (Gap × WrittenCodePoint)) (offset : Nat) (rest : Bytes) :
    Decodes (codePoints none offset (WrittenCodePoint.listText points ++ 0x7D :: rest))
      (WrittenCodePoint.values points)
      (offset + (WrittenCodePoint.listText points).length) := by
  cases points with
  | nil => exact ⟨rfl, rfl, rfl⟩
  | cons point more =>
      obtain ⟨gap, point⟩ := point
      obtain ⟨digits, read⟩ := codePoints_point point offset
        (WrittenCodePoint.textAfter more ++ 0x7D :: rest)
      rw [WrittenCodePoint.listText, List.append_assoc, read, List.length_append, ← Nat.add_assoc]
      exact codePoints_after more point.value digits _ rest

/-- The whole sequence is read up to the brace. -/
theorem read_list (points : List (Gap × WrittenCodePoint)) (rest : Bytes) :
    Decodes (read (0x75 :: 0x7B :: (WrittenCodePoint.listText points ++ 0x7D :: rest)))
      (WrittenCodePoint.values points) (3 + (WrittenCodePoint.listText points).length) := by
  have letter : (0x75 : Byte).char = 'u' := by decide
  have notSimple : simple? (0x75 : Byte).char = none := by decide
  rw [read, notSimple]
  simp only [letter]
  exact codePoints_list points 3 rest

end EscapeReading

/-! ### The string -/

namespace WrittenCodePoint

def escapeText (points : List (Gap × WrittenCodePoint)) : Bytes :=
  0x5C :: 0x75 :: 0x7B :: (listText points ++ [0x7D])

theorem holds_escapeText (points : List (Gap × WrittenCodePoint)) :
    ∃ remarks : Remarks,
      (Quoted.literal 0).Holds (escapeText points)
        (encodeScalars (values points)) [] remarks ∧
      remarks.map Prod.snd = List.replicate (countFaulty (values points)) .invalidCodePoint := by
  let written : Bytes := 0x75 :: 0x7B :: (listText points ++ [0x7D])
  have read : EscapeReading.Decodes (EscapeReading.read (written ++ [0x22])) (values points)
      written.length := by
    have decodes := EscapeReading.read_list points [0x22]
    have length : written.length = 3 + (listText points).length := by
      simp only [written, List.length_cons, List.length_append, List.length_nil]
      omega
    have text : written ++ [0x22] = 0x75 :: 0x7B :: (listText points ++ 0x7D :: [0x22]) := by
      simp [written]
    rw [length, text]
    exact decodes
  have reading : (Quoted.literal 0).escapeOf (written ++ ([] ++ [0x22])) =
      { bytes := encodeScalars (values points)
        length := written.length
        remarks := (EscapeReading.read (written ++ [0x22])).remarks } := by
    rw [← read.bytes, ← read.length]
    rfl
  have goesOn : (Quoted.literal 0).goesOnAt (0x5C :: (written ++ ([] ++ [0x22]))) = true := by
    rw [Quotation.goesOnAt, Quoted.interpolation_none fun same => absurd same (by decide)]
    rfl
  have nothing : (Quoted.literal 0).Reads [0x22] [] [] (Quoted.literal 0) [] := .done
  have reads := Quotation.Reads.escaped goesOn reading nothing
  rw [List.append_nil, List.append_nil] at reads
  exact ⟨_, ⟨_, reads, rfl⟩, by simpa [Remarks.later] using read.problems⟩

end WrittenCodePoint

theorem Report.made_addAt (report : Report) (position : Nat) (remarks : Remarks) :
    (report.addAt position remarks).made.toList.map Diagnostic.problem =
      report.made.toList.map Diagnostic.problem ++ remarks.map Prod.snd := by
  induction remarks generalizing report with
  | nil => exact (List.append_nil _).symm
  | cons remark later ih =>
      obtain ⟨span, problem⟩ := remark
      refine (ih _).trans ?_
      rw [made_add, Array.toList_push, List.map_append, List.append_assoc]
      rfl

/-- A string of one list of code points holds the encodings of the scalar values among them, in
order. Nothing is reported but an error for each of the others. -/
theorem parse_codePoints (points : List (Gap × WrittenCodePoint)) (options : ParseOptions)
    (symbols : SymbolTable)
    (short : (encodeScalars (WrittenCodePoint.values points)).length ≤ options.tokenMax)
    (deep : 0 < options.maxDepth) (room : 2 ≤ options.maxNodes) :
    let source := ascii "\"" ++ WrittenCodePoint.escapeText points ++ ascii "\""
    let parsed := parse source options symbols
    parsed.fatal = none ∧
      (reportsMade source options symbols).map Diagnostic.problem =
        List.replicate (countFaulty (WrittenCodePoint.values points)) .invalidCodePoint ∧
      parsed.report.errors = countFaulty (WrittenCodePoint.values points) ∧
      parsed.report.warnings = 0 ∧
      ∃ id, parsed.statements? = some [id] ∧
        parsed.arena.Shaped id (.text .string (encodeScalars (WrittenCodePoint.values points))) := by
  intro source parsed
  let values := WrittenCodePoint.values points
  obtain ⟨remarks, holds, problems⟩ := WrittenCodePoint.holds_escapeText points
  have opens : Scan.Succeeds Scan.nextToken (State.start source options symbols)
      fun token after =>
        token = ⟨.literalBegin .string, ⟨0, [0x22].length⟩⟩ ∧
          after = (State.start source options symbols).opened [0x22].length (Quoted.literal 0) :=
    Scan.stringBegin_yields (State.start_left source options symbols).idle rfl rfl rfl
  obtain ⟨fatal, reported, whole⟩ :=
    parse_remarked_text [0x22] rfl opens rfl rfl holds short deep room
  have made : (reportsMade source options symbols).map Diagnostic.problem =
      List.replicate (countFaulty values) .invalidCodePoint := by
    have problem := congrArg (fun report => report.made.toList.map Diagnostic.problem) reported
    exact (problem.trans (Report.made_addAt ..)).trans problems
  have counted := (parse_records source options symbols).counted
  have tallied (severity : Severity) : parsed.report.count severity =
      if decide (Problem.invalidCodePoint.severity = severity) then countFaulty values else 0 := by
    have each : tally severity (reportsMade source options symbols) =
        ((reportsMade source options symbols).map Diagnostic.problem).countP
          fun problem => problem.severity = severity := by
      rw [List.countP_map]
      rfl
    refine ((counted severity).trans each).trans ?_
    rw [made, List.countP_replicate]
  exact ⟨fatal, made, tallied .error, tallied .warning, whole⟩

/-- A letter, a surrogate and a code point of four bytes. -/
theorem parse_codePoints_mixed :
    let options : ParseOptions := {}
    5 ≤ options.tokenMax ∧ 0 < options.maxDepth ∧ 2 ≤ options.maxNodes ∧
      let source := ascii "\"\\u\x7b41 \tD800 1F600\x7d\""
      let parsed := parse source options {}
      parsed.fatal = none ∧
        (reportsMade source options {}).map Diagnostic.problem = [.invalidCodePoint] ∧
        parsed.report.errors = 1 ∧ parsed.report.warnings = 0 ∧
        ∃ id, parsed.statements? = some [id] ∧
          parsed.arena.Shaped id (.text .string [0x41, 0xF0, 0x9F, 0x98, 0x80]) := by
  intro options
  let zero : WrittenDigit 16 := ⟨0x30, 0, rfl, by decide⟩
  let one : WrittenDigit 16 := ⟨0x31, 1, rfl, by decide⟩
  let four : WrittenDigit 16 := ⟨0x34, 4, rfl, by decide⟩
  let six : WrittenDigit 16 := ⟨0x36, 6, rfl, by decide⟩
  let eight : WrittenDigit 16 := ⟨0x38, 8, rfl, by decide⟩
  let thirteen : WrittenDigit 16 := ⟨0x44, 13, rfl, by decide⟩
  let fifteen : WrittenDigit 16 := ⟨0x46, 15, rfl, by decide⟩
  let space : Gap := ⟨0x20, [], List.forall_mem_cons.mpr ⟨.inl rfl, nofun⟩⟩
  let tabbed : Gap := ⟨0x20, [0x09],
    List.forall_mem_cons.mpr ⟨.inl rfl, List.forall_mem_cons.mpr ⟨.inr rfl, nofun⟩⟩⟩
  let points : List (Gap × WrittenCodePoint) :=
    [(space, ⟨four, [one], by decide⟩), (tabbed, ⟨thirteen, [eight, zero, zero], by decide⟩),
      (space, ⟨one, [fifteen, six, zero, zero], by decide⟩)]
  have text : ascii "\"" ++ WrittenCodePoint.escapeText points ++ ascii "\"" =
      ascii "\"\\u\x7b41 \tD800 1F600\x7d\"" := by decide
  have values : WrittenCodePoint.values points = [0x41, 0xD800, 0x1F600] := by decide
  have bytes : encodeScalars (WrittenCodePoint.values points) =
      [0x41, 0xF0, 0x9F, 0x98, 0x80] := by
    rw [values]
    decide
  have faulty : countFaulty (WrittenCodePoint.values points) = 1 := by
    rw [values]
    decide
  have short : (encodeScalars (WrittenCodePoint.values points)).length ≤ options.tokenMax := by
    rw [bytes]
    decide
  have read := parse_codePoints points options {} short (by decide) (by decide)
  rw [text, faulty, bytes] at read
  exact ⟨by decide, by decide, by decide, read⟩

end RubySyntax

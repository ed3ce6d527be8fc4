/-
Integers as they are written in any base.

A written number is a row of digits with single underscores between some of them, and its
value is the sum of the digits, weighted by the powers of the base. A reading finds just
that, and it finds fault with every other row of digits and underscores.
-/

import Mathlib.Data.List.Induction
import Mathlib.Data.Nat.Digits.Defs
import RubySyntax.Lexer.Number
import RubySyntax.Proofs.Precedence.Tokens

namespace RubySyntax

/-! ### Written numbers -/

structure WrittenDigit (base : Nat) where
  byte : Byte
  value : Nat
  spells : byte.digitValue? = some value
  small : value < base
deriving DecidableEq

def WrittenDigit.sum {base : Nat} (digits : List (WrittenDigit base)) : Nat :=
  Nat.ofDigits base (digits.map WrittenDigit.value).reverse

structure WrittenNumber (base : Nat) where
  first : WrittenDigit base
  more : List (Bool × WrittenDigit base) := []
deriving DecidableEq

namespace WrittenNumber

variable {base : Nat}

def digits (number : WrittenNumber base) : List (WrittenDigit base) :=
  number.first :: number.more.map Prod.snd

def value (number : WrittenNumber base) : Nat :=
  WrittenDigit.sum number.digits

def separated (digits : List (Bool × WrittenDigit base)) : Bytes :=
  digits.flatMap fun (apart, digit) => (if apart then [0x5F] else []) ++ [digit.byte]

def text (number : WrittenNumber base) : Bytes :=
  number.first.byte :: separated number.more

end WrittenNumber

/-- Two underscores stand in a row, or one stands at the end. -/
def MisplacedUnderscore (text : Bytes) : Prop :=
  [0x5F, 0x5F] <:+: text ∨ [0x5F] <:+ text

/-- An underscore that is out of place is out of place without what comes before it. -/
theorem MisplacedUnderscore.of_cons {byte : Byte} {rest : Bytes} (solid : byte ≠ 0x5F)
    (misplaced : MisplacedUnderscore (byte :: rest)) : MisplacedUnderscore rest := by
  rcases misplaced with inside | last
  · rcases List.infix_cons_iff.mp inside with ⟨more, same⟩ | inside
    · exact absurd (List.cons.inj same).1.symm solid
    · exact .inl inside
  · rcases List.suffix_cons_iff.mp last with same | last
    · exact absurd (List.cons.inj same).1.symm solid
    · exact .inr last

/-! ### Digits -/

theorem positionalValue_append (base : Nat) (digits : Bytes) (last : Byte) :
    positionalValue base (digits ++ [last]) =
      positionalValue base digits * base + last.digitValue?.getD 0 := by
  unfold positionalValue
  rw [List.foldl_append]
  rfl

/-- The value that is gathered from the left is the weighted sum. -/
theorem positionalValue_written {base : Nat} (digits : List (WrittenDigit base)) :
    positionalValue base (digits.map WrittenDigit.byte) = WrittenDigit.sum digits := by
  unfold WrittenDigit.sum
  induction digits using List.reverseRecOn with
  | nil => rfl
  | append_singleton digits last ih =>
      rw [List.map_append, List.map_append, List.map_singleton, List.map_singleton,
        positionalValue_append, ih, last.spells, List.reverse_append, List.reverse_singleton,
        List.singleton_append, Nat.ofDigits_cons, Option.getD_some, Nat.mul_comm, Nat.add_comm]

namespace WrittenDigit

variable {base : Nat}

theorem isDigitIn (digit : WrittenDigit base) {larger : Nat} (within : base ≤ larger) :
    digit.byte.isDigitIn larger = true := by
  rw [Byte.isDigitIn, digit.spells]
  exact decide_eq_true (Nat.lt_of_lt_of_le digit.small within)

theorem not_underscore (digit : WrittenDigit base) : (digit.byte.char == '_') = false := by
  have values : ∀ byte : Byte, byte.digitValue?.isSome = true → (byte.char == '_') = false :=
    Byte.forall_of_lt (by decide +kernel)
  exact values _ (Option.isSome_of_eq_some digit.spells)

theorem isDigit (digit : WrittenDigit base) (decimal : base ≤ 10) :
    digit.byte.isDigit = true := by
  have values : ∀ byte : Byte, byte.isDigitIn 10 = true → byte.isDigit = true :=
    Byte.forall_of_lt (by decide +kernel)
  exact values _ (digit.isDigitIn decimal)

end WrittenDigit

/-! ### Rows that are read as a whole -/

namespace DigitRun

variable {base : Nat} {accept : Byte → Bool}

theorem scan_digit (digit : WrittenDigit base) (accepts : accept digit.byte = true)
    (separable : Bool) (rest : Bytes) :
    scan accept separable (digit.byte :: rest) =
      { scan accept true rest with
        digits := digit.byte :: (scan accept true rest).digits
        length := (scan accept true rest).length + 1 } := by
  rw [scan, digit.not_underscore, accepts]
  rfl

/-- Digits with single underscores between them are read up to the end. -/
theorem scan_separated (accepts : ∀ digit : WrittenDigit base, accept digit.byte = true)
    (digits : List (Bool × WrittenDigit base)) :
    scan accept true (WrittenNumber.separated digits) =
      { digits := digits.map fun digit => digit.2.byte
        length := (WrittenNumber.separated digits).length } := by
  induction digits with
  | nil => rfl
  | cons first more ih =>
      obtain ⟨apart, digit⟩ := first
      have here (separable : Bool) :
          scan accept separable (digit.byte :: WrittenNumber.separated more) =
            { digits := digit.byte :: more.map fun digit => digit.2.byte
              length := (WrittenNumber.separated more).length + 1 } := by
        rw [scan_digit digit (accepts digit), ih]
      cases apart with
      | false => exact here true
      | true =>
          change scan accept true (0x5F :: digit.byte :: WrittenNumber.separated more) = _
          rw [scan, here false]
          rfl

theorem scan_number (accepts : ∀ digit : WrittenDigit base, accept digit.byte = true)
    (number : WrittenNumber base) (separable : Bool) :
    scan accept separable number.text =
      { digits := number.digits.map WrittenDigit.byte, length := number.text.length } := by
  rw [WrittenNumber.text, scan_digit _ (accepts _), scan_separated accepts]
  simp [WrittenNumber.digits]

/-! ### Rows in which an underscore is out of place -/

/-- Where an underscore is out of place, a run stops after one. Right after an underscore it
stops at once at another one and at the end. -/
theorem trailing_scan {body : Bytes} (within : ∀ byte ∈ body, byte = 0x5F ∨ accept byte = true) :
    (MisplacedUnderscore body → (scan accept true body).trailing = true) ∧
      (body.head? = none ∨ body.head? = some 0x5F ∨ MisplacedUnderscore body →
        (scan accept false body).length = 0 ∨ (scan accept false body).trailing = true) := by
  induction body with
  | nil =>
      refine ⟨?_, fun _ => .inl rfl⟩
      rintro (inside | last)
      · exact absurd (List.infix_nil.mp inside) (by decide)
      · exact absurd (List.suffix_nil.mp last) (by decide)
  | cons byte rest ih =>
      obtain ⟨afterDigit, afterMark⟩ := ih fun other member =>
        within other (List.mem_cons_of_mem _ member)
      by_cases mark : byte = 0x5F
      · subst mark
        refine ⟨fun misplaced => ?_, fun _ => .inl rfl⟩
        have stops : (scan accept false rest).length = 0 ∨
            (scan accept false rest).trailing = true := by
          apply afterMark
          rcases misplaced with inside | last
          · rcases List.infix_cons_iff.mp inside with start | inside
            · obtain ⟨more, same⟩ := start
              cases same
              exact .inr (.inl rfl)
            · exact .inr (.inr (.inl inside))
          · rcases List.suffix_cons_iff.mp last with same | last
            · cases same
              exact .inl rfl
            · exact .inr (.inr (.inr last))
        change ((scan accept false rest).trailing || (scan accept false rest).length == 0) = true
        rcases stops with none | trailing
        · rw [none]
          exact Bool.or_true _
        · rw [trailing]
          rfl
      · have solid : (byte.char == '_') = false := by
          have only : ∀ byte : Byte, (byte.char == '_') = true → byte = 0x5F :=
            Byte.forall_of_lt (by decide +kernel)
          exact Bool.eq_false_iff.mpr fun same => mark (only byte same)
        have taken : accept byte = true := (within byte List.mem_cons_self).resolve_left mark
        have later : MisplacedUnderscore (byte :: rest) → (scan accept true rest).trailing = true :=
          fun misplaced => afterDigit (misplaced.of_cons mark)
        simp only [scan, solid, taken, Bool.false_eq_true, if_false, if_true]
        refine ⟨later, ?_⟩
        rintro (none | start | misplaced)
        · cases none
        · exact absurd (Option.some.inj start) mark
        · exact .inr (later misplaced)

end DigitRun

end RubySyntax

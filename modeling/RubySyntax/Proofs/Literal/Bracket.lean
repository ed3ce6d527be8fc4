/-
Strings in brackets.

The text of a string in brackets may hold pairs of the same brackets. How many are open is
counted while the text is read, and the string ends at the first closing bracket that closes
none of them.
-/

import Mathlib.Data.List.Infix
import RubySyntax.Proofs.Literal.Statement
import RubySyntax.Proofs.Reading.Begun

namespace RubySyntax

/-- The brackets of a text are paired: none is closed before it is opened, and all are
closed. -/
structure Bytes.Balanced (opening closing : Byte) (text : Bytes) : Prop where
  sane : ∀ first, first <+: text → first.count closing ≤ first.count opening
  settled : text.count closing = text.count opening

namespace Quotation

abbrev bracketed (opening closing : Byte) (start nesting : Nat) : Quotation :=
  { kind := .string
    interpolates := false
    opening := some opening
    closing
    nesting
    percent := true
    start }

variable {opening closing : Byte} {start nesting : Nat} {rest : Bytes}

theorem bracketed_goesOn {byte : Byte} (inside : byte = closing → 0 < nesting) (more : Bytes) :
    (bracketed opening closing start nesting).goesOnAt (byte :: more) = true := by
  have goes : (bracketed opening closing start nesting).closesAt byte = false := by
    by_cases closes : byte = closing
    · rw [closesAt, beq_false_of_ne (Nat.ne_of_gt (inside closes)), Bool.and_false]
    · rw [closesAt, beq_false_of_ne closes, Bool.false_and]
  rw [goesOnAt, goes]
  rfl

theorem nest_bracketed (start : Nat) (apart : opening ≠ closing) {byte : Byte}
    (inside : byte = closing → 0 < nesting) :
    ∃ deeper, (bracketed opening closing start nesting).nest byte =
        bracketed opening closing start deeper ∧
      deeper + [byte].count closing = nesting + [byte].count opening := by
  by_cases opens : byte = opening
  · subst opens
    refine ⟨nesting + 1, ?_, ?_⟩
    · rw [nest]
      simp only [beq_self_eq_true, if_true]
    · rw [List.count_singleton_self, List.count_singleton, if_neg (by simpa using apart)]
  have noOpening : (byte == opening) = false := beq_false_of_ne opens
  by_cases closes : byte = closing
  · subst closes
    have settled := inside rfl
    refine ⟨nesting - 1, ?_, ?_⟩
    · rw [nest]
      simp only [noOpening, beq_self_eq_true, Bool.true_and, Bool.false_eq_true, if_false,
        decide_eq_true settled, if_true]
    · rw [List.count_singleton_self, List.count_singleton, noOpening]
      simp only [Bool.false_eq_true, if_false]
      omega
  · have noClosing : (byte == closing) = false := beq_false_of_ne closes
    refine ⟨nesting, ?_, ?_⟩
    · rw [nest]
      simp only [noOpening, noClosing, Bool.false_and, Bool.false_eq_true, if_false]
    · rw [List.count_singleton, List.count_singleton, noOpening, noClosing]

/-- A text without backslashes stands for itself if it closes no bracket that is not open. -/
theorem reads_brackets (start : Nat) (rest : Bytes) (apart : opening ≠ closing) (text : Bytes)
    (plain : 0x5C ∉ text)
    (sane : ∀ first, first <+: text → first.count closing ≤ nesting + first.count opening) :
    ∃ left, (bracketed opening closing start nesting).Reads rest text text
        (bracketed opening closing start left) [] ∧
      left + text.count closing = nesting + text.count opening := by
  induction text generalizing nesting with
  | nil => exact ⟨nesting, .done, rfl⟩
  | cons byte text ih =>
      have counts : ∀ (value : Byte) (bytes : Bytes),
          (byte :: bytes).count value = [byte].count value + bytes.count value := by
        intro value bytes
        rw [← List.count_append, List.singleton_append]
      have inside : byte = closing → 0 < nesting := by
        rintro rfl
        have first := sane [byte] ⟨text, rfl⟩
        rw [List.count_singleton_self, List.count_singleton,
          if_neg (by simpa using apart.symm)] at first
        exact first
      obtain ⟨deeper, nested, settled⟩ := nest_bracketed start apart inside
      have later : ∀ first, first <+: text →
          first.count closing ≤ deeper + first.count opening := by
        intro first before
        have whole := sane (byte :: first) (List.cons_prefix_cons.mpr ⟨rfl, before⟩)
        rw [counts closing, counts opening] at whole
        omega
      have inner : 0x5C ∉ text := fun member => plain (List.mem_cons_of_mem _ member)
      obtain ⟨last, reads, counted⟩ := ih inner later
      refine ⟨last, .plain (bracketed_goesOn inside _) ?_ (nested ▸ reads), ?_⟩
      · rintro rfl
        exact plain List.mem_cons_self
      · rw [counts closing, counts opening]
        omega

theorem holds_brackets (apart : opening ≠ closing) {text : Bytes} (plain : 0x5C ∉ text)
    (balanced : text.Balanced opening closing) :
    (bracketed opening closing start 0).Holds text text rest := by
  have sane : ∀ first, first <+: text → first.count closing ≤ 0 + first.count opening := by
    intro first before
    rw [Nat.zero_add]
    exact balanced.sane first before
  obtain ⟨last, reads, counted⟩ := reads_brackets start (closing :: rest) apart text plain sane
  refine ⟨_, reads, ?_⟩
  have settled := balanced.settled
  change last = 0
  omega

end Quotation

/-! ### The tokens of a string -/

namespace Parse

variable {table : RuleTable} {depth : Nat} {state : State} {literal : Quotation}
  {text value rest : Bytes} {span : Span}

theorem primary_begins_text {begun : List Token}
    (ahead : state.lookahead = some ⟨.literalBegin .string, span⟩)
    (next : State.AtText { state with lookahead := none } literal text value rest)
    (read : begun.reverse = state.tokens.reverse ++ textTokens state.input.position text value) :
    Begins begun (Parse.table depth) primary state := by
  let taken : State := { state with lookahead := none, previousStop := span.stop }
  have next : taken.AtText literal text value rest :=
    ⟨rfl, next.within, next.kind, next.noLabel, next.holds, next.short, next.here⟩
  have parts : Begins begun (Parse.table depth) literalParts taken := by
    refine (literalParts_text next).mono ?_
    rintro parts after ⟨place, -, seen⟩
    have same : begun = after.tokens := List.reverse_injective (read.trans seen.tokens.symm)
    exact same ▸ List.suffix_refl begun
  have quoted : Begins begun (Parse.table depth) (quoted span .string) taken := by
    refine parts.bind fun parts => ?_
    apply InStep.andThen
    intro token
    dsimp only
    split
    · infer_instance
    · infer_instance
    · infer_instance
  have literal : Begins begun (Parse.table depth) (Parse.literal .string) state :=
    Yields.take_bind ahead (quoted.bind inferInstance)
  exact Yields.peek_bind ahead (literal.bind inferInstance)

end Parse

/-- A program that starts with a string begins with the tokens of its text, which end with its
closing delimiter. -/
theorem tokensRead_text (opener : Bytes) {text value rest source : Bytes} {literal : Quotation}
    {options : ParseOptions} {symbols : SymbolTable}
    (spelled : source = opener ++ (text ++ literal.closing :: rest))
    (opens : Scan.Succeeds Scan.nextToken (State.start source options symbols) fun token after =>
      token = ⟨.literalBegin .string, ⟨0, opener.length⟩⟩ ∧
        after = (State.start source options symbols).opened opener.length literal)
    (kind : literal.kind = .string) (noLabel : literal.labelAllowed = false)
    (holds : literal.Holds text value rest) (short : value.length ≤ options.tokenMax)
    (deep : 0 < options.maxDepth) :
    ⟨.literalBegin .string, ⟨0, opener.length⟩⟩ :: textTokens opener.length text value <+:
      tokensRead source options symbols := by
  let start := State.start source options symbols
  let token : Token := ⟨.literalBegin .string, ⟨0, opener.length⟩⟩
  let seen : State := { start.opened opener.length literal with
    tokens := [token]
    lookahead := some token }
  let deeper : State := { seen with depth := seen.depth + 1 }
  let begun : List Token := (token :: textTokens opener.length text value).reverse
  have left : start.Left (opener ++ (text ++ literal.closing :: rest)) :=
    spelled ▸ State.start_left source options symbols
  have next : State.AtText { deeper with lookahead := none } literal text value rest :=
    State.opened_atText left kind noLabel holds short rfl rfl rfl rfl
  have read : begun.reverse =
      deeper.tokens.reverse ++ textTokens deeper.input.position text value := by
    change (token :: textTokens opener.length text value).reverse.reverse =
      token :: textTokens (0 + opener.length) text value
    rw [List.reverse_reverse, Nat.zero_add]
  have statement : ∀ depth, Parse.Begins begun (Parse.table depth) Parse.statement seen := by
    intro depth
    refine Parse.statement_begins rfl (Parse.plainStatement_begins rfl rfl
      (Parse.expression_begins rfl rfl fun depth => ?_))
    exact Parse.argumentOperand_begins rfl rfl deep fun depth =>
      Parse.primary_begins_text rfl next read
  have program : ∀ depth, Parse.Begins begun (Parse.table depth) Parse.program start := by
    intro depth
    refine Parse.program_begins ?_ rfl rfl (statement depth)
    refine (Parse.peekToken_knows rfl (by nofun) opens).bind ?_
    rintro _ _ ⟨rfl, rfl⟩
    exact Parse.yields_pure ⟨rfl, rfl⟩
  have whole := tokensRead_of_begins program
  rwa [List.reverse_reverse] at whole

section

variable {opening closing : Byte}

/-- The pairs are those that the lexer knows. -/
theorem closingBracket?_of_pair
    (pair : (opening, closing) ∈ [(0x28, 0x29), (0x5B, 0x5D), (0x7B, 0x7D), (0x3C, 0x3E)]) :
    Scan.closingBracket? opening = some closing ∧ opening ≠ closing := by
  simp only [List.mem_cons, Prod.mk.injEq, List.not_mem_nil, or_false] at pair
  rcases pair with ⟨rfl, rfl⟩ | ⟨rfl, rfl⟩ | ⟨rfl, rfl⟩ | ⟨rfl, rfl⟩ <;> exact ⟨rfl, by decide⟩

/-- A string in brackets whose text has paired ones is read as that text. Where a line follows,
the tokens of the string end with the bracket that closes none of the text. The limits need
room for one level of nesting and for the nodes of the program and the string. -/
theorem parse_brackets (text : Bytes) (options : ParseOptions) (symbols : SymbolTable)
    (pair : (opening, closing) ∈ [(0x28, 0x29), (0x5B, 0x5D), (0x7B, 0x7D), (0x3C, 0x3E)])
    (plain : 0x5C ∉ text) (balanced : text.Balanced opening closing)
    (short : text.length ≤ options.tokenMax) (deep : 0 < options.maxDepth)
    (room : 2 ≤ options.maxNodes) :
    let parsed := parse (ascii "%q" ++ opening :: (text ++ [closing])) options symbols
    (parsed.Clean ∧ ∃ id, parsed.statements? = some [id] ∧
      parsed.arena.Shaped id (.text .string text)) ∧
    ∀ more, ⟨.literalBegin .string, ⟨0, 3⟩⟩ :: textTokens 3 text text <+:
      tokensRead (ascii "%q" ++ opening :: (text ++ closing :: 0x0A :: more)) options symbols := by
  obtain ⟨bracket, apart⟩ := closingBracket?_of_pair pair
  have mark : ascii "%q" = [0x25, 0x71] := by decide
  have spelled : ∀ rest, ascii "%q" ++ opening :: (text ++ closing :: rest) =
      [0x25, 0x71, opening] ++ (text ++ closing :: rest) := by
    intro rest
    rw [mark]
    rfl
  have opens : ∀ rest, Scan.Succeeds Scan.nextToken
      (State.start (ascii "%q" ++ opening :: (text ++ closing :: rest)) options symbols)
      fun token after => token = ⟨.literalBegin .string, ⟨0, 3⟩⟩ ∧
        after = State.opened
          (State.start (ascii "%q" ++ opening :: (text ++ closing :: rest)) options symbols) 3
          (.bracketed opening closing 0 0) := by
    intro rest
    exact Scan.percentBegin_yields (State.start_left _ options symbols).idle rfl bracket
      (spelled rest)
  constructor
  · exact parse_text [0x25, 0x71, opening] (spelled []) (opens []) rfl rfl
      (Quotation.holds_brackets apart plain balanced) short deep room
  · intro more
    exact tokensRead_text [0x25, 0x71, opening] (spelled _) (opens _) rfl rfl
      (Quotation.holds_brackets apart plain balanced) short deep

end

/-- Brackets in brackets, beside one of another kind; the next line closes one more. -/
theorem parse_brackets_deep :
    let text := ascii "a(b(c)())[d"
    let options : ParseOptions := {}
    ((0x28, 0x29) : Byte × Byte) ∈ [(0x28, 0x29), (0x5B, 0x5D), (0x7B, 0x7D), (0x3C, 0x3E)] ∧
      0x5C ∉ text ∧ text.Balanced 0x28 0x29 ∧ text.length ≤ options.tokenMax ∧
      0 < options.maxDepth ∧ 2 ≤ options.maxNodes ∧
      let parsed := parse (ascii "%q" ++ 0x28 :: (text ++ [0x29])) options {}
      (parsed.Clean ∧ ∃ id, parsed.statements? = some [id] ∧
        parsed.arena.Shaped id (.text .string text)) ∧
      [⟨.literalBegin .string, ⟨0, 3⟩⟩, ⟨.content text false, ⟨3, 14⟩⟩,
        ⟨.literalEnd [], ⟨14, 15⟩⟩] <+:
        tokensRead (ascii "%q" ++ 0x28 :: (text ++ 0x29 :: 0x0A :: ascii ")")) options {} := by
  intro text options
  have plain : 0x5C ∉ text := by decide
  have balanced : text.Balanced 0x28 0x29 := by
    have each : ∀ first ∈ text.inits, first.count 0x29 ≤ first.count 0x28 := by decide
    exact ⟨fun first before => each first ((List.mem_inits ..).mpr before), by decide⟩
  have read := parse_brackets text options {} (by decide) plain balanced (by decide) (by decide)
    (by decide)
  exact ⟨by decide, plain, balanced, by decide, by decide, by decide, read.1, read.2 _⟩

end RubySyntax

/-
Tokens follow one another in the source.

A token ends no later than the next one starts, and what lies between them may stand
between tokens. That is so up to the first token that is the end of the program. It
is shown for a run that is watched from token to token: the position of the input is
the end of the token that was read last.

Tokens end inside the source up to the first one that opens a literal whose delimiter is
the byte 0. There the run is watched for the literals that are open.
-/

import RubySyntax.Proofs.Lexer.Lands
import RubySyntax.Proofs.Nesting.Program
import RubySyntax.Proofs.ReportMode

namespace RubySyntax

variable {source : Bytes} {answers : List (Option Chunk)} {made : List Diagnostic}

/-! ### A run of its own -/

def Coupling.alone (watch : Watch) : Coupling :=
  .ofReports watch (fun first second => second = first) (congrArg Report.map)
    (fun _ _ same => by rw [same]) fun same _ _ => by rw [same]

section

variable (source : Bytes) (options : ParseOptions) (symbols : SymbolTable)

/-- What is watched from the start of a run is known at its end, whatever the run ends with. -/
theorem Watch.runProgram_knows (watch : Watch) [(Coupling.alone watch).Tracks]
    (always : (Coupling.alone watch).Always (State.start source options symbols))
    (between : (Coupling.alone watch).Between (State.start source options symbols)) :
    match runProgram source options symbols with
    | .ok _ after => (Coupling.alone watch).Always after ∧ (Coupling.alone watch).Between after
    | .error _ after => (Coupling.alone watch).Always after := by
  have meets := (Coupling.alone watch).runProgram_meets ⟨rfl, rfl, rfl, rfl, always⟩ between
  have ends := meets.ends
  cases run : runProgram source options symbols with
  | ok tree after =>
      rw [run] at ends
      obtain ⟨_, -, alike⟩ := ends
      exact ⟨alike.always, meets.between run⟩
  | error halt after =>
      rw [run] at ends
      obtain ⟨_, -, alike⟩ := ends.resolve_left id
      exact alike.always

end

/-! ### Tokens in order -/

def Ongoing (tokens : List Token) : Prop :=
  ∀ token ∈ tokens, token.kind ≠ .endOfInput

/-- The tokens, of which the last one comes first, follow one another up to the end
of the program. -/
structure InOrder (source : Bytes) (answers : List (Option Chunk)) (made : List Diagnostic)
    (tokens : List Token) : Prop where
  ordered : ∀ token ∈ tokens, token.span.start ≤ token.span.stop
  follows : ∀ {later second first earlier}, tokens = later ++ second :: first :: earlier →
    Ongoing (first :: earlier) →
      first.span.stop ≤ second.span.start ∧
        Skipped source answers made first.span.stop second.span.start

namespace InOrder

variable {tokens : List Token}

theorem nil : InOrder source answers made [] where
  ordered := nofun
  follows same := absurd same (by simp)

theorem mono (order : InOrder source answers made tokens) {later : List Diagnostic}
    (more : made <+: later) : InOrder source answers later tokens where
  ordered := order.ordered
  follows same ongoing := (order.follows same ongoing).imp_right (.mono more)

theorem cons {token : Token} (order : InOrder source answers made tokens)
    (ordered : token.span.start ≤ token.span.stop)
    (next : ∀ first earlier, tokens = first :: earlier → Ongoing (first :: earlier) →
      first.span.stop ≤ token.span.start ∧
        Skipped source answers made first.span.stop token.span.start) :
    InOrder source answers made (token :: tokens) where
  ordered := List.forall_mem_cons.mpr ⟨ordered, order.ordered⟩
  follows {later _ _ _} same ongoing := by
    cases later with
    | nil =>
        obtain ⟨rfl, rest⟩ := List.cons.inj same
        exact next _ _ rest ongoing
    | cons _ later => exact order.follows (List.cons.inj same).2 ongoing

end InOrder

def Watch.ordered (source : Bytes) (answers : List (Option Chunk)) : Watch where
  always input report tokens := input.Received source answers ∧
    InOrder source answers report.made.toList tokens
  between input _ tokens _ _ := Ongoing tokens → ∀ token ∈ tokens.head?,
    token.span.stop = input.position
  advance distance known := ⟨known.1.advance distance, known.2⟩
  ask known empty := ⟨known.1.ask empty, known.2⟩
  fetch known answer := ⟨known.1.append answer, known.2⟩
  add _ _ known := ⟨known.1, known.2.mono (Report.made_isPrefix_add ..)⟩
  addBetween _ _ known := known
  look known _ := known
  take known := known
  wait _ known := known

instance : (Coupling.alone (.ordered source answers)).Tracks where
  read {state after token} always between run _ := by
    obtain ⟨received, order⟩ := always
    have finds := (Scan.nextToken_finds received).post run
    have tokens := finds.undisturbed.tokens
    refine ⟨⟨finds.undisturbed.received source answers received, ?_⟩, ?_⟩
    · change InOrder source answers after.report.made.toList (token :: after.tokens)
      rw [tokens]
      apply (order.mono finds.undisturbed.made).cons finds.ordered
      intro first earlier same ongoing
      rw [← same] at ongoing
      have here := between ongoing first (by rw [same]; rfl)
      rw [here]
      exact ⟨finds.onward, finds.skipped⟩
    · intro ongoing last member
      obtain rfl := Option.some.inj member
      exact finds.stops (ongoing _ List.mem_cons_self)
  traces _ _ _ _ _ same := by rw [same]

variable (source : Bytes) (options : ParseOptions) (symbols : SymbolTable)

/-- What lies between two tokens may stand there, or has been reported. -/
theorem tokensRead_inOrder : InOrder source options.answers (reportsMade source options symbols)
    (tokensRead source options symbols).reverse := by
  have known := Watch.runProgram_knows source options symbols (.ordered source options.answers)
    ⟨Input.received_ofBytes source options.answers, .nil⟩ (fun _ => nofun)
  unfold reportsMade parse tokensRead
  cases run : runProgram source options symbols with
  | ok tree after =>
      rw [run] at known
      rw [List.reverse_reverse]
      exact known.1.2
  | error halt after =>
      rw [run] at known
      rw [List.reverse_reverse]
      cases halt with
      | fatal error => exact known.2.mono (Report.made_isPrefix_add ..)
      | starved => exact known.2
      | fault fault => exact known.2

variable {source options symbols} {first second : Token} {earlier later : List Token}

/-- Of two tokens that are read one after the other, before the end of the program has
been, the first one ends no later than the second one starts. Every byte between them
belongs to white space, to an escaped line end, to a comment, to an embedded document
or to bytes that are reported as invalid. -/
theorem parse_tokens_ordered
    (read : tokensRead source options symbols = earlier ++ first :: second :: later)
    (ongoing : ∀ token ∈ earlier ++ [first], token.kind ≠ .endOfInput) :
    first.span.start ≤ first.span.stop ∧ first.span.stop ≤ second.span.start ∧
      Skipped source options.answers (reportsMade source options symbols)
        first.span.stop second.span.start := by
  have order := tokensRead_inOrder source options symbols
  have backwards : (tokensRead source options symbols).reverse =
      later.reverse ++ second :: first :: earlier.reverse := by
    rw [read]
    simp
  refine ⟨?_, order.follows backwards ?_⟩
  · apply order.ordered
    rw [backwards]
    simp
  · intro token member
    apply ongoing
    simpa [or_comm] using member

/-- A byte that is no token and a comment lie before the value of an assignment. -/
theorem parse_tokens_ordered_comment :
    tokensRead (ascii "a = \x01 # x\n 1") {} {} =
        [⟨.identifier ⟨0⟩, ⟨0, 1⟩⟩] ++ ⟨.punct .assign, ⟨2, 3⟩⟩ :: ⟨.integer 1, ⟨11, 12⟩⟩ ::
          [⟨.endOfInput, ⟨12, 12⟩⟩] ∧
      Skipped (ascii "a = \x01 # x\n 1") [] (reportsMade (ascii "a = \x01 # x\n 1") {} {})
        3 11 := by
  have read : tokensRead (ascii "a = \x01 # x\n 1") {} {} =
      [⟨.identifier ⟨0⟩, ⟨0, 1⟩⟩] ++ ⟨.punct .assign, ⟨2, 3⟩⟩ :: ⟨.integer 1, ⟨11, 12⟩⟩ ::
        [⟨.endOfInput, ⟨12, 12⟩⟩] := by
    decide +kernel
  exact ⟨read, (parse_tokens_ordered read (by decide)).2.2⟩

/-! ### Tokens inside the source -/

def NulFree (bytes : Bytes) (tokens : List Token) : Prop :=
  ∀ token ∈ tokens, ¬token.OpensAtNul bytes

/-- The tokens, of which the last one comes first, end inside the bytes up to the first one that
opens a literal whose delimiter is the byte 0. -/
def EndInside (bytes : Bytes) (tokens : List Token) : Prop :=
  ∀ later token earlier, tokens = later ++ token :: earlier → NulFree bytes earlier →
    token.span.stop ≤ bytes.length

theorem EndInside.nil (bytes : Bytes) : EndInside bytes [] := by
  intro later token earlier same
  exact absurd same (by simp)

theorem EndInside.cons {bytes : Bytes} {tokens : List Token} (ends : EndInside bytes tokens)
    {token : Token} (inside : NulFree bytes tokens → token.span.stop ≤ bytes.length) :
    EndInside bytes (token :: tokens) := by
  intro later last earlier same free
  cases later with
  | nil =>
      obtain ⟨rfl, rfl⟩ := List.cons.inj same
      exact inside free
  | cons _ later => exact ends later last earlier (List.cons.inj same).2 free

def Watch.inside (source : Bytes) (answers : List (Option Chunk)) : Watch where
  always input _ tokens := input.Received source answers ∧
    EndInside (supplied source answers) tokens
  between input _ tokens _ lexer := NulFree (supplied source answers) tokens →
    input.Inside ∧ ∀ literal ∈ lexer.quotations, literal.Marked
  advance distance known := ⟨known.1.advance distance, known.2⟩
  ask known empty := ⟨known.1.ask empty, known.2⟩
  fetch known answer := ⟨known.1.append answer, known.2⟩
  add _ _ known := known
  addBetween _ _ known := known
  look known _ := known
  take known := known
  wait waits known free := (known free).imp_right fun marked _ member =>
    marked _ (waits.quotations member)

instance : (Coupling.alone (.inside source answers)).Tracks where
  read {state after token} always between run known := by
    obtain ⟨received, ends⟩ := always
    have tokens := ((Scan.nextToken_finds received).post run).undisturbed.tokens
    obtain ⟨received, -⟩ := known
    have size := received.isPrefix.length_le
    rw [Array.length_toList] at size
    have lands (free : NulFree (supplied source answers) state.tokens) :
        token.Lands after := by
      obtain ⟨inside, marked⟩ := between free
      exact (Scan.nextToken_lands ⟨inside, marked⟩).post run
    refine ⟨⟨received, ?_⟩, ?_⟩
    · change EndInside (supplied source answers) (token :: after.tokens)
      rw [tokens]
      exact ends.cons fun free => Nat.le_trans (lands free).stop size
    · intro free
      change NulFree (supplied source answers) (token :: after.tokens) at free
      rw [tokens] at free
      have landed := lands fun earlier member => free earlier (List.mem_cons_of_mem _ member)
      refine ⟨landed.input, landed.marked.resolve_right fun opens => ?_⟩
      apply free token List.mem_cons_self
      refine ⟨opens.1, received.getElem?_bytes ?_⟩
      rw [← Array.getElem?_toList]
      exact opens.2
  traces _ _ _ _ _ same := by rw [same]

variable (source options symbols)

theorem parse_endInside : EndInside (supplied source options.answers)
    (tokensRead source options symbols).reverse := by
  have known := Watch.runProgram_knows source options symbols (.inside source options.answers)
    ⟨Input.received_ofBytes source options.answers, .nil _⟩
    (fun _ => ⟨⟨rfl, Nat.zero_le _⟩, nofun⟩)
  unfold tokensRead
  cases run : runProgram source options symbols with
  | ok tree after =>
      rw [run] at known
      rw [List.reverse_reverse]
      exact known.1.2
  | error halt after =>
      rw [run] at known
      rw [List.reverse_reverse]
      exact known.2

variable {source options symbols}

/-- A token ends inside the source, with all that is supplied on request, if no token before it
opens a literal whose delimiter is the byte 0. -/
theorem parse_tokens_inside {token : Token}
    (read : tokensRead source options symbols = earlier ++ token :: later)
    (free : NulFree (supplied source options.answers) earlier) :
    token.span.stop ≤ (supplied source options.answers).length := by
  have backwards : (tokensRead source options symbols).reverse =
      later.reverse ++ token :: earlier.reverse := by
    rw [read]
    simp
  apply parse_endInside source options symbols _ _ _ backwards
  exact fun other member => free other (List.mem_reverse.mp member)

/-- After a backslash at the end the delimiter 0 is taken for one byte more. -/
example : (tokensRead (ascii "%q" ++ [0x00, 0x5C]) {} {}).map Token.span = [⟨0, 3⟩, ⟨3, 5⟩] := by
  decide +kernel

end RubySyntax

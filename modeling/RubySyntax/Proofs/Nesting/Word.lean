/-
Brackets in a sequence of tokens.

The kinds of opening tokens that share a closing one count as one bracket. A
word of opening and closing marks is well nested if it is put together from
enclosed words, each between marks of one bracket. Beside this definition
stands the computation that the proofs follow: the brackets that are open after
some tokens.
-/

import RubySyntax.Token.Basic

namespace RubySyntax

inductive Bracket where
  | round
  | square
  | brace
  | interpolation
deriving DecidableEq, Repr, Inhabited

inductive BracketMark where
  | opening (bracket : Bracket)
  | closing (bracket : Bracket)
deriving DecidableEq, Repr, Inhabited

def TokenKind.bracketMark? : TokenKind → Option BracketMark
  | .punct .leftParen => some (.opening .round)
  | .punct .callParen => some (.opening .round)
  | .punct .argumentParen => some (.opening .round)
  | .punct .leftBracket => some (.opening .square)
  | .punct .arrayBracket => some (.opening .square)
  | .punct .leftBrace => some (.opening .brace)
  | .punct .commandBrace => some (.opening .brace)
  | .punct .hashBrace => some (.opening .brace)
  | .interpolationBegin => some (.opening .interpolation)
  | .punct .rightParen => some (.closing .round)
  | .punct .rightBracket => some (.closing .square)
  | .punct .rightBrace => some (.closing .brace)
  | .interpolationEnd => some (.closing .interpolation)
  | _ => none

theorem TokenKind.bracketMark_of_isLeftParen {kind : TokenKind} (isParen : kind.isLeftParen) :
    kind.bracketMark? = some (.opening .round) := by
  unfold isLeftParen at isParen
  split at isParen
  · rfl
  · rfl
  · rfl
  · cases isParen

theorem TokenKind.bracketMark_of_isLeftBrace {kind : TokenKind} (isBrace : kind.isLeftBrace) :
    kind.bracketMark? = some (.opening .brace) := by
  unfold isLeftBrace at isBrace
  split at isBrace
  · rfl
  · rfl
  · rfl
  · cases isBrace

theorem TokenKind.bracketMark_of_isDo {kind : TokenKind} (isDo : kind.isDo) :
    kind.bracketMark? = none := by
  unfold TokenKind.isDo at isDo
  split at isDo
  · rfl
  · rfl
  · rfl
  · cases isDo

theorem TokenKind.bracketMark_of_isTerminator {kind : TokenKind}
    (terminates : kind.isTerminator) : kind.bracketMark? = none := by
  unfold isTerminator at terminates
  split at terminates
  · rfl
  · rfl
  · cases terminates

def bracketWord (tokens : List Token) : List BracketMark :=
  tokens.filterMap fun token => token.kind.bracketMark?

/-- Every mark has a partner of its own bracket, and partners do not cross. -/
inductive WellNested : List BracketMark → Prop where
  | empty : WellNested []
  | enclosed (bracket : Bracket) {inside rest : List BracketMark} (inner : WellNested inside)
      (later : WellNested rest) :
      WellNested (.opening bracket :: inside ++ .closing bracket :: rest)

namespace WellNested

variable {left right word : List BracketMark}

theorem append (first : WellNested left) (second : WellNested right) :
    WellNested (left ++ right) := by
  induction first with
  | empty => exact second
  | enclosed bracket inner later _ laterAppend =>
      rw [List.append_assoc]
      exact .enclosed bracket inner laterAppend

theorem pair (bracket : Bracket) (inner : WellNested word) :
    WellNested (.opening bracket :: word ++ [.closing bracket]) :=
  .enclosed bracket inner .empty

end WellNested

/-! ### Open brackets -/

/-- The brackets open after a token, if those open before it are given, the
innermost one first; nothing if the token closes a bracket that is not
innermost. -/
def Bracket.openAfter (mark : Option BracketMark) (stack : List Bracket) :
    Option (List Bracket) :=
  match mark, stack with
  | none, stack => some stack
  | some (.opening bracket), stack => some (bracket :: stack)
  | some (.closing bracket), innermost :: outer =>
      if innermost = bracket then some outer else none
  | some (.closing _), [] => none

def openBrackets? : List Token → Option (List Bracket)
  | [] => some []
  | token :: earlier =>
      (openBrackets? earlier).bind (Bracket.openAfter token.kind.bracketMark?)

/-- A word that is well nested but for its open brackets, the innermost one
first. -/
def Leaves : List Bracket → List BracketMark → Prop
  | [], word => WellNested word
  | bracket :: outer, word =>
      ∃ before inside, word = before ++ .opening bracket :: inside ∧
        Leaves outer before ∧ WellNested inside

theorem Leaves.append {stack : List Bracket} {word more : List BracketMark}
    (leaves : Leaves stack word) (nested : WellNested more) : Leaves stack (word ++ more) := by
  cases stack with
  | nil => exact WellNested.append leaves nested
  | cons bracket outer =>
      obtain ⟨before, inside, rfl, outerLeaves, inner⟩ := leaves
      exact ⟨before, inside ++ more, by simp, outerLeaves, inner.append nested⟩

/-- One more mark leaves the brackets that `Bracket.openAfter` computes. -/
theorem Leaves.step {stack left : List Bracket} {word : List BracketMark}
    {mark : Option BracketMark} (leaves : Leaves stack word)
    (stepped : Bracket.openAfter mark stack = some left) :
    Leaves left (word ++ mark.toList) := by
  unfold Bracket.openAfter at stepped
  split at stepped
  · cases stepped
    simpa using leaves
  · cases stepped
    exact ⟨word, [], rfl, leaves, .empty⟩
  · next bracket innermost outer =>
      split at stepped
      · next same =>
          cases stepped
          subst same
          obtain ⟨before, inside, rfl, outerLeaves, inner⟩ := leaves
          have closed := outerLeaves.append (WellNested.pair innermost inner)
          simpa using closed
      · cases stepped
  · cases stepped

theorem bracketWord_reverse_cons (token : Token) (earlier : List Token) :
    bracketWord (token :: earlier).reverse =
      bracketWord earlier.reverse ++ token.kind.bracketMark?.toList := by
  unfold bracketWord
  rw [List.reverse_cons, List.filterMap_append]
  cases found : token.kind.bracketMark? with
  | none => simp [found]
  | some mark => simp [found]

theorem openBrackets_leaves {tokens : List Token} {stack : List Bracket}
    (computed : openBrackets? tokens = some stack) :
    Leaves stack (bracketWord tokens.reverse) := by
  induction tokens generalizing stack with
  | nil =>
      cases computed
      exact .empty
  | cons token earlier ih =>
      obtain ⟨before, known, stepped⟩ := Option.bind_eq_some_iff.mp computed
      rw [bracketWord_reverse_cons]
      exact (ih known).step stepped

/-- Tokens after which no bracket is open are well nested. -/
theorem wellNested_of_openBrackets {tokens : List Token}
    (computed : openBrackets? tokens = some []) :
    WellNested (bracketWord tokens.reverse) :=
  openBrackets_leaves computed

end RubySyntax

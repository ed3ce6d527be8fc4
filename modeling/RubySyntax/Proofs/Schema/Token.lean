/-
Reading and taking tokens, and calling rules through a table.

Reading leaves the nodes alone, but the bodies of heredocs are read on the way
to a token. They are read where no token waits, or one that starts no variable.
-/

import RubySyntax.Grammar.Definition
import RubySyntax.Proofs.Grammar.Change
import RubySyntax.Proofs.Schema.Call

namespace RubySyntax

variable {α : Type} {outcome : Arena} {known : Prop} {loose : NodeId → Prop}
  {state : State}

/-! ### The rules of a table -/

def Nonterminal.Upholds (outcome : Arena) : (name : Nonterminal) → Scan name.Result → Prop
  | .heredocBodies, step => ∀ (loose : NodeId → Prop) (state : State), state.Orderly →
      state.Holds loose → ¬state.Sees .variableInterpolation →
      Scan.Returns step state fun _ after => Leads outcome loose True state after True ∧
        ¬after.Sees .variableInterpolation
  | .argument _, step => Scan.Upholds outcome True step (Judged.good outcome)
  | .binary .., step => Scan.Upholds outcome True step (Judged.good outcome)
  | .minus _, step => Scan.Upholds outcome True step (Judged.good outcome)
  | .unary _, step => Scan.Upholds outcome True step (Judged.good outcome)
  | .chain, step => Scan.Upholds outcome True step (Judged.good outcome)
  | .command head _, step =>
      Scan.Upholds outcome (Judged.good outcome head) step fun _ => True
  | .pattern, step => Scan.Upholds outcome True step (outcome.Tagged ["mlhs"])
  | _, step => Scan.Upholds outcome True step fun _ => True

class RuleTable.Upholds (table : RuleTable) (outcome : Arena) : Prop where
  upholds : ∀ name : Nonterminal, name.Upholds outcome (table name)

namespace Parse

variable {table : RuleTable} [served : table.Upholds outcome]

instance : Conforming outcome table known (descend .statements) :=
  ⟨Scan.Upholds.mono (Scan.Upholds.given (served.upholds .statements) fun _ => trivial)
    fun _ _ _ _ _ => trivial⟩
instance (rule : CommandRule) : Conforming outcome table known (descend (.negation rule)) :=
  ⟨Scan.Upholds.given (served.upholds (.negation rule)) fun _ => trivial⟩
instance (rule : CommandRule) : Conforming outcome table known (descend (.argument rule)) :=
  ⟨Scan.Upholds.given (served.upholds (.argument rule)) fun _ => trivial⟩
instance (rule : CommandRule) (level : Nat) :
    Conforming outcome table known (descend (.binary rule level)) :=
  ⟨Scan.Upholds.given (served.upholds (.binary rule level)) fun _ => trivial⟩
instance (rule : CommandRule) : Conforming outcome table known (descend (.minus rule)) :=
  ⟨Scan.Upholds.given (served.upholds (.minus rule)) fun _ => trivial⟩
instance (rule : CommandRule) : Conforming outcome table known (descend (.unary rule)) :=
  ⟨Scan.Upholds.given (served.upholds (.unary rule)) fun _ => trivial⟩
instance : Conforming outcome table known (descend .chain) :=
  ⟨Scan.Upholds.given (served.upholds .chain) fun _ => trivial⟩
instance (head : Operand) (allowBlock : Bool) [Entails known (Judged.good outcome head)] :
    Conforming outcome table known (descend (.command head allowBlock)) :=
  ⟨Scan.Upholds.given (served.upholds (.command head allowBlock)) Entails.holds⟩
instance : Conforming outcome table known (descend .ifTail) :=
  ⟨Scan.Upholds.mono (Scan.Upholds.given (served.upholds .ifTail) fun _ => trivial)
    fun _ _ _ _ _ => trivial⟩
instance : Conforming outcome table known (descend .target) :=
  ⟨Scan.Upholds.given (served.upholds .target) fun _ => trivial⟩

theorem pattern_upholds :
    Upholds outcome table known (descend .pattern) (outcome.Tagged ["mlhs"]) :=
  Scan.Upholds.given (served.upholds .pattern) fun _ => trivial

instance : Conforming outcome table known (descend .pattern) :=
  ⟨pattern_upholds.mono fun _ _ _ => trivial⟩

theorem heredocBodies_leads (orderly : state.Orderly) (holds : state.Holds loose)
    (noVariable : ¬state.Sees .variableInterpolation) :
    Returns table (descend .heredocBodies) state fun _ after =>
      Leads outcome loose True state after True ∧ ¬after.Sees .variableInterpolation :=
  served.upholds .heredocBodies loose state orderly holds noVariable

/-! ### The next token -/

omit served in
theorem readToken_leads (orderly : state.Orderly) :
    Returns table (liftM Scan.readToken) state fun token after => Next state token after ∧
      (state.lexer.variablePending = true → Scan.IsVariable token.kind) := by
  constructor
  intro token after run
  have ends := Scan.readToken_ends orderly.reads
  change Scan.readToken state = .ok token after at run
  unfold Scan.Ends Outcome at ends
  rw [run] at ends
  obtain ⟨-, next, -, isVariable⟩ := ends
  exact ⟨next, isVariable⟩

theorem orderly_of_next {token : Token} {reached : State} (orderly : state.Orderly)
    (next : Next state token reached)
    (ahead : ∀ token, reached.lookahead = some token → token.kind = .variableInterpolation →
      reached.lexer.variablePending = true) : reached.Orderly where
  reads := next.reads
  free := next.arena ▸ orderly.free
  waiting := by
    rw [next.awaited, next.arena]
    exact orderly.waiting
  distinct := next.awaited ▸ orderly.distinct
  ahead := ahead

end Parse

theorem State.Orderly.lookahead (orderly : state.Orderly) {ahead : Option Token}
    (pending : ∀ token, ahead = some token → token.kind = .variableInterpolation →
      state.lexer.variablePending = true) :
    ({ state with lookahead := ahead } : State).Orderly where
  reads := orderly.reads.of_eq rfl rfl rfl rfl
  free := orderly.free
  waiting := orderly.waiting
  distinct := orderly.distinct
  ahead := pending

namespace Parse

variable {table : RuleTable} [served : table.Upholds outcome]

structure Peeked (outcome : Arena) (loose : NodeId → Prop) (known : Prop) (before : State)
    (token : Token) (after : State) : Prop where
  leads : Leads outcome loose known before after True
  ahead : after.lookahead = some token
  still : ∀ waiting, before.lookahead = some waiting → token = waiting ∧ after = before
  /-- The variable of an interpolation comes right after its mark. -/
  isVariable : before.lookahead = none → before.lexer.variablePending = true →
    Scan.IsVariable token.kind

theorem peekToken_leads (orderly : state.Orderly) (holds : state.Holds loose) :
    Returns table peekToken state (Peeked outcome loose known state) := by
  apply Returns.get_bind
  cases ahead : state.lookahead with
  | some token =>
      apply returns_pure
      refine ⟨.refl orderly fun _ => trivial, ahead, ?_, ?_⟩
      · intro waiting same
        rw [ahead] at same
        cases same
        exact ⟨rfl, rfl⟩
      · intro nothing
        rw [ahead] at nothing
        cases nothing
  | none =>
      have loop : Returns table (repeatUntil () fun _ => readTurn) state fun token reached =>
          Leads outcome loose known state { reached with lookahead := some token } True ∧
            (state.lexer.variablePending = true → Scan.IsVariable token.kind) := by
        apply repeatUntil_returns fun _ current =>
          Leads outcome loose known state current True ∧
            ¬current.Sees .variableInterpolation ∧
            (state.lexer.variablePending = true → current.lexer.variablePending = true)
        · refine ⟨.refl orderly fun _ => trivial, ?_, id⟩
          intro sees
          obtain ⟨token, same, -⟩ := sees
          rw [ahead] at same
          cases same
        · intro _ current before
          obtain ⟨leads, noVariable, waits⟩ := before
          apply (readToken_leads leads.orderly).bind
          intro token reached read
          obtain ⟨next, isVariable⟩ := read
          have unseen : ∀ other, reached.lookahead = some other →
              other.kind ≠ .variableInterpolation := by
            intro other same kind
            rw [next.lookahead] at same
            exact noVariable ⟨other, same, kind⟩
          have calm := orderly_of_next leads.orderly next fun other same kind =>
            absurd kind (unseen other same)
          split
          · next marker =>
              have passed : Leads outcome loose True current reached True :=
                (Safely.of_eq calm next.arena next.awaited).leads fun _ => trivial
              have before := leads.trans (passed.given fun _ => trivial)
              have still := (holds.later leads.lasts).later passed.lasts
              have start : ¬reached.Sees .variableInterpolation := by
                intro sees
                obtain ⟨other, same, kind⟩ := sees
                exact unseen other same kind
              have bodies : Returns table (descend .heredocBodies) reached fun _ after =>
                  Leads outcome loose True reached after True ∧
                    ¬after.Sees .variableInterpolation := heredocBodies_leads calm still start
              apply bodies.bind
              intro _ after filled
              apply returns_pure
              refine ⟨before.trans (filled.1.given fun _ => trivial), filled.2, ?_⟩
              intro waiting
              exact absurd marker (isVariable (waits waiting)).plain.1
          · apply returns_pure
            refine ⟨?_, fun waiting => isVariable (waits waiting)⟩
            have seen : ({ reached with lookahead := some token } : State).Orderly := by
              apply calm.lookahead
              intro other same kind
              cases same
              exact next.pending kind
            have passed : Safely current { reached with lookahead := some token } :=
              .of_eq seen next.arena next.awaited
            exact leads.trans (passed.leads fun _ => trivial)
      apply loop.bind
      intro token reached read
      apply Returns.modify_bind
      apply returns_pure
      refine ⟨read.1, rfl, ?_, fun _ => read.2⟩
      intro waiting same
      rw [ahead] at same
      cases same

instance : Conforming outcome table known peekToken where
  upholds _ _ orderly holds := (peekToken_leads orderly holds).mono
    fun _ _ peeked => peeked.leads.mono fun _ _ => trivial

instance : Conforming outcome table known peekKind := by
  unfold peekKind
  infer_instance

/-! ### Taking tokens -/

structure Taken (before : State) (token : Token) (after : State) : Prop where
  safely : Safely before after
  nothing : after.lookahead = none
  lexer : after.lexer = before.lexer

omit served in
theorem take_safely (orderly : state.Orderly) : Returns table take state (Taken state) := by
  apply Returns.get_bind
  cases state.lookahead with
  | none => exact returns_throw _
  | some token =>
      apply Returns.modify_bind
      apply returns_pure
      have orderly : ({ state with
          lookahead := none, previousStop := token.span.stop } : State).Orderly :=
        { reads := orderly.reads.of_eq rfl rfl rfl rfl
          free := orderly.free
          waiting := orderly.waiting
          distinct := orderly.distinct
          ahead := nofun }
      exact ⟨.of_eq orderly rfl rfl, rfl, rfl⟩

omit served in
theorem skip_safely (orderly : state.Orderly) :
    Returns table skip state fun _ after => ∃ token, Taken state token after := by
  apply (take_safely orderly).bind
  intro token reached taken
  exact returns_pure ⟨token, taken⟩

omit served in
instance : Conforming outcome table known take where
  upholds _ _ orderly _ := (take_safely orderly).mono
    fun _ _ taken => taken.safely.leads fun _ => trivial

instance : Conforming outcome table known skip := by
  unfold skip
  infer_instance

instance (kind : TokenKind) : Conforming outcome table known (accept? kind) := by
  unfold accept?
  infer_instance

instance (kind : TokenKind) : Conforming outcome table known (accept kind) := by
  unfold accept
  infer_instance

instance (start : Nat) : Conforming outcome table known (spanSince start) := by
  unfold spanSince
  infer_instance

instance (wanted : TokenKind → Bool) (what : String) :
    Conforming outcome table known (expectWhere wanted what) := by
  unfold expectWhere
  infer_instance

instance (kind : TokenKind) : Conforming outcome table known (expect kind) := by
  unfold expect
  infer_instance

instance : Conforming outcome table known expectEnd := by
  unfold expectEnd
  infer_instance

instance (skipped : TokenKind → Bool) : Conforming outcome table known (skipWhile skipped) := by
  unfold skipWhile skipTurn
  infer_instance

instance : Conforming outcome table known skipNewlines := by
  unfold skipNewlines
  infer_instance

instance : Conforming outcome table known skipTerminators := by
  unfold skipTerminators
  infer_instance

instance (word : Keyword) : Conforming outcome table known (skipSeparator word) := by
  unfold skipSeparator separatorTurn
  infer_instance

/-! ### Depth, lists and statements -/

omit served in
theorem setDepth_upholds (depth : State → Nat) :
    Upholds outcome table known
      (modify fun state => { state with depth := depth state } : Parse PUnit) fun _ => True := by
  have idle : Scan.Idle (modify fun state => { state with depth := depth state } : Scan PUnit) :=
    Scan.idle_modify fun _ => ⟨rfl, rfl, rfl, rfl, rfl, rfl, rfl, rfl, rfl, rfl⟩
  have upholds : Scan.Upholds outcome known
      (modify fun state => { state with depth := depth state } : Scan PUnit) fun _ => True :=
    Scan.upholds_idle fun _ _ => trivial
  exact upholds

omit served in
theorem Upholds.deeper {step : Parse α} {post : α → Prop} (position : Nat)
    (upholds : Upholds outcome table known step post) :
    Upholds outcome table known (deeper position step) post := by
  have within {given : Prop} (implies : given → known) : Upholds outcome table given (do
      modify fun state => { state with depth := state.depth + 1 }
      let result ← step
      modify fun state => { state with depth := state.depth - 1 }
      return result) post := by
    apply (setDepth_upholds fun state => state.depth + 1).bind
    intro _
    apply (upholds.given fun given => implies given.2).bind
    intro result
    apply (setDepth_upholds fun state => state.depth - 1).bind
    intro _
    exact upholds_pure fun given => given.2.1
  unfold Parse.deeper
  apply Upholds.andThen
  intro state
  split
  · apply Upholds.andThen
    intro _
    exact within fun given => given.2.2
  · exact within And.right

omit served in
instance [Judged α] (position : Nat) (step : Parse α) [Conforming outcome table known step] :
    Conforming outcome table known (deeper position step) :=
  ⟨Conforming.upholds.deeper position⟩

instance (item : Parse NodeId) (breakable : Bool)
    [∀ known, Conforming outcome table known item] :
    Conforming outcome table known (commaList item breakable) := by
  unfold commaList commaTurn
  infer_instance

omit served in
theorem alloc_tagged {shape : Shape NodeId} [shape.Free] {tags : List String}
    (kept : shape.lasts = true) (single : shape.isBinary = false) (listed : shape.tag ∈ tags)
    (span : Span) :
    Upholds outcome table known (liftM (Scan.alloc shape span)) (outcome.Tagged tags) :=
  upholds_lift (Scan.alloc_tagged kept single listed (fun _ => Shape.Free.conforms outcome) span)

instance (items : List NodeId) (span : Span) :
    Conforming outcome table known (sequence items span) := by
  unfold sequence
  split
  · infer_instance
  · infer_instance
  · next several single =>
      have enough : 2 ≤ items.length := by
        match items with
        | [] => exact absurd rfl several
        | [item] => exact absurd rfl (single item)
        | _ :: _ :: _ => simp
      have conforms : (Shape.list .statements items).Conforms outcome := ⟨nofun, enough, .nil⟩
      have : Entails known ((Shape.list .statements items).Conforms outcome) := ⟨fun _ => conforms⟩
      infer_instance

end Parse

end RubySyntax

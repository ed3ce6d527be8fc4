/-
The rules that read an expression of numbers and operators.

Three of them share the work: one reads powers from right to left, one climbs
the levels of the table, and one joins what is left by words. Each of them
stops where the next operator binds less tightly than it may.
-/

import RubySyntax.Grammar.Rules
import RubySyntax.Proofs.Precedence.Step

namespace RubySyntax

structure TreeStored (before : State) (value : Nat) (rest : List (Operator × Nat))
    (tree : OperatorTree) (id : NodeId) (remaining : List (Operator × Nat)) (after : State) :
    Prop where
  first : tree.first = value
  rest : tree.rest ++ remaining = rest
  ordered : tree.Ordered
  holds : after.arena.Holds after.symbols tree id
  ready : after.Ready (.operator remaining)
  grows : before.Grows tree.chained after

theorem TreeStored.later {before middle after : State} {value : Nat}
    {rest remaining : List (Operator × Nat)} {tree : OperatorTree} {id : NodeId}
    (stored : TreeStored before value rest tree id remaining middle)
    (ready : after.Ready (.operator remaining)) (grows : middle.Grows 0 after) :
    TreeStored before value rest tree id remaining after where
  first := stored.first
  rest := stored.rest
  ordered := stored.ordered
  holds := stored.holds.grows grows
  ready := ready
  grows := stored.grows.trans grows

theorem TreeStored.earlier {before middle after : State} {value : Nat}
    {rest remaining : List (Operator × Nat)} {tree : OperatorTree} {id : NodeId}
    (grows : before.Grows 0 middle)
    (stored : TreeStored middle value rest tree id remaining after) :
    TreeStored before value rest tree id remaining after :=
  { stored with grows := Nat.zero_add tree.chained ▸ grows.trans stored.grows }

theorem TreeStored.apply {before middle reached after last : State} {value : Nat}
    {rest : List (Operator × Nat)} {operator : Operator} {next : Nat}
    {remaining final : List (Operator × Nat)} {left right : OperatorTree}
    {leftId rightId id : NodeId} {node : Node} {errors : Nat}
    (stored : TreeStored before value rest left leftId ((operator, next) :: remaining) middle)
    (passed : middle.Grows errors reached)
    (read : TreeStored reached next remaining right rightId final after)
    (allowsLeft : ∀ inner ∈ left.root?, operator.AllowsLeft inner)
    (allowsRight : ∀ inner ∈ right.root?, operator.AllowsRight inner)
    (counted : errors = operator.chains left.root?)
    (grown : after.Grows 0 last) (ready : last.Ready (.operator final))
    (found : last.arena.get? id = some node)
    (shapes : operator.Shapes last.symbols leftId rightId node.shape) :
    TreeStored before value rest (.apply operator left right) id final last where
  first := stored.first
  rest := by
    rw [OperatorTree.rest, List.append_assoc, List.cons_append, read.first, read.rest]
    exact stored.rest
  ordered := ⟨stored.ordered, read.ordered, allowsLeft, allowsRight⟩
  holds := ⟨node, leftId, rightId, found,
    ((stored.holds.grows passed).grows read.grows).grows grown, read.holds.grows grown, shapes⟩
  ready := ready
  grows := by
    have all := ((stored.grows.trans passed).trans read.grows).trans grown
    rw [counted] at all
    exact all

theorem Operator.shapes_call {operator : Operator} {symbols : SymbolTable}
    {left right : NodeId} {name : Symbol} (calls : 2 < operator.level)
    (known : name.index < symbols.size) (named : symbols.name name = operator.written) :
    operator.Shapes symbols left right (.call false left name [right] none) := by
  unfold Operator.Shapes
  split
  · exact absurd calls (by decide)
  · exact absurd calls (by decide)
  · exact absurd calls (by decide)
  · exact absurd calls (by decide)
  · exact ⟨name, rfl, known, named⟩

theorem Remainder.of_kind_power {remaining : List (Operator × Nat)}
    (kind : (Remainder.operator remaining).kind = .punct .power) :
    ∃ next rest, remaining = (.power, next) :: rest := by
  cases remaining with
  | nil => cases kind
  | cons first rest =>
      obtain ⟨first, next⟩ := first
      cases first <;> cases kind
      exact ⟨next, rest, rfl⟩

def TreeRead (before : State) (value : Nat) (rest : List (Operator × Nat))
    (fits : OperatorTree → List (Operator × Nat) → Prop) (id : NodeId) (after : State) : Prop :=
  ∃ tree remaining, TreeStored before value rest tree id remaining after ∧ fits tree remaining

def OperandTree (before : State) (value : Nat) (rest : List (Operator × Nat))
    (fits : OperatorTree → List (Operator × Nat) → Prop) (operand : Operand) (after : State) :
    Prop :=
  ∃ id, operand = .node id ∧ TreeRead before value rest fits id after

theorem OperandTree.earlier {before middle after : State} {value : Nat}
    {rest : List (Operator × Nat)} {fits : OperatorTree → List (Operator × Nat) → Prop}
    {operand : Operand} (grows : before.Grows 0 middle)
    (read : OperandTree middle value rest fits operand after) :
    OperandTree before value rest fits operand after := by
  obtain ⟨id, rfl, tree, remaining, stored, fitting⟩ := read
  exact ⟨id, rfl, tree, remaining, stored.earlier grows, fitting⟩

def Single (tree : OperatorTree) (_ : List (Operator × Nat)) : Prop :=
  tree.root? = none

def Powers (tree : OperatorTree) (remaining : List (Operator × Nat)) : Prop :=
  (∀ operator ∈ tree.root?, operator = .power) ∧
    ∀ entry ∈ remaining.head?, entry.1 ≠ .power

/-- The operators of a level and above, with one below it to follow. -/
def AtLeast (level : Nat) (tree : OperatorTree) (remaining : List (Operator × Nat)) : Prop :=
  (∀ operator ∈ tree.root?, level ≤ operator.level) ∧
    ∀ entry ∈ remaining.head?, entry.1.level < level

/-- Only words may follow where all tighter operators have been read. -/
theorem AtLeast.words {tree : OperatorTree} {remaining : List (Operator × Nat)}
    (fits : AtLeast 1 tree remaining) :
    remaining = [] ∨ ∃ operator next final, remaining = (operator, next) :: final ∧
      (operator = .andWord ∨ operator = .orWord) := by
  cases remaining with
  | nil => exact .inl rfl
  | cons entry final =>
      obtain ⟨operator, next⟩ := entry
      exact .inr ⟨operator, next, final, rfl, Operator.eq_word_of_level_lt (fits.2 _ rfl)⟩

structure ReadsTrees (table : RuleTable) : Prop where
  chain : ∀ state value rest, state.Ready (.operand value rest) →
    Parse.Yields table (Parse.descend .chain) state (OperandTree state value rest Single)
  minus : ∀ rule state value rest, state.Ready (.operand value rest) →
    Parse.Yields table (Parse.descend (.minus rule)) state (OperandTree state value rest Powers)
  binary : ∀ rule level state value rest, 0 < level → level ≤ Operator.power.level →
    state.Ready (.operand value rest) →
    Parse.Yields table (Parse.descend (.binary rule level)) state
      (OperandTree state value rest (AtLeast level))
  argument : ∀ rule state value rest, state.Ready (.operand value rest) →
    Parse.Yields table (Parse.descend (.argument rule)) state
      (OperandTree state value rest (AtLeast 1))
  negation : ∀ rule state value rest, state.Ready (.operand value rest) →
    Parse.Yields table (Parse.descend (.negation rule)) state
      (TreeRead state value rest (AtLeast 1))

namespace Parse

variable {table : RuleTable} {state : State} {value : Nat} {rest : List (Operator × Nat)}

theorem deeperTree_yields {position : Nat} {step : Parse Operand}
    (fits : OperatorTree → List (Operator × Nat) → Prop)
    (yields : ∀ state value rest, state.Ready (.operand value rest) →
      Yields table step state (OperandTree state value rest fits))
    (ready : state.Ready (.operand value rest)) :
    Yields table (deeper position step) state (OperandTree state value rest fits) := by
  refine deeper_yields (Yields.mono (yields _ value rest ?_) ?_)
  · exact ⟨ready.faces, ready.free, ready.unlabelled⟩
  · rintro _ after ⟨id, rfl, tree, remaining, stored, fitting⟩
    refine ⟨id, rfl, tree, remaining, ?_, fitting⟩
    exact ⟨stored.first, stored.rest, stored.ordered, stored.holds,
      ⟨stored.ready.faces, stored.ready.free, stored.ready.unlabelled⟩,
      ⟨stored.grows.nodes, stored.grows.names, stored.grows.errors⟩⟩

/-! ### Operands -/

theorem primary_yields (ready : state.Ready (.operand value rest)) :
    Yields table primary state (OperandTree state value rest Single) := by
  refine (peekToken_yields ready).bind ?_
  rintro ⟨_, span⟩ peeked ⟨rfl, ahead, ready, seen⟩
  refine (skip_yields ready (by rw [ahead]; rfl) rfl).bind ?_
  rintro _ taken ⟨ready, skipped⟩
  refine Yields.lift_bind (Scan.alloc_yields ready.free _ _) ?_
  rintro id _ ⟨arena, rfl, free, grown, node, found, shape⟩
  refine yields_pure ⟨id, rfl, .number value, rest, ⟨rfl, rfl, trivial, ⟨node, found, shape⟩,
    ⟨ready.faces, free, ready.unlabelled⟩, ?_⟩, rfl⟩
  exact seen.trans (skipped.trans grown)

theorem link?_yields {operand : Operand} (ready : state.Ready (.operator rest)) :
    Yields table (link? operand) state fun link after =>
      link = none ∧ after.Ready (.operator rest) ∧ state.Grows 0 after := by
  refine (peekKind_yields ready).bind ?_
  rintro _ after ⟨rfl, -, ready, grows⟩
  cases rest with
  | nil => exact yields_pure ⟨rfl, ready, grows⟩
  | cons first rest =>
      obtain ⟨first, value⟩ := first
      cases first <;> exact yields_pure ⟨rfl, ready, grows⟩

theorem chain_yields (ready : state.Ready (.operand value rest)) :
    Yields table chain state (OperandTree state value rest Single) := by
  refine (primary_yields ready).bind fun first read started => ?_
  refine repeatUntil_yields (OperandTree state value rest Single) _ started ?_
  rintro _ current ⟨id, rfl, tree, remaining, stored, single⟩
  refine (link?_yields stored.ready).bind ?_
  rintro _ after ⟨rfl, ready, grows⟩
  exact yields_pure ⟨id, rfl, tree, remaining, stored.later ready grows, single⟩

theorem operand_yields (serves : ReadsTrees table) (rule : CommandRule)
    (ready : state.Ready (.operand value rest)) :
    Yields table (operand rule) state (OperandTree state value rest Single) := by
  refine (serves.chain state value rest ready).bind ?_
  rintro _ read ⟨id, rfl, tree, remaining, stored, single⟩
  refine (peekToken_yields stored.ready).bind ?_
  rintro ⟨_, span⟩ peeked ⟨rfl, ahead, ready, seen⟩
  have assignable : Scan.Yields (Scan.isAssignable (.node id)) peeked fun _ after =>
      after = peeked :=
    (Scan.shapeOf_yields id).bind fun _ _ found => Scan.yields_pure found.1
  refine Yields.lift_bind assignable ?_
  rintro assigns settled rfl
  have done : OperandTree state value rest Single (.node id) settled :=
    ⟨id, rfl, tree, remaining, stored.later ready seen, single⟩
  cases remaining with
  | nil => exact Yields.ite (fun takes => by simp [Operand.takesArguments] at takes) fun _ => done
  | cons first remaining =>
      obtain ⟨first, next⟩ := first
      cases first <;>
        exact Yields.ite (fun takes => by simp [Operand.takesArguments] at takes) fun _ => done

theorem unary_yields (serves : ReadsTrees table) (rule : CommandRule)
    (ready : state.Ready (.operand value rest)) :
    Yields table (unary rule) state (OperandTree state value rest Single) := by
  refine (peekToken_yields ready).bind ?_
  rintro ⟨_, span⟩ peeked ⟨rfl, -, ready, seen⟩
  exact (operand_yields serves rule ready).mono fun _ _ read => read.earlier seen

/-! ### Powers -/

/-- A number that is written without a sign keeps its place before a power. -/
theorem takeSignOf_yields {first : Token} {id : NodeId}
    (unsigned : first.kind ≠ .punct .numberMinus) :
    Yields table (takeSignOf first id) state fun negated after =>
      negated = false ∧ after = state := by
  refine Yields.lift_bind (Scan.spanOf_yields id) ?_
  rintro span settled rfl
  simp only [unsigned, decide_false, Bool.false_and, Bool.false_eq_true, if_false]
  exact yields_pure ⟨rfl, rfl⟩

theorem power_yields (serves : ReadsTrees table) (rule : CommandRule)
    (ready : state.Ready (.operand value rest)) :
    Yields table (power rule) state (OperandTree state value rest Powers) := by
  refine (peekToken_yields ready).bind ?_
  rintro ⟨_, start⟩ peeked ⟨rfl, -, ready, begun⟩
  refine (unary_yields serves rule ready).bind ?_
  rintro _ read ⟨baseId, rfl, base, remaining, stored, single⟩
  replace stored := stored.earlier begun
  refine (peekToken_yields stored.ready).bind ?_
  rintro ⟨_, mark⟩ looked ⟨rfl, ahead, ready, seen⟩
  refine Yields.ite (fun other => ?_) fun same => ?_
  · refine yields_pure ⟨baseId, rfl, base, remaining, stored.later ready seen, ?_, ?_⟩
    · rw [single]
      nofun
    · rintro ⟨first, next⟩ head rfl
      cases remaining with
      | nil => cases head
      | cons entry remaining =>
          cases head
          exact absurd other Bool.false_ne_true
  · have isPower : (Remainder.operator remaining).kind = .punct .power := by
      rw [bne_iff_ne, Decidable.not_not] at same
      exact same
    obtain ⟨next, remaining, rfl⟩ := Remainder.of_kind_power isPower
    refine (skip_yields ready (by rw [ahead]; rfl) rfl).bind ?_
    rintro _ skipped ⟨ready, passed⟩
    have unsigned : TokenKind.integer value ≠ .punct .numberMinus := nofun
    refine (takeSignOf_yields unsigned).bind ?_
    rintro _ settled ⟨rfl, rfl⟩
    refine (deeperTree_yields Powers (serves.minus .reported) ready).bind ?_
    rintro _ raised ⟨exponentId, rfl, exponent, final, read, powers⟩
    have kept := (stored.holds.grows (seen.trans passed)).grows read.grows
    refine Yields.nodeOf_bind (Yields.lift_bind (Scan.requireValue_yields kept) ?_)
    rintro _ checked rfl
    refine Yields.lift_bind (Scan.requireValue_yields read.holds) ?_
    rintro _ valued rfl
    refine Yields.lift_bind (Scan.intern_yields _) ?_
    rintro name _ ⟨-, symbols, rfl, known, named, interned⟩
    refine Yields.lift_bind (Scan.spanOfBoth_yields baseId exponentId) ?_
    rintro span _ rfl
    refine Yields.lift_bind (Scan.alloc_yields ?_ _ _) ?_
    · exact read.ready.free
    rintro id _ ⟨arena, rfl, free, added, node, found, shape⟩
    refine yields_pure ⟨id, rfl, .apply .power base exponent, final, ?_, ?_⟩
    · refine stored.apply (seen.trans passed) read ?_ ?_ ?_ (interned.trans added)
        ⟨read.ready.faces, free, read.ready.unlabelled⟩ found ?_
      · rw [single]
        nofun
      · intro inner root
        rw [powers.1 inner root]
        exact Nat.le_refl _
      · rw [single]
        rfl
      · rw [shape]
        exact Operator.shapes_call (by decide) known named
    · refine ⟨?_, powers.2⟩
      intro operator root
      exact (Option.mem_some.mp root).symm

theorem minus_yields (serves : ReadsTrees table) (rule : CommandRule)
    (ready : state.Ready (.operand value rest)) :
    Yields table (minus rule) state (OperandTree state value rest Powers) := by
  refine (peekToken_yields ready).bind ?_
  rintro ⟨_, span⟩ peeked ⟨rfl, -, ready, seen⟩
  exact (power_yields serves rule ready).mono fun _ _ read => read.earlier seen

/-! ### Levels -/

/-- The table of the parser agrees with the table of precedence on all
operators but powers and words, which other rules read. -/
theorem operatorAt?_kind (operator : Operator) :
    (operatorAt? operator.kind = none ∧ (operator = .power ∨ operator.level = 0)) ∨
      ∃ mark, operator.kind = .punct mark ∧ operator.written = ascii mark.spelling ∧
        operatorAt? operator.kind = some (mark, operator.level) := by
  cases operator with
  | power => exact .inl ⟨rfl, .inl rfl⟩
  | andWord => exact .inl ⟨rfl, .inr rfl⟩
  | orWord => exact .inl ⟨rfl, .inr rfl⟩
  | _ => exact .inr ⟨_, rfl, rfl, rfl⟩

theorem binaryNode_yields {operator : Operator} {mark : Punct} {left : Remainder}
    {leftTree rightTree : OperatorTree} {leftId rightId : NodeId}
    (isMark : operator.kind = .punct mark) (written : operator.written = ascii mark.spelling)
    (ready : state.Ready left) (leftHolds : state.arena.Holds state.symbols leftTree leftId)
    (rightHolds : state.arena.Holds state.symbols rightTree rightId) :
    Yields table (binaryNode mark leftId rightId) state fun id after =>
      after.Ready left ∧ state.Grows 0 after ∧ ∃ node, after.arena.get? id = some node ∧
        operator.Shapes after.symbols leftId rightId node.shape := by
  refine Yields.lift_bind (Scan.spanOfBoth_yields leftId rightId) ?_
  rintro span settled rfl
  have store {shape : Shape NodeId}
      (shapes : ∀ symbols, operator.Shapes symbols leftId rightId shape) :
      Yields table (liftM (Scan.alloc shape span)) settled fun id after =>
        after.Ready left ∧ settled.Grows 0 after ∧ ∃ node, after.arena.get? id = some node ∧
          operator.Shapes after.symbols leftId rightId node.shape := by
    refine yields_lift ((Scan.alloc_yields ready.free _ _).mono ?_)
    rintro id _ ⟨arena, rfl, free, grown, node, found, same⟩
    exact ⟨⟨ready.faces, free, ready.unlabelled⟩, grown, node, found, same ▸ shapes _⟩
  split
  · cases operator <;> cases isMark
    exact store fun _ => rfl
  · cases operator <;> cases isMark
    exact store fun _ => rfl
  · next notOr notAnd =>
      have logical : 2 < operator.level ∨ mark = .logicalOr ∨ mark = .logicalAnd := by
        cases operator <;> cases isMark <;> decide
      have calls := logical.resolve_right (not_or.mpr ⟨notOr, notAnd⟩)
      refine Yields.lift_bind (Scan.requireValue_yields leftHolds) ?_
      rintro _ valued rfl
      refine Yields.lift_bind (Scan.requireValue_yields rightHolds) ?_
      rintro _ checked rfl
      refine Yields.lift_bind (Scan.intern_yields _) ?_
      rintro name _ ⟨-, symbols, rfl, known, named, interned⟩
      refine yields_lift (Scan.Yields.mono (Scan.alloc_yields ?_ _ _) ?_)
      · exact ready.free
      · rintro id _ ⟨arena, rfl, free, added, node, found, same⟩
        refine ⟨⟨ready.faces, free, ready.unlabelled⟩, interned.trans added, node, found, ?_⟩
        rw [same]
        exact Operator.shapes_call calls known (named.trans written.symm)

/-- What has been read of a row of operators: the next one binds no tighter than
the last, which is known if it was a comparison for equality. -/
def Climbed (before : State) (value : Nat) (rest : List (Operator × Nat)) (least : Nat)
    (result : Operand × Option Nat) (current : State) : Prop :=
  ∃ id tree remaining, result.1 = .node id ∧
    TreeStored before value rest tree id remaining current ∧
    (∀ operator ∈ tree.root?, least ≤ operator.level) ∧
    (∀ entry ∈ remaining.head?, entry.1 ≠ .power ∧
      ∀ operator ∈ tree.root?, entry.1.level ≤ operator.level) ∧
    (result.2 = some equalityLevel ↔ ∃ operator ∈ tree.root?, operator.IsEquality)

theorem Climbed.start {least : Nat} {operand : Operand} {after : State}
    (tightest : least ≤ Operator.power.level)
    (read : OperandTree state value rest Powers operand after) :
    Climbed state value rest least (operand, none) after := by
  obtain ⟨id, rfl, tree, remaining, stored, powers, next⟩ := read
  refine ⟨id, tree, remaining, rfl, stored, ?_, ?_, ?_⟩
  · intro operator root
    rw [powers operator root]
    exact tightest
  · intro entry head
    refine ⟨next entry head, fun operator root => ?_⟩
    rw [powers operator root]
    exact Nat.le_of_lt (Operator.level_lt_of_ne (next entry head))
  · refine ⟨nofun, ?_⟩
    rintro ⟨operator, root, equality⟩
    rw [powers operator root] at equality
    exact absurd equality (by decide)

theorem Climbed.step {least next : Nat} {operator : Operator} {errors : Nat}
    {remaining final : List (Operator × Nat)} {left right : OperatorTree}
    {leftId rightId id : NodeId} {node : Node} {current reached after last : State}
    (notPower : operator ≠ .power) (high : least ≤ operator.level)
    (below : ∀ inner ∈ left.root?, operator.level ≤ inner.level)
    (stored : TreeStored state value rest left leftId ((operator, next) :: remaining) current)
    (passed : current.Grows errors reached) (counted : errors = operator.chains left.root?)
    (read : TreeStored reached next remaining right rightId final after)
    (fits : AtLeast (operator.level + 1) right final)
    (grown : after.Grows 0 last) (ready : last.Ready (.operator final))
    (found : last.arena.get? id = some node)
    (shapes : operator.Shapes last.symbols leftId rightId node.shape) :
    Climbed state value rest least (.node id, some operator.level) last := by
  refine ⟨id, .apply operator left right, final, rfl,
    stored.apply passed read ?_ ?_ counted grown ready found shapes, ?_, ?_, ?_⟩
  · intro inner root
    rw [Operator.AllowsLeft, if_neg notPower]
    exact below inner root
  · intro inner root
    rw [Operator.AllowsRight, if_neg notPower]
    exact fits.1 inner root
  · rintro _ ⟨⟩
    exact high
  · intro entry head
    have lower := fits.2 entry head
    have bound := Operator.level_lt_of_ne notPower
    refine ⟨fun same => ?_, ?_⟩
    · rw [same] at lower
      omega
    · rintro _ ⟨⟩
      omega
  · constructor
    · intro same
      exact ⟨operator, rfl, Option.some.inj same⟩
    · rintro ⟨_, ⟨⟩, equality⟩
      exact congrArg some equality

/-- A comparison for equality right after another one is reported. -/
theorem chained_yields {operator : Operator} {previous : Option Nat} {left : OperatorTree}
    {α : Type} {next : Unit → Parse α} {post : α → State → Prop} {remaining : Remainder}
    (span : Span)
    (known : previous = some equalityLevel ↔ ∃ inner ∈ left.root?, inner.IsEquality)
    (ready : state.Ready remaining) (ahead : state.lookahead.isSome = true)
    (follow : ∀ reached, reached.Ready remaining → reached.lookahead.isSome = true →
      state.Grows (operator.chains left.root?) reached → Yields table (next ()) reached post) :
    Yields table
      (if operator.level = equalityLevel && previous = some operator.level then
        liftM (Scan.report span .chainedOperators) >>= next
      else next ()) state post := by
  have same : (operator.level = equalityLevel && previous = some operator.level) = true ↔
      operator.IsEquality ∧ ∃ inner ∈ left.root?, inner.IsEquality := by
    rw [Bool.and_eq_true, decide_eq_true_iff, decide_eq_true_iff]
    refine ⟨fun ⟨level, last⟩ => ⟨level, known.mp (level ▸ last)⟩, fun ⟨level, last⟩ => ?_⟩
    exact ⟨level, (known.mpr last).trans (congrArg some level.symm)⟩
  refine Yields.ite (fun repeated => ?_) fun alone => ?_
  · refine Yields.lift_bind (Scan.report_yields span rfl) ?_
    rintro _ _ ⟨report, rfl, counted⟩
    refine follow _ ⟨ready.faces, ready.free, ready.unlabelled⟩ ahead
      ⟨fun _ _ found => found, fun _ known => ⟨known, rfl⟩, ?_⟩
    rw [Operator.chains, if_pos (same.mp repeated)]
    exact counted
  · refine follow _ ready ahead ?_
    rw [Operator.chains, if_neg (mt same.mpr alone)]
    exact State.Grows.refl state

theorem binary_yields (serves : ReadsTrees table) (rule : CommandRule) {least : Nat}
    (positive : 0 < least) (tightest : least ≤ Operator.power.level)
    (ready : state.Ready (.operand value rest)) :
    Yields table (binary rule least) state (OperandTree state value rest (AtLeast least)) := by
  refine (minus_yields serves rule ready).bind fun first read started => ?_
  refine repeatUntil_yields (Climbed state value rest least) _
    (Climbed.start tightest started) ?_
  rintro ⟨_, previous⟩ current ⟨id, tree, remaining, rfl, stored, above, next, known⟩
  refine (peekToken_yields stored.ready).bind ?_
  rintro ⟨_, span⟩ peeked ⟨rfl, ahead, ready, seen⟩
  replace stored := stored.later ready seen
  have done (low : ∀ entry ∈ remaining.head?, entry.1.level < least) :
      OperandTree state value rest (AtLeast least) (.node id) peeked :=
    ⟨id, rfl, tree, remaining, stored, above, low⟩
  cases remaining with
  | nil => exact yields_pure (done nofun)
  | cons entry remaining =>
      obtain ⟨operator, second⟩ := entry
      obtain ⟨notPower, below⟩ := next _ rfl
      dsimp only [Remainder.kind]
      rcases operatorAt?_kind operator with ⟨none, stops⟩ | ⟨mark, isMark, written, found⟩
      · rw [none]
        refine yields_pure (done ?_)
        rintro _ ⟨⟩
        rw [stops.resolve_left notPower]
        exact positive
      · rw [found]
        refine Yields.ite (fun low => yields_pure (done ?_)) fun high => ?_
        · rintro _ ⟨⟩
          exact low
        refine chained_yields span known ready (by rw [ahead]; rfl) fun reached ready ahead passed => ?_
        refine (skip_yields ready ahead rfl).bind ?_
        rintro _ skipped ⟨ready, moved⟩
        have tight : operator.level < Operator.power.level := Operator.level_lt_of_ne notPower
        refine Yields.nodeOf_bind ((serves.binary .reported _ _ _ _ (by omega) (by omega) ready).bind ?_)
        rintro _ after ⟨rightId, rfl, right, final, read, fits⟩
        replace passed := passed.trans moved
        refine Yields.nodeOf_bind ((binaryNode_yields isMark written read.ready
          ((stored.holds.grows passed).grows read.grows) read.holds).bind ?_)
        rintro newId last ⟨ready, grown, node, found, shapes⟩
        exact yields_pure (Climbed.step notPower (by omega) below stored passed rfl read fits grown
          ready found shapes)

/-! ### Expressions -/

theorem range_yields (serves : ReadsTrees table) (rule : CommandRule)
    (ready : state.Ready (.operand value rest)) :
    Yields table (range rule) state (OperandTree state value rest (AtLeast 1)) := by
  refine (binary_yields serves rule Nat.one_pos (by decide) ready).bind ?_
  rintro _ read ⟨id, rfl, tree, remaining, stored, fits⟩
  refine (peekKind_yields stored.ready).bind ?_
  rintro _ peeked ⟨rfl, -, ready, seen⟩
  have done : OperandTree state value rest (AtLeast 1) (.node id) peeked :=
    ⟨id, rfl, tree, remaining, stored.later ready seen, fits⟩
  obtain rfl | ⟨operator, next, final, rfl, rfl | rfl⟩ := AtLeast.words fits
  · exact yields_pure done
  · exact yields_pure done
  · exact yields_pure done

theorem argumentOperand_yields (serves : ReadsTrees table) (rule : CommandRule)
    (ready : state.Ready (.operand value rest)) :
    Yields table (argumentOperand rule) state (OperandTree state value rest (AtLeast 1)) := by
  refine (peekToken_yields ready).bind ?_
  rintro token peeked ⟨-, -, ready, begun⟩
  refine Yields.mono (deeperTree_yields (AtLeast 1) (fun state value rest ready => ?_) ready)
    fun _ _ read => read.earlier begun
  refine (range_yields serves rule ready).bind ?_
  rintro _ read ⟨id, rfl, tree, remaining, stored, fits⟩
  have other : (Remainder.operator remaining).kind ≠ .punct .question := by
    obtain rfl | ⟨operator, next, final, rfl, rfl | rfl⟩ := AtLeast.words fits <;> nofun
  refine (accept_yields stored.ready other).bind ?_
  rintro _ after ⟨rfl, ready, seen⟩
  exact yields_pure ⟨id, rfl, tree, remaining, stored.later ready seen, fits⟩

theorem negation_yields (serves : ReadsTrees table) (rule : CommandRule)
    (ready : state.Ready (.operand value rest)) :
    Yields table (negation rule) state (TreeRead state value rest (AtLeast 1)) := by
  refine (peekToken_yields ready).bind ?_
  rintro ⟨_, span⟩ peeked ⟨rfl, -, ready, begun⟩
  refine (serves.argument rule _ _ _ ready).bind ?_
  rintro _ read ⟨id, rfl, tree, remaining, stored, fits⟩
  refine (peekToken_yields stored.ready).bind ?_
  rintro token looked ⟨-, -, ready, seen⟩
  exact yields_pure ⟨tree, remaining, (stored.earlier begun).later ready seen, fits⟩

theorem expression_yields (serves : ReadsTrees table) (rule : CommandRule)
    (ready : state.Ready (.operand value rest)) :
    Yields table (expression rule) state
      (TreeRead state value rest fun _ remaining => remaining = []) := by
  refine (serves.negation rule _ _ _ ready).bind fun first read started => ?_
  refine repeatUntil_yields
    (TreeRead state value rest fun _ remaining => ∀ entry ∈ remaining.head?, entry.1.level < 1)
    _ ?_ ?_
  · obtain ⟨tree, remaining, stored, fits⟩ := started
    exact ⟨tree, remaining, stored, fits.2⟩
  rintro id current ⟨tree, remaining, stored, next⟩
  refine (peekKind_yields stored.ready).bind ?_
  rintro _ peeked ⟨rfl, ahead, ready, seen⟩
  replace stored := stored.later ready seen
  cases remaining with
  | nil => exact yields_pure ⟨tree, [], stored, rfl⟩
  | cons entry remaining =>
      obtain ⟨operator, second⟩ := entry
      rcases Operator.eq_word_of_level_lt (next _ rfl) with rfl | rfl
      all_goals
        refine (skip_yields ready ahead rfl).bind ?_
        rintro _ skipped ⟨ready, moved⟩
        refine (serves.negation rule _ _ _ ready).bind ?_
        rintro rightId after ⟨right, final, read, fits⟩
        refine Yields.lift_bind (Scan.spanOfBoth_yields id rightId) ?_
        rintro span settled rfl
        refine Yields.lift_bind (Scan.alloc_yields read.ready.free _ _) ?_
        rintro newId _ ⟨arena, rfl, free, grown, node, found, shape⟩
        refine yields_pure ⟨_, final, stored.apply moved read ?_ fits.1 rfl grown
          ⟨read.ready.faces, free, read.ready.unlabelled⟩ found shape, fits.2⟩
        exact fun inner _ => Nat.zero_le inner.level

end Parse

/-- A table of any depth serves. -/
theorem readsTrees : ∀ depth, ReadsTrees (Parse.table depth)
  | 0 => by constructor <;> intros <;> trivial
  | depth + 1 => by
      have serves := readsTrees depth
      constructor
      case chain => exact fun _ _ _ ready => Parse.chain_yields ready
      case minus => exact fun rule _ _ _ ready => Parse.minus_yields serves rule ready
      case binary =>
        exact fun rule _ _ _ _ positive tightest ready =>
          Parse.binary_yields serves rule positive tightest ready
      case argument => exact fun rule _ _ _ ready => Parse.argumentOperand_yields serves rule ready
      case negation => exact fun rule _ _ _ ready => Parse.negation_yields serves rule ready

end RubySyntax

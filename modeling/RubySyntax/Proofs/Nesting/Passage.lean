/-
What a part of a parse does to brackets, scopes and placeholders.

A run that reports no error leaves the brackets and scopes as open as it says
it does. A run that reports one has to keep only the scopes in order, and may
leave a placeholder in the tree. Nothing here refers to single rules of the
grammar; the steps on the state that they share are followed at the end.
-/

import RubySyntax.Grammar.Basic
import RubySyntax.Proofs.Lexer.Undisturbed
import RubySyntax.Proofs.Nesting.Word
import RubySyntax.Proofs.Store

namespace RubySyntax

variable {α β σ : Type}

/-! ### Scopes -/

def Frame.gain (frame : Frame) (more : List Symbol) : Frame :=
  { frame with locals := frame.locals ++ more }

theorem Frame.gain_nil (frame : Frame) : frame.gain [] = frame := by
  unfold gain
  rw [List.append_nil]

theorem Frame.gain_gain (frame : Frame) (first second : List Symbol) :
    (frame.gain first).gain second = frame.gain (first ++ second) := by
  unfold gain
  rw [List.append_assoc]

def ScopeStack.Holds (scopes : ScopeStack) (inner : Nat) (frame : Frame) (outer : List Frame) :
    Prop :=
  ∃ newer : List Frame, newer.length = inner ∧ scopes.frames = newer ++ frame :: outer

/-- From one number of inner scopes to another, the scope under them can have
gained names, and those around it are untouched. -/
def ScopeStack.Leads (start goal : Nat) (before after : ScopeStack) : Prop :=
  ∀ frame outer, before.Holds start frame outer →
    ∃ more, after.Holds goal (frame.gain more) outer

namespace ScopeStack

variable {first second third : Nat} {before middle after : ScopeStack}

theorem Leads.refl (inner : Nat) (scopes : ScopeStack) : Leads inner inner scopes scopes := by
  intro frame outer holds
  refine ⟨[], ?_⟩
  rw [Frame.gain_nil]
  exact holds

theorem Leads.trans (left : Leads first second before middle)
    (right : Leads second third middle after) : Leads first third before after := by
  intro frame outer holds
  obtain ⟨more, held⟩ := left frame outer holds
  obtain ⟨others, reached⟩ := right (frame.gain more) outer held
  rw [Frame.gain_gain] at reached
  exact ⟨more ++ others, reached⟩

theorem Leads.under (leads : Leads 0 0 before after) (inner : Nat) :
    Leads inner inner before after := by
  intro frame outer holds
  obtain ⟨newer, rfl, same⟩ := holds
  cases newer with
  | nil => exact leads frame outer ⟨[], rfl, same⟩
  | cons innermost newer =>
      obtain ⟨more, inside, empty, reached⟩ :=
        leads innermost (newer ++ frame :: outer) ⟨[], rfl, same⟩
      obtain rfl := List.length_eq_zero_iff.mp empty
      refine ⟨[], innermost.gain more :: newer, rfl, ?_⟩
      rw [Frame.gain_nil]
      exact reached

theorem declare_leads (scopes : ScopeStack) (name : Symbol) :
    Leads 0 0 scopes (scopes.declare name) := by
  unfold declare
  split
  · exact .refl 0 scopes
  · intro frame outer holds
    obtain ⟨newer, empty, same⟩ := holds
    obtain rfl := List.length_eq_zero_iff.mp empty
    obtain ⟨rfl, rfl⟩ := List.cons.inj same
    exact ⟨[name], [], rfl, rfl⟩

theorem push_leads (scopes : ScopeStack) (kind : ScopeKind) (inner : Nat) :
    Leads inner (inner + 1) scopes (scopes.push kind) := by
  intro frame outer holds
  obtain ⟨newer, rfl, same⟩ := holds
  refine ⟨[], { kind } :: newer, rfl, ?_⟩
  rw [Frame.gain_nil, List.cons_append, ← same]
  rfl

theorem pop_leads (scopes : ScopeStack) (inner : Nat) :
    Leads (inner + 1) inner scopes scopes.pop.2 := by
  intro frame outer holds
  obtain ⟨newer, count, same⟩ := holds
  cases newer with
  | nil => cases count
  | cons innermost newer =>
      have enclosing : scopes.enclosing = newer ++ frame :: outer := (List.cons.inj same).2
      refine ⟨[], newer, Nat.succ.inj count, ?_⟩
      rw [Frame.gain_nil, ← enclosing]
      unfold pop
      split
      · next outermost =>
          rw [outermost] at enclosing
          cases newer with
          | nil => cases enclosing
          | cons _ _ => cases enclosing
      · next around => exact around.symm

end ScopeStack

/-! ### What is kept whatever happens -/

/-- Placeholders stand in the tree only where an error has been reported. -/
structure State.Accounted (state : State) : Prop where
  free : state.arena.FreeSound
  reported : ∀ id node, state.arena.get? id = some node → node.shape = .leaf .error →
    0 < state.report.errors

structure State.Advances (start goal : Nat) (before after : State) : Prop where
  errors : before.report.errors ≤ after.report.errors
  accounted : before.Accounted → after.Accounted
  scopes : ScopeStack.Leads start goal before.scopes after.scopes

namespace State.Advances

variable {first second third : Nat} {before middle after : State}

theorem refl (inner : Nat) (state : State) : Advances inner inner state state :=
  ⟨Nat.le_refl _, id, .refl inner _⟩

theorem trans (left : Advances first second before middle)
    (right : Advances second third middle after) : Advances first third before after where
  errors := Nat.le_trans left.errors right.errors
  accounted := right.accounted ∘ left.accounted
  scopes := left.scopes.trans right.scopes

theorem under (advances : Advances 0 0 before after) (inner : Nat) :
    Advances inner inner before after :=
  ⟨advances.errors, advances.accounted, advances.scopes.under inner⟩

theorem ofSameArena (errors : before.report.errors ≤ after.report.errors)
    (arena : after.arena = before.arena)
    (scopes : ScopeStack.Leads first second before.scopes after.scopes) :
    Advances first second before after := by
  refine ⟨errors, fun accounted => ⟨?_, ?_⟩, scopes⟩
  · rw [arena]
    exact accounted.free
  · rw [arena]
    intro id node found placeholder
    exact Nat.lt_of_lt_of_le (accounted.reported id node found placeholder) errors

end State.Advances

/-! ### Brackets -/

def State.Open (state : State) (brackets : List Bracket) : Prop :=
  ∃ taken, state.tokens = state.lookahead.toList ++ taken ∧
    openBrackets? taken = some brackets

structure Standing where
  brackets : List Bracket := []
  scopes : Nat := 0

/-- A part of a parse leads from one standing to another. The brackets count
only as long as no error is reported. -/
structure State.Passage (start goal : Standing) (before after : State) : Prop
    extends State.Advances start.scopes goal.scopes before after where
  brackets : after.report.errors = 0 → ∀ outer, before.Open (start.brackets ++ outer) →
    after.Open (goal.brackets ++ outer)

namespace State.Passage

variable {first second third : Standing} {before middle after : State}

theorem refl (standing : Standing) (state : State) : Passage standing standing state state :=
  ⟨.refl _ state, fun _ _ => id⟩

theorem trans (left : Passage first second before middle)
    (right : Passage second third middle after) : Passage first third before after where
  toAdvances := left.toAdvances.trans right.toAdvances
  brackets flawless outer opened := by
    have earlier : middle.report.errors = 0 :=
      Nat.le_zero.mp (flawless ▸ right.errors)
    exact right.brackets flawless outer (left.brackets earlier outer opened)

/-- What is balanced by itself is so within any construct. -/
theorem under (passage : Passage {} {} before after) (standing : Standing) :
    Passage standing standing before after where
  toAdvances := passage.toAdvances.under standing.scopes
  brackets flawless outer opened :=
    passage.brackets flawless (standing.brackets ++ outer) opened

/-- Once an error has been reported, brackets are not counted. -/
theorem ofReported (advances : Advances first.scopes second.scopes before after)
    (reported : 0 < after.report.errors) : Passage first second before after where
  toAdvances := advances
  brackets flawless := by
    rw [flawless] at reported
    cases reported

end State.Passage

structure State.Unmoved (before after : State) : Prop
    extends State.Advances 0 0 before after where
  tokens : after.tokens = before.tokens
  lookahead : after.lookahead = before.lookahead

namespace State.Unmoved

variable {before middle after : State}

theorem refl (state : State) : Unmoved state state :=
  ⟨.refl 0 state, rfl, rfl⟩

theorem trans (left : Unmoved before middle) (right : Unmoved middle after) :
    Unmoved before after where
  toAdvances := left.toAdvances.trans right.toAdvances
  tokens := right.tokens.trans left.tokens
  lookahead := right.lookahead.trans left.lookahead

theorem opened (unmoved : Unmoved before after) {brackets : List Bracket}
    (opened : before.Open brackets) : after.Open brackets := by
  unfold State.Open at opened ⊢
  rw [unmoved.tokens, unmoved.lookahead]
  exact opened

theorem passage (unmoved : Unmoved before after) : Passage {} {} before after :=
  ⟨unmoved.toAdvances, fun _ _ => unmoved.opened⟩

theorem ofFields (arena : after.arena = before.arena) (scopes : after.scopes = before.scopes)
    (tokens : after.tokens = before.tokens) (lookahead : after.lookahead = before.lookahead)
    (errors : before.report.errors ≤ after.report.errors) : Unmoved before after := by
  refine ⟨.ofSameArena errors arena ?_, tokens, lookahead⟩
  rw [scopes]
  exact .refl 0 before.scopes

end State.Unmoved

theorem State.Undisturbed.unmoved {before after : State} (same : before.Undisturbed after) :
    before.Unmoved after :=
  .ofFields same.arena same.scopes same.tokens same.lookahead same.errors

/-! ### Shapes -/

class Shape.Proper (shape : Shape α) : Prop where
  proper : shape ≠ .leaf .error

/-- A change of the store that brings in no placeholder, or does so after an
error has been reported. -/
theorem State.Advances.put {state : State} {arena : Arena} {id : NodeId} {node : Node}
    (free : state.arena.FreeSound → arena.FreeSound)
    (puts : state.arena.FreeSound → state.arena.Puts id (some node) arena)
    (licensed : node.shape = .leaf .error → state.Accounted → 0 < state.report.errors) :
    Advances 0 0 state { state with arena } := by
  refine ⟨Nat.le_refl _, fun accounted => ⟨free accounted.free, ?_⟩, .refl 0 _⟩
  intro other found here placeholder
  have held := puts accounted.free other
  by_cases same : other = id
  · rw [if_pos same, here] at held
    cases held
    exact licensed placeholder accounted
  · rw [if_neg same, here] at held
    exact accounted.reported other found held.symm placeholder

end RubySyntax

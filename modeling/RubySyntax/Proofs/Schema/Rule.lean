/-
Steps that uphold the schema.

What a step makes depends on what it is given: the block of a call comes with
its arguments, for example. So a step is judged where something is known of the
outcome, and what is then known of its result is passed on to the steps that
follow. Steps that are put together from such steps are found by instance search.
-/

import RubySyntax.Proofs.Returns
import RubySyntax.Proofs.Schema.Store

namespace RubySyntax

variable {α β σ : Type} {outcome : Arena} {known more : Prop}

/-! ### What is known of values -/

/-- What is known of the values of a type, as far as it depends on the type. -/
class Judged (α : Type) where
  good : Arena → α → Prop

instance (priority := low) Judged.any : Judged α := ⟨fun _ _ => True⟩

class Harmless (α : Type) [Judged α] : Prop where
  good : ∀ outcome (value : α), Judged.good outcome value

instance (priority := low) : @Harmless α Judged.any := @Harmless.mk α Judged.any fun _ _ => trivial

instance [Judged α] : Judged (Option α) := ⟨fun outcome item => ∀ value ∈ item, Judged.good outcome value⟩

instance [Judged α] [Harmless α] : Harmless (Option α) :=
  ⟨fun outcome _ value _ => Harmless.good outcome value⟩

instance [Judged α] [Judged β] : Judged (α × β) :=
  ⟨fun outcome pair => Judged.good outcome pair.1 ∧ Judged.good outcome pair.2⟩

def Turn.Good (invariant : σ → Prop) (post : α → Prop) : Turn σ α → Prop
  | .again next => invariant next
  | .done value => post value

instance [Judged σ] [Judged α] : Judged (Turn σ α) :=
  ⟨fun outcome => Turn.Good (Judged.good outcome) (Judged.good outcome)⟩

instance : Judged (Shape NodeId) := ⟨fun outcome shape => shape.Conforms outcome⟩

instance : Judged Arguments :=
  ⟨fun outcome list => outcome.Tagged? ["iter", "block-pass"] list.block⟩

instance : Judged Operand where
  good outcome
    | .fullCall _ _ list => Judged.good outcome list
    | _ => True

class Entails (known wanted : Prop) : Prop where
  holds : known → wanted

instance : Entails (more ∧ known) more := ⟨And.left⟩

instance (priority := low) {wanted : Prop} [Entails known wanted] :
    Entails (more ∧ known) wanted :=
  ⟨fun both => Entails.holds both.2⟩

instance [Judged α] (value : α) :
    Entails (Judged.good outcome (some value) ∧ known) (Judged.good outcome value) :=
  ⟨fun given => given.1 value rfl⟩

instance (shape : Shape NodeId) :
    Entails (Judged.good outcome (some shape) ∧ known) (shape.Conforms outcome) :=
  ⟨fun given => given.1 shape rfl⟩

instance [Judged α] [Judged β] (first : α) (second : β) :
    Entails (Judged.good outcome (first, second) ∧ known) (Judged.good outcome first) :=
  ⟨fun given => given.1.1⟩

instance [Judged α] : Entails known (Judged.good outcome (none : Option α)) := ⟨fun _ => nofun⟩

instance [Judged α] (value : α) [given : Entails known (Judged.good outcome value)] :
    Entails known (Judged.good outcome (some value)) where
  holds known other same := by
    cases same
    exact given.holds known

instance [Judged σ] [Judged α] (next : σ) [given : Entails known (Judged.good outcome next)] :
    Entails known (Judged.good outcome (Turn.again next : Turn σ α)) :=
  ⟨given.holds⟩

instance [Judged σ] [Judged α] (value : α) [given : Entails known (Judged.good outcome value)] :
    Entails known (Judged.good outcome (Turn.done value : Turn σ α)) :=
  ⟨given.holds⟩

instance [Judged α] [Judged β] (first : α) (second : β)
    [left : Entails known (Judged.good outcome first)]
    [right : Entails known (Judged.good outcome second)] :
    Entails known (Judged.good outcome (first, second)) :=
  ⟨fun given => ⟨left.holds given, right.holds given⟩⟩

instance [Judged α] [Harmless α] (value : α) : Entails known (Judged.good outcome value) :=
  ⟨fun _ => Harmless.good outcome value⟩

/-! ### Steps without tables -/

structure State.Idles (before after : State) : Prop where
  input : after.input = before.input
  map : after.report.map = before.report.map
  limits : after.limits = before.limits
  arena : after.arena = before.arena
  lookahead : after.lookahead = before.lookahead
  literal : after.lexer.literal = before.lexer.literal
  contexts : after.lexer.contexts = before.lexer.contexts
  heredocs : after.lexer.heredocs = before.lexer.heredocs
  due : after.lexer.heredocsDue = before.lexer.heredocsDue
  pending : after.lexer.variablePending = before.lexer.variablePending

namespace State.Idles

variable {before middle after : State}

theorem refl (state : State) : Idles state state :=
  ⟨rfl, rfl, rfl, rfl, rfl, rfl, rfl, rfl, rfl, rfl⟩

theorem trans (first : Idles before middle) (second : Idles middle after) :
    Idles before after where
  input := second.input.trans first.input
  map := second.map.trans first.map
  limits := second.limits.trans first.limits
  arena := second.arena.trans first.arena
  lookahead := second.lookahead.trans first.lookahead
  literal := second.literal.trans first.literal
  contexts := second.contexts.trans first.contexts
  heredocs := second.heredocs.trans first.heredocs
  due := second.due.trans first.due
  pending := second.pending.trans first.pending

theorem awaited (idles : Idles before after) :
    after.lexer.awaited = before.lexer.awaited := by
  unfold LexerState.awaited
  rw [idles.heredocs]

theorem remaining (idles : Idles before after) : after.remaining = before.remaining := by
  unfold State.remaining LexerState.weight
  rw [idles.input, idles.literal, idles.contexts, idles.heredocs, idles.due]

theorem reads (idles : Idles before after) (reads : before.Reads) : after.Reads where
  input := idles.input ▸ reads.input
  map := idles.map ▸ reads.map
  pendingVariable := by
    rw [idles.pending, idles.literal, idles.input]
    exact reads.pendingVariable
  regexp := by
    rw [idles.literal, idles.input]
    exact reads.regexp
  turns := by
    rw [idles.remaining, idles.limits]
    exact reads.turns

theorem orderly (idles : Idles before after) (orderly : before.Orderly) : after.Orderly where
  reads := idles.reads orderly.reads
  free := idles.arena ▸ orderly.free
  waiting := by
    rw [idles.awaited, idles.arena]
    exact orderly.waiting
  distinct := idles.awaited ▸ orderly.distinct
  ahead := by
    rw [idles.lookahead, idles.pending]
    exact orderly.ahead

theorem safely (idles : Idles before after) (orderly : before.Orderly) : Safely before after :=
  .of_eq (idles.orderly orderly) idles.arena idles.awaited

theorem leads (idles : Idles before after) (orderly : before.Orderly) {loose : NodeId → Prop}
    {gained : Prop} (holds : known → gained) : Leads outcome loose known before after gained :=
  (idles.safely orderly).leads holds

end State.Idles

namespace Scan

class Idle (step : Scan α) : Prop where
  returns : ∀ state, Returns step state fun _ after => state.Idles after

/-- Where something is known, a step upholds the schema, and more is known of its
result. -/
def Upholds (outcome : Arena) (known : Prop) (step : Scan α) (post : α → Prop) : Prop :=
  ∀ (loose : NodeId → Prop) (state : State), state.Orderly → state.Holds loose →
    Returns step state fun value after => Leads outcome loose known state after (post value)

class Conforming [Judged α] (outcome : Arena) (known : Prop) (step : Scan α) : Prop where
  upholds : Upholds outcome known step (Judged.good outcome)

section

variable {step first : Scan α} {next : α → Scan β} {post weaker : α → Prop} {goal : β → Prop}

theorem Upholds.mono (upholds : Upholds outcome known step post)
    (implies : ∀ value, known → post value → weaker value) :
    Upholds outcome known step weaker := by
  intro loose state orderly holds
  apply (upholds loose state orderly holds).mono
  intro value after leads
  exact leads.mono (implies value)

theorem Upholds.given (upholds : Upholds outcome known step post) (implies : more → known) :
    Upholds outcome more step post := by
  intro loose state orderly holds
  apply (upholds loose state orderly holds).mono
  intro value after leads
  exact leads.given implies

/-- A first step in a state of which more is known than that it is orderly. -/
theorem Upholds.then {loose : NodeId → Prop} {state : State}
    (upholds : Upholds outcome known first post) (orderly : state.Orderly)
    (holds : state.Holds loose)
    (rest : ∀ value reached, Leads outcome loose known state reached (post value) →
      reached.Holds loose →
      Returns (next value) reached fun result after =>
        Leads outcome loose (post value ∧ known) reached after (goal result)) :
    Returns (first >>= next) state fun result after =>
      Leads outcome loose known state after (goal result) := by
  apply (upholds loose state orderly holds).bind
  intro value reached before
  apply (rest value reached before (holds.later before.lasts)).mono
  intro result after later
  exact before.trans later

theorem Upholds.bind (upholds : Upholds outcome known first post)
    (rest : ∀ value, Upholds outcome (post value ∧ known) (next value) goal) :
    Upholds outcome known (first >>= next) goal := by
  intro loose state orderly holds
  apply upholds.then orderly holds
  intro value reached before still
  exact rest value loose reached before.orderly still

theorem upholds_pure {value : α} (holds : known → post value) :
    Upholds outcome known (pure value) post :=
  fun _ _ orderly _ => returns_pure (.refl orderly holds)

theorem upholds_throw (halt : Halt) : Upholds outcome known (throw halt : Scan α) post :=
  fun _ _ _ _ => returns_throw halt

theorem upholds_idle [Idle step] (holds : ∀ value, known → post value) :
    Upholds outcome known step post := by
  intro loose state orderly _
  apply (Idle.returns state).mono
  intro value after idles
  exact idles.leads orderly (holds value)

theorem upholds_loop {start : σ} {body : σ → Scan (Turn σ α)} (invariant : σ → Prop)
    (started : known → invariant start)
    (turn : ∀ current,
      Upholds outcome (invariant current ∧ known) (body current) (Turn.Good invariant post)) :
    Upholds outcome known (repeatUntil start body) post := by
  intro loose state orderly holds
  apply repeatUntil_returns fun current reached =>
    Leads outcome loose known state reached (invariant current)
  · exact .refl orderly started
  · intro current reached before
    apply (turn current loose reached before.orderly (holds.later before.lasts)).mono
    intro result after later
    cases result with
    | again next => exact before.trans later
    | done value => exact before.trans later

/-! ### Instances -/

instance (value : α) : Idle (pure value : Scan α) := ⟨fun state => returns_pure (.refl state)⟩

instance (halt : Halt) : Idle (throw halt : Scan α) := ⟨fun _ => returns_throw halt⟩

instance : Idle (get : Scan State) where
  returns state := by
    constructor
    intro _ _ run
    cases run
    exact .refl state

instance Idle.bind [Idle first] [∀ value, Idle (next value)] : Idle (first >>= next) where
  returns state := (Idle.returns state).bind fun _ reached before =>
    (Idle.returns reached).mono fun _ _ later => before.trans later

theorem Idle.andThen [Idle first] (rest : ∀ value, Idle (next value)) : Idle (first >>= next) :=
  inferInstance

instance {condition : Prop} [Decidable condition] {left right : Scan α} [Idle left]
    [Idle right] : Idle (if condition then left else right) := by
  split
  · infer_instance
  · infer_instance

instance {items : List α} {body : α → Scan β} [∀ item, Idle (body item)] :
    Idle (items.mapM body) := by
  induction items with
  | nil =>
      rw [List.mapM_nil]
      infer_instance
  | cons item items ih =>
      rw [List.mapM_cons]
      infer_instance

theorem idle_modify {f : State → State} (idles : ∀ state : State, state.Idles (f state)) :
    Idle (modify f : Scan PUnit) where
  returns state := returns_modify (idles state)

variable [Judged α] [Judged β]

instance (priority := low) [Harmless α] [Idle step] : Conforming outcome known step :=
  ⟨upholds_idle fun value _ => Harmless.good outcome value⟩

instance {value : α} [Entails known (Judged.good outcome value)] :
    Conforming outcome known (pure value : Scan α) :=
  ⟨upholds_pure Entails.holds⟩

instance (error : Fatal) : Conforming outcome known (fail error : Scan α) :=
  ⟨upholds_throw (.fatal error)⟩

instance Conforming.bind [Conforming outcome known first]
    [∀ value, Conforming outcome (Judged.good outcome value ∧ known) (next value)] :
    Conforming outcome known (first >>= next) :=
  ⟨Conforming.upholds.bind fun _ => Conforming.upholds⟩

instance {condition : Prop} [Decidable condition] {left right : Scan α}
    [Conforming outcome known left] [Conforming outcome known right] :
    Conforming outcome known (if condition then left else right) := by
  split
  · infer_instance
  · infer_instance

omit [Judged β] in
theorem Upholds.andThen [Conforming outcome known first]
    (rest : ∀ value, Upholds outcome (Judged.good outcome value ∧ known) (next value) goal) :
    Upholds outcome known (first >>= next) goal :=
  Conforming.upholds.bind rest

theorem Conforming.andThen [Conforming outcome known first]
    (rest : ∀ value, Conforming outcome (Judged.good outcome value ∧ known) (next value)) :
    Conforming outcome known (first >>= next) :=
  inferInstance

end

end Scan

/-! ### Steps of the grammar -/

namespace Parse

/-- A step of the grammar upholds the schema under a table. -/
def Upholds (outcome : Arena) (table : RuleTable) (known : Prop) (step : Parse α)
    (post : α → Prop) : Prop :=
  Scan.Upholds outcome known (step table) post

class Conforming [Judged α] (outcome : Arena) (table : RuleTable) (known : Prop)
    (step : Parse α) : Prop where
  upholds : Upholds outcome table known step (Judged.good outcome)

section

variable {table : RuleTable} {step first : Parse α} {next : α → Parse β} {post weaker : α → Prop}
  {goal : β → Prop}

theorem Upholds.mono (upholds : Upholds outcome table known step post)
    (implies : ∀ value, known → post value → weaker value) :
    Upholds outcome table known step weaker :=
  Scan.Upholds.mono upholds implies

theorem Upholds.given (upholds : Upholds outcome table known step post) (implies : more → known) :
    Upholds outcome table more step post :=
  Scan.Upholds.given upholds implies

theorem Upholds.then {loose : NodeId → Prop} {state : State}
    (upholds : Upholds outcome table known first post) (orderly : state.Orderly)
    (holds : state.Holds loose)
    (rest : ∀ value reached, Leads outcome loose known state reached (post value) →
      reached.Holds loose →
      Returns table (next value) reached fun result after =>
        Leads outcome loose (post value ∧ known) reached after (goal result)) :
    Returns table (first >>= next) state fun result after =>
      Leads outcome loose known state after (goal result) :=
  Scan.Upholds.then upholds orderly holds rest

theorem Upholds.bind (upholds : Upholds outcome table known first post)
    (rest : ∀ value, Upholds outcome table (post value ∧ known) (next value) goal) :
    Upholds outcome table known (first >>= next) goal :=
  Scan.Upholds.bind upholds rest

theorem upholds_pure {value : α} (holds : known → post value) :
    Upholds outcome table known (pure value) post :=
  Scan.upholds_pure holds

theorem upholds_some {value : α} (holds : known → post value) :
    Upholds outcome table known (pure (some value)) fun found => ∀ other ∈ found, post other := by
  apply upholds_pure
  intro given other same
  cases same
  exact holds given

theorem upholds_none :
    Upholds outcome table known (pure none) fun found => ∀ other ∈ found, post other :=
  upholds_pure fun _ => nofun

theorem upholds_lift {step : Scan α} (upholds : Scan.Upholds outcome known step post) :
    Upholds outcome table known (liftM step) post :=
  upholds

theorem upholds_loop {start : σ} {body : σ → Parse (Turn σ α)} (invariant : σ → Prop)
    (started : known → invariant start)
    (turn : ∀ current,
      Upholds outcome table (invariant current ∧ known) (body current) (Turn.Good invariant post)) :
    Upholds outcome table known (repeatUntil start body) post :=
  Scan.upholds_loop invariant started turn

variable [Judged α] [Judged β] [Judged σ]

instance {step : Scan α} [Scan.Conforming outcome known step] :
    Conforming outcome table known (liftM step : Parse α) :=
  ⟨Scan.Conforming.upholds⟩

instance {value : α} [Entails known (Judged.good outcome value)] :
    Conforming outcome table known (pure value : Parse α) :=
  ⟨upholds_pure Entails.holds⟩

instance : Conforming outcome table known (get : Parse State) := by
  have idle : Scan.Conforming outcome known (get : Scan State) := inferInstance
  exact ⟨idle.upholds⟩

instance Conforming.bind [Conforming outcome table known first]
    [∀ value, Conforming outcome table (Judged.good outcome value ∧ known) (next value)] :
    Conforming outcome table known (first >>= next) :=
  ⟨Conforming.upholds.bind fun _ => Conforming.upholds⟩

instance {condition : Prop} [Decidable condition] {left right : Parse α}
    [Conforming outcome table known left] [Conforming outcome table known right] :
    Conforming outcome table known (if condition then left else right) := by
  split
  · infer_instance
  · infer_instance

instance {start : σ} {body : σ → Parse (Turn σ α)} [Entails known (Judged.good outcome start)]
    [∀ current, Conforming outcome table (Judged.good outcome current ∧ known) (body current)] :
    Conforming outcome table known (repeatUntil start body) := by
  constructor
  apply upholds_loop (Judged.good outcome) Entails.holds
  intro current
  exact Conforming.upholds

omit [Judged β] [Judged σ] in
theorem Conforming.lead {loose : NodeId → Prop} {state : State} {wanted : β → State → Prop}
    (conforming : Conforming outcome table known first) (orderly : state.Orderly)
    (holds : state.Holds loose)
    (rest : ∀ value reached, Leads outcome loose known state reached (Judged.good outcome value) →
      reached.Holds loose → Returns table (next value) reached wanted) :
    Returns table (first >>= next) state wanted := by
  apply Returns.bind (conforming.upholds loose state orderly holds)
  intro value reached leads
  exact rest value reached leads (holds.later leads.lasts)

omit [Judged β] [Judged σ] in
theorem Upholds.andThen [Conforming outcome table known first]
    (rest : ∀ value, Upholds outcome table (Judged.good outcome value ∧ known) (next value) goal) :
    Upholds outcome table known (first >>= next) goal :=
  Conforming.upholds.bind rest

theorem Conforming.andThen [Conforming outcome table known first]
    (rest : ∀ value, Conforming outcome table (Judged.good outcome value ∧ known) (next value)) :
    Conforming outcome table known (first >>= next) :=
  inferInstance

theorem Conforming.loop {start : σ} {body : σ → Parse (Turn σ α)}
    [Entails known (Judged.good outcome start)]
    (each : ∀ current,
      Conforming outcome table (Judged.good outcome current ∧ known) (body current)) :
    Conforming outcome table known (repeatUntil start body) :=
  inferInstance

end

end Parse

end RubySyntax

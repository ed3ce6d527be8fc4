/-
What is kept of the text of a literal.

The loop that gathers a text is followed beside one with a limit under which nothing is
dropped. They read the same bytes and ask for the same input, so only what they keep
differs, and that only where the text is longer than the first one keeps.

This is not said of the body of a heredoc. The loop that reads it reports a text that is as
long as the limit, although all of it is kept, and what an escape sequence stands for is kept
beyond the limit.
-/

import RubySyntax.Proofs.Lexer.Literal
import RubySyntax.Proofs.Returns

namespace RubySyntax

variable {α β σ τ : Type}

def State.keeping (state : State) (tokenMax : Nat) : State :=
  { state with limits := { state.limits with tokenMax } }

namespace Scan

/-- If two steps return values, the second one under another limit, then they do so in
states that differ in nothing else, and the values are related. -/
structure Beside (wide : Nat) (first : Scan α) (second : Scan β) (state : State)
    (related : α → β → State → Prop) : Prop where
  ends : ∀ {value after twin reached}, first state = .ok value after →
    second (state.keeping wide) = .ok twin reached →
      reached = after.keeping wide ∧ after.limits = state.limits ∧ related value twin after

section

variable {wide : Nat} {first : Scan α} {second : Scan β} {state : State}
  {related : α → β → State → Prop}

theorem Beside.bind {γ δ : Type} {next : α → Scan γ} {other : β → Scan δ}
    {goal : γ → δ → State → Prop} (beside : Beside wide first second state related)
    (follow : ∀ value twin after, after.limits = state.limits → related value twin after →
      Beside wide (next value) (other twin) after goal) :
    Beside wide (first >>= next) (second >>= other) state goal := by
  constructor
  intro result after twin reached run also
  change EStateM.bind first next state = .ok result after at run
  change EStateM.bind second other (state.keeping wide) = .ok twin reached at also
  unfold EStateM.bind at run also
  cases once : first state with
  | error halt middle =>
      rw [once] at run
      cases run
  | ok value middle =>
      cases both : second (state.keeping wide) with
      | error halt between =>
          rw [both] at also
          cases also
      | ok alike between =>
          rw [once] at run
          rw [both] at also
          obtain ⟨rfl, limits, whole⟩ := beside.ends once both
          obtain ⟨same, kept, done⟩ := (follow value alike middle limits whole).ends run also
          exact ⟨same, kept.trans limits, done⟩

theorem Beside.mono {weaker : α → β → State → Prop}
    (beside : Beside wide first second state related)
    (implies : ∀ value twin after, related value twin after → weaker value twin after) :
    Beside wide first second state weaker := by
  constructor
  intro _ _ _ _ run also
  obtain ⟨same, limits, whole⟩ := beside.ends run also
  exact ⟨same, limits, implies _ _ _ whole⟩

theorem beside_pure {value : α} {twin : β} (holds : related value twin state) :
    Beside wide (pure value) (pure twin) state related := by
  constructor
  intro _ _ _ _ run also
  cases run
  cases also
  exact ⟨rfl, rfl, holds⟩

theorem Beside.get_bind {next : State → Scan α} {other : State → Scan β}
    (beside : Beside wide (next state) (other (state.keeping wide)) state related) :
    Beside wide (get >>= next) (get >>= other) state related :=
  ⟨beside.ends⟩

theorem Beside.ite {condition : Prop} [Decidable condition] {left right : Scan α}
    {left' right' : Scan β} (whenTrue : Beside wide left left' state related)
    (whenFalse : Beside wide right right' state related) :
    Beside wide (if condition then left else right) (if condition then left' else right') state
      related := by
  by_cases holds : condition
  · rw [if_pos holds, if_pos holds]
    exact whenTrue
  · rw [if_neg holds, if_neg holds]
    exact whenFalse

theorem Beside.relyOn_bind {holds : Bool} {fault : Fault} {next : Unit → Scan α}
    {other : Unit → Scan β} (beside : Beside wide (next ()) (other ()) state related) :
    Beside wide (relyOn holds fault >>= next) (relyOn holds fault >>= other) state related := by
  cases holds with
  | false =>
      constructor
      intro _ _ _ _ run
      cases run
  | true => exact ⟨beside.ends⟩

theorem beside_modify {f : State → State} (kept : (f state).limits = state.limits)
    (same : f (state.keeping wide) = (f state).keeping wide) :
    Beside wide (modify f) (modify f) state fun _ _ after => after = f state := by
  constructor
  intro _ _ _ _ run also
  cases run
  cases also
  exact ⟨same, kept, rfl⟩

theorem beside_modifyGet {f : State → α × State} (kept : (f state).2.limits = state.limits)
    (same : f (state.keeping wide) = ((f state).1, (f state).2.keeping wide)) :
    Beside wide (modifyGet f) (modifyGet f) state fun value twin _ => twin = value := by
  constructor
  intro _ _ _ _ run also
  change EStateM.Result.ok (f (state.keeping wide)).1 (f (state.keeping wide)).2 = _ at also
  rw [same] at also
  cases run
  cases also
  exact ⟨rfl, kept, rfl⟩

theorem repeatUntil_beside {start : σ} {other : τ} {body : σ → Scan (Turn σ α)}
    {again : τ → Scan (Turn τ β)} (invariant : σ → τ → State → Prop)
    (started : invariant start other state)
    (turn : ∀ current twin state, invariant current twin state →
      Beside wide (body current) (again twin) state fun result same after =>
        match result, same with
        | .again next, .again twin => invariant next twin after
        | .done value, .done twin => related value twin after
        | _, _ => False) :
    Beside wide (repeatUntil start body) (repeatUntil other again) state related := by
  apply Beside.get_bind
  change Beside wide (iterate body state.limits.turns start)
    (iterate again state.limits.turns other) state related
  generalize state.limits.turns = turns
  induction turns generalizing start other state with
  | zero =>
      constructor
      intro _ _ _ _ run
      cases run
  | succ turns ih =>
      constructor
      intro value after twin reached run also
      unfold iterate at run also
      cases once : body start state with
      | error halt middle =>
          rw [once] at run
          cases run
      | ok result middle =>
          -- Both loops take their turns together, so they end in the same one.
          cases both : again other (state.keeping wide) with
          | error halt between =>
              rw [both] at also
              cases also
          | ok same between =>
              rw [once] at run
              rw [both] at also
              obtain ⟨rfl, limits, kept⟩ := (turn start other state started).ends once both
              cases result with
              | done value =>
                  cases same with
                  | done twin =>
                      cases run
                      cases also
                      exact ⟨rfl, limits, kept⟩
                  | again twin => exact kept.elim
              | again next =>
                  cases same with
                  | done twin => exact kept.elim
                  | again twin =>
                      obtain ⟨same, more, done⟩ := (ih kept).ends run also
                      exact ⟨same, more.trans limits, done⟩

theorem hasMore_beside :
    Beside wide hasMore hasMore state fun more other _ => other = more := by
  apply Beside.get_bind
  change Beside wide (if state.input.atEnd then fetchMore else pure true)
    (if state.input.atEnd then fetchMore else pure true) state _
  split
  · apply Beside.get_bind
    apply Beside.relyOn_bind
    apply beside_modifyGet
    · dsimp only
      split
      · rfl
      · split
        · rfl
        · rfl
    · dsimp only [State.keeping]
      split
      · rfl
      · split
        · rfl
        · rfl
  · exact beside_pure rfl

theorem report_beside (span : Span) (problem : Problem) :
    Beside wide (report span problem) (report span problem) state fun _ _ _ => True := by
  apply Beside.get_bind
  apply Beside.relyOn_bind
  exact (beside_modify rfl rfl).mono fun _ _ _ _ => trivial

theorem escapeRemarks_beside (backslash : Nat) (reading : EscapeReading) :
    Beside wide (escapeRemarks backslash reading) (escapeRemarks backslash reading) state
      fun _ _ _ => True := by
  unfold escapeRemarks
  induction reading.remarks generalizing state with
  | nil => exact beside_pure trivial
  | cons remark more ih =>
      refine Beside.bind (report_beside _ remark.2) ?_
      rintro _ _ after - -
      exact ih

end

/-! ### The text -/

structure Gathered.Trims (text : Gathered) (limit : Nat) (whole : Gathered) : Prop where
  short : text.bytes.size ≤ limit
  same : text.truncated = false → text.bytes = whole.bytes
  longer : text.truncated = true → limit < whole.bytes.size

namespace Gathered

variable {limit wide : Nat} {text whole : Gathered}

theorem size_appendList (held : Array Byte) (bytes : Bytes) :
    (held.appendList bytes).size = held.size + bytes.length := by
  rw [Array.appendList_eq_append, ← Array.length_toList, Array.toList_appendList,
    List.length_append, Array.length_toList]

/-- Where nothing has been dropped in the end nothing was before. -/
theorem whole_of_add {bytes : Bytes} (kept : (whole.add wide bytes).truncated = false) :
    whole.truncated = false ∧ (whole.add wide bytes).bytes = whole.bytes.appendList bytes := by
  unfold add at kept ⊢
  split at kept
  · next fits => exact ⟨kept, by rw [if_pos fits]⟩
  · cases kept

theorem Trims.add (trims : text.Trims limit whole) {bytes : Bytes}
    (kept : (whole.add wide bytes).truncated = false) :
    (text.add limit bytes).Trims limit (whole.add wide bytes) := by
  obtain ⟨-, appended⟩ := whole_of_add kept
  have grown := congrArg Array.size appended
  rw [size_appendList] at grown
  by_cases fits : text.bytes.size + bytes.length ≤ limit
  · have added : text.add limit bytes = { text with bytes := text.bytes.appendList bytes } :=
      if_pos fits
    rw [added]
    refine ⟨?_, ?_, ?_⟩
    · dsimp only
      rw [size_appendList]
      exact fits
    · intro held
      rw [appended, ← trims.same held]
    · intro dropped
      have longer := trims.longer dropped
      omega
  · have added : text.add limit bytes = { text with truncated := true } := if_neg fits
    rw [added]
    refine ⟨trims.short, nofun, fun _ => ?_⟩
    cases dropped : text.truncated with
    | true =>
        have longer := trims.longer dropped
        omega
    | false =>
        have same := congrArg Array.size (trims.same dropped)
        omega

/-- A text is known to be cut where what is kept of it is not all of it. -/
theorem Trims.truncated_iff (trims : text.Trims limit whole) :
    text.truncated = true ↔ text.bytes ≠ whole.bytes := by
  constructor
  · intro dropped same
    have short := trims.short
    have longer := trims.longer dropped
    rw [same] at short
    omega
  · intro apart
    cases dropped : text.truncated with
    | true => rfl
    | false => exact absurd (trims.same dropped) apart

end Gathered

variable {wide : Nat} {state : State}

def Gathered.SideBySide (limit : Nat) (text whole : Gathered) : Prop :=
  whole.literal = text.literal ∧ (whole.truncated = false → text.Trims limit whole)

theorem Gathered.SideBySide.add {limit : Nat} {text whole : Gathered}
    (both : text.SideBySide limit whole) (bytes : Bytes) :
    (text.add limit bytes).SideBySide limit (whole.add wide bytes) := by
  refine ⟨?_, fun kept => (both.2 (whole_of_add kept).1).add kept⟩
  rw [Gathered.add_literal, Gathered.add_literal]
  exact both.1

theorem Gathered.SideBySide.nest {limit : Nat} {text whole : Gathered}
    (both : text.SideBySide limit whole) (byte : Byte) :
    Gathered.SideBySide limit { text with literal := text.literal.nest byte }
      { whole with literal := whole.literal.nest byte } := by
  refine ⟨congrArg (Quotation.nest · byte) both.1, fun kept => ?_⟩
  have trims := both.2 kept
  exact ⟨trims.short, trims.same, trims.longer⟩

/-- The loop keeps as much of the text as the limit allows, and knows whether that is all of
it. -/
theorem gather_beside (literal : Quotation) :
    Beside wide (gather literal) (gather literal) state fun text whole _ =>
      text.SideBySide state.limits.tokenMax whole := by
  apply repeatUntil_beside fun text whole after =>
    after.limits = state.limits ∧ text.SideBySide state.limits.tokenMax whole
  · exact ⟨rfl, rfl, fun _ => ⟨Nat.zero_le _, fun _ => rfl, nofun⟩⟩
  rintro text ⟨_, bytes, truncated⟩ current ⟨limits, rfl, trims⟩
  have both : text.SideBySide state.limits.tokenMax ⟨text.literal, bytes, truncated⟩ :=
    ⟨rfl, trims⟩
  refine hasMore_beside.bind ?_
  rintro _ more after kept same
  cases same
  have held : after.limits = state.limits := kept.trans limits
  refine .ite (beside_pure both) (.get_bind (.ite (beside_pure both) (.ite (beside_pure both) ?_)))
  refine .ite ?_ ?_
  · refine Beside.bind (beside_modify rfl rfl) ?_
    rintro _ _ moved kept -
    refine (escapeRemarks_beside _ _).bind ?_
    rintro _ _ last same -
    refine beside_pure ⟨same.trans (kept.trans held), ?_⟩
    rw [held]
    exact both.add _
  · refine Beside.bind (beside_modify rfl rfl) ?_
    rintro _ _ moved kept -
    refine beside_pure ⟨kept.trans held, ?_⟩
    rw [held]
    exact (both.nest after.input.peekByte).add _

/-- The text of a literal is kept up to the limit, and reported as too long where what is kept
of it is not all of it. Under the limit of the other run nothing is dropped. -/
theorem literalText_kept {literal : Quotation} {whole : Gathered} {reached : State}
    (run : gather literal (state.keeping wide) = .ok whole reached)
    (all : whole.truncated = false) :
    Returns (literalText literal) state fun token after => ∃ bytes,
      token.kind = .content bytes false ∧ bytes.length ≤ state.limits.tokenMax ∧
        after.report = if bytes = whole.bytes.toList then reached.report
          else reached.report.add token.span (.truncated .string) := by
  have gathered : Returns (gather literal) state fun text after =>
      reached = after.keeping wide ∧ text.Trims state.limits.tokenMax whole := by
    constructor
    intro text after kept
    obtain ⟨same, -, both⟩ := (gather_beside literal).ends kept run
    exact ⟨same, both.2 all⟩
  apply Returns.position_bind
  refine gathered.bind ?_
  rintro text after ⟨rfl, trims⟩
  apply Returns.position_bind
  dsimp only
  have short : text.bytes.toList.length ≤ state.limits.tokenMax := trims.short
  have listed : text.bytes.toList = whole.bytes.toList ↔ text.bytes = whole.bytes :=
    ⟨Array.toList_inj.mp, congrArg Array.toList⟩
  split
  · exact returns_fail_bind
  split
  · next dropped =>
    have apart : text.bytes.toList ≠ whole.bytes.toList :=
      fun same => trims.truncated_iff.mp dropped (listed.mp same)
    apply Returns.position_bind
    refine Returns.bind (Returns.get_bind (Returns.relyOn_bind (returns_modify rfl)) :
      Returns (report _ _) after fun _ reached => reached = { after with
        report := after.report.add ⟨state.input.position, after.input.position⟩
          (.truncated .string) }) ?_
    rintro _ _ rfl
    apply Returns.modify_bind
    apply Returns.position_bind
    refine returns_pure ⟨_, rfl, short, ?_⟩
    rw [if_neg apart]
    rfl
  · next held =>
    have same : text.bytes.toList = whole.bytes.toList :=
      listed.mpr (trims.same (Bool.eq_false_iff.mpr held))
    apply Returns.modify_bind
    apply Returns.position_bind
    refine returns_pure ⟨_, rfl, short, ?_⟩
    rw [if_pos same]
    rfl

end Scan

end RubySyntax

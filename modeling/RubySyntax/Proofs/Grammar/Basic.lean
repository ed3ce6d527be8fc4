/-
The steps that read tokens, and the small rules that all others are made of.
-/

import RubySyntax.Proofs.Grammar.Node

namespace RubySyntax

theorem State.Sound.ahead_held {strict : Prop} {state : State} (sound : state.Sound strict)
    {token : Token} (ahead : state.lookahead = some token) :
    Held strict state (handlesOf token) state := by
  rw [← List.append_nil (handlesOf token)]
  refine (Held.refl sound).gain fun handle member => ?_
  obtain ⟨name, listed, rfl⟩ := List.mem_map.mp member
  exact (sound.ahead token ahead).known name listed

namespace Parse

open Scan (Builds Looks)

variable {α : Type} {tables : Tables} {limit : Nat} {base state : State}
  {handles : List Handle}

/-! ### Reading and taking tokens -/

theorem see_held (held : Held tables.stoppable base handles state) {reached : State}
    {token : Token} (none : base.lookahead = none) (next : Next state token reached)
    (counted : state.tokens.length < reached.tokens.length)
    (noVariable : ¬state.Sees .variableInterpolation) (noMarker : token.kind ≠ .heredocBodies) :
    Held tables.stoppable base (handlesOf token ++ handles)
      { reached with lookahead := some token } := by
  have carried := held.sound.carry next.toCarried next.reads fun other ahead kind =>
    absurd ⟨other, ahead, kind⟩ noVariable
  have before := held.keeps.onward
  have shorter : reached.remaining + lookaheadWeight (some token) ≤ state.measure := by
    have less := next.remaining
    have light := lookaheadWeight_le (some token)
    unfold State.measure
    rcases next.progress with ended | marker | progress
    · rw [lookaheadWeight_end ended]
      omega
    · exact absurd marker noMarker
    · omega
  have onward : base.Onward { reached with lookahead := some token } := by
    have placed := state.ordinal_le
    have number : ({ reached with lookahead := some token } : State).ordinal =
        reached.tokens.length := rfl
    exact before.trans ⟨shorter, by omega⟩
  have seen := (held.next carried).setLookahead (some token)
    (by rintro _ ⟨⟩; exact ⟨next.known, next.pending⟩) onward (by simp [none])
  refine seen.gain fun handle member => ?_
  obtain ⟨name, listed, rfl⟩ := List.mem_map.mp member
  exact next.known name listed

structure Seeking (strict : Prop) (base state : State) : Prop where
  held : Held strict base [] state
  noVariable : ¬state.Sees .variableInterpolation
  pending : base.lexer.variablePending = true → state.lexer.variablePending = true

theorem readTurn_ends (calls : Meets tables limit)
    (seeking : Seeking tables.stoppable base state) (enough : 8 * state.measure < limit) :
    Ends tables readTurn state (Turned (fun _ after => Seeking tables.stoppable base after)
      (fun token after =>
        (base.lookahead = none →
          Held tables.stoppable base (handlesOf token) { after with lookahead := some token }) ∧
          (base.lexer.variablePending = true → Scan.IsVariable token.kind)) state) := by
  obtain ⟨held, noVariable, pending⟩ := seeking
  refine Ends.lift_bind (Scan.readToken_ends held.sound.reads) ?_
  rintro token reached ⟨next, counted, isVariable⟩
  refine Ends.ite (fun marker => ?_) fun noMarker => ?_
  · have carried := held.sound.carry next.toCarried next.reads fun other seen kind =>
      absurd ⟨other, seen, kind⟩ noVariable
    have shorter := carried.keeps.onward
    have further : state.ordinal < reached.ordinal := by
      unfold State.ordinal
      rw [next.lookahead]
      omega
    have still : ¬reached.Sees .variableInterpolation := by
      unfold State.Sees
      rw [next.lookahead]
      exact noVariable
    refine Ends.bind (calls.heredocBodies reached carried.sound (next.due marker) still
      (by omega)) ?_
    rintro _ last ⟨made, less, noneSeen⟩
    have onward := made.keeps.onward
    refine ends_pure ⟨⟨(held.next carried).next made, noneSeen, fun waiting => ?_⟩, by omega⟩
    exact absurd marker (isVariable (pending waiting)).plain.1
  · refine ends_pure ⟨fun unseen => ?_, fun waiting => isVariable (pending waiting)⟩
    simpa using see_held held unseen next counted noVariable noMarker

/-- The next token is read, with the bodies of heredocs before it. The variable
after the mark of an interpolated one comes right away. -/
theorem peekToken_ends (calls : Meets tables limit) (sound : state.Sound tables.stoppable)
    (enough : 8 * state.measure < limit) :
    Makes tables peekToken state fun token after =>
      after.lookahead = some token ∧
        (state.lookahead = none → state.lexer.variablePending = true →
          Scan.IsVariable token.kind) := by
  refine Ends.get_bind ?_
  cases ahead : state.lookahead with
  | some token =>
      exact makes_pure (sound.ahead_held ahead) ⟨ahead, nofun⟩
  | none =>
      have start : Seeking tables.stoppable state state :=
        ⟨Held.refl sound, State.not_sees ahead _, id⟩
      refine Ends.bind (loop_ends _ sound start fun _ _ seeking onward =>
        readTurn_ends calls seeking (by omega)) ?_
      rintro token reached ⟨held, isVariable⟩
      exact Ends.modify_bind (makes_pure (held ahead) ⟨rfl, fun _ => isVariable⟩)

theorem peekKind_ends (calls : Meets tables limit) (sound : state.Sound tables.stoppable)
    (enough : 8 * state.measure < limit) :
    Makes tables peekKind state fun kind after => after.Sees kind :=
  Ends.bind (peekToken_ends calls sound enough) fun token _ made =>
    makes_pure made.1 ⟨token, made.2.1, rfl⟩

theorem peekKind_again {token : Token} (ahead : state.lookahead = some token) :
    Ends tables peekKind state fun kind after => kind = token.kind ∧ after = state := by
  refine Ends.bind (Ends.get_bind ?_ : Ends tables peekToken state fun result after =>
    result = token ∧ after = state) ?_
  · rw [ahead]
    exact ends_pure ⟨rfl, rfl⟩
  · rintro _ _ ⟨rfl, rfl⟩
    exact ends_pure ⟨rfl, rfl⟩

theorem take_ends (sound : state.Sound tables.stoppable) {token : Token}
    (ahead : state.lookahead = some token) (more : token.kind ≠ .endOfInput) :
    Makes tables take state fun result after =>
      result = token ∧ state.Past after ∧ after.lookahead = none ∧
        after.lexer = state.lexer := by
  refine Ends.get_bind ?_
  rw [ahead]
  have past : state.Past { state with lookahead := none, previousStop := token.span.stop } := by
    constructor
    · have weight : state.measure = state.remaining + 1 := by
        unfold State.measure
        rw [ahead, lookaheadWeight_more more]
      rw [weight]
      exact Nat.lt_succ_self _
    · rw [State.ordinal_of_some ahead, State.ordinal_of_none rfl]
      exact Nat.lt_succ_self _
  have known := sound.ahead_held ahead
  have taken : Held tables.stoppable state (handlesOf token)
      { state with lookahead := none, previousStop := token.span.stop } :=
    known.setLookahead none nofun past.onward fun _ _ => .inl past
  exact Ends.modify_bind (makes_pure taken ⟨rfl, past, rfl, rfl⟩)

theorem skip_ends (sound : state.Sound tables.stoppable) (ahead : state.AtToken) :
    Makes tables skip state fun _ after =>
      state.Past after ∧ after.lookahead = none ∧ after.lexer = state.lexer := by
  obtain ⟨token, seen, more⟩ := ahead
  refine Ends.bind (take_ends sound seen more) ?_
  rintro _ after ⟨made, -, less, rest⟩
  exact makes_pure made.forget ⟨less, rest⟩

theorem accept?_ends (calls : Meets tables limit) (sound : state.Sound tables.stoppable)
    (enough : 8 * state.measure < limit) {kind : TokenKind} (more : kind ≠ .endOfInput) :
    Makes tables (accept? kind) state fun result after =>
      result.isSome = true → state.Past after := by
  refine Ends.bind (peekKind_ends calls sound enough) ?_
  rintro found reached ⟨held, token, seen, rfl⟩
  have shorter := held.keeps.onward
  refine Ends.ite (fun same => ?_) fun _ => ?_
  · refine (take_ends held.sound seen (same ▸ more)).bind held ?_
    rintro result after held - ⟨-, less, -⟩
    exact makes_pure (held.weaken (by simp +contextual)) fun _ => by omega
  · exact makes_pure held.forget nofun

theorem accept_ends (calls : Meets tables limit) (sound : state.Sound tables.stoppable)
    (enough : 8 * state.measure < limit) {kind : TokenKind} (more : kind ≠ .endOfInput) :
    Makes tables (accept kind) state fun found after =>
      found = true → state.Past after := by
  refine Ends.bind (accept?_ends calls sound enough more) ?_
  rintro result after ⟨made, less⟩
  exact makes_pure made.forget less

theorem Ends.spanSince_bind {β : Type} {start : Nat} {next : Span → Parse β}
    {goal : β → State → Prop} (ends : ∀ span, Ends tables (next span) state goal) :
    Ends tables (spanSince start >>= next) state goal :=
  ends ⟨start, state.previousStop⟩

/-! ### Small rules -/

theorem expectWhere_ends (calls : Meets tables limit) (sound : state.Sound tables.stoppable)
    (enough : 8 * state.measure < limit) {wanted : TokenKind → Bool} (what : String)
    (more : wanted .endOfInput = false) :
    Makes tables (expectWhere wanted what) state fun _ after =>
      ¬after.Sees .variableInterpolation := by
  refine Ends.bind (peekToken_ends calls sound enough) ?_
  rintro token reached ⟨held, seen, -⟩
  refine Ends.ite (fun found => ?_) fun _ => ?_
  · have kind : token.kind ≠ .endOfInput := by
      intro ended
      rw [ended, more] at found
      cases found
    refine (skip_ends held.sound ⟨token, seen, kind⟩).bind held ?_
    rintro _ after held - ⟨-, unseen, -⟩
    exact makes_pure held.forget (State.not_sees unseen _)
  · refine Ends.lift_bind (Scan.unexpected_builds held _ _) ?_
    rintro _ reported ⟨held, still, -⟩
    have seen := still.lookahead.trans seen
    refine Ends.when (fun reached => Held tables.stoppable state [] reached ∧
      ¬reached.Sees .variableInterpolation) (fun passed => ?_) (fun stays => ?_)
      fun after done => makes_pure done.1 done.2
    · have kind : token.kind ≠ .endOfInput := by
        intro ended
        rw [ended] at passed
        exact absurd passed (by decide)
      exact Ends.mono ((skip_ends held.sound ⟨token, seen, kind⟩).extends held)
        fun _ _ made => ⟨made.1.forget, State.not_sees made.2.2.2.1 _⟩
    · refine ⟨held.forget, ?_⟩
      rintro ⟨other, ahead, kind⟩
      rw [seen] at ahead
      cases ahead
      rw [kind] at stays
      exact stays (by decide)

theorem expect_ends (calls : Meets tables limit) (sound : state.Sound tables.stoppable)
    (enough : 8 * state.measure < limit) {kind : TokenKind} (more : kind ≠ .endOfInput) :
    Makes tables (expect kind) state fun _ _ => True :=
  (expectWhere_ends calls sound enough _ (decide_eq_false (Ne.symm more))).mono
    fun _ _ _ _ => trivial

theorem expectEnd_ends (calls : Meets tables limit) (sound : state.Sound tables.stoppable)
    (enough : 8 * state.measure < limit) :
    Makes tables expectEnd state fun _ _ => True :=
  expect_ends calls sound enough nofun

theorem skipTurn_ends (calls : Meets tables limit)
    (held : Held tables.stoppable base [] state) (enough : 8 * state.measure < limit)
    {skipped : TokenKind → Bool} (more : skipped .endOfInput = false) :
    Ends tables (skipTurn skipped) state (Turned
      (fun _ after => Held tables.stoppable base [] after)
      (fun _ after => Held tables.stoppable base [] after ∧
        ∃ token, after.lookahead = some token ∧ skipped token.kind = false) state) := by
  refine (peekKind_ends calls held.sound enough).bind held ?_
  rintro _ peeked held made ⟨token, seen, rfl⟩
  have before := made.keeps.onward
  refine Ends.ite (fun passed => ?_) fun stops => ?_
  · have kind : token.kind ≠ .endOfInput := by
      intro ended
      rw [ended, more] at passed
      cases passed
    refine (skip_ends held.sound ⟨token, seen, kind⟩).bind held ?_
    rintro _ after held - ⟨past, -⟩
    exact ends_pure ⟨held.forget, by omega⟩
  · exact ends_pure ⟨held.forget, token, seen, Bool.not_eq_true _ ▸ stops⟩

theorem skipWhile_ends (calls : Meets tables limit) (sound : state.Sound tables.stoppable)
    (enough : 8 * state.measure < limit) {skipped : TokenKind → Bool}
    (more : skipped .endOfInput = false) :
    Makes tables (skipWhile skipped) state fun _ after =>
      (∀ token, state.lookahead = some token → skipped token.kind = true →
        state.Past after) ∧
        ∃ token, after.lookahead = some token ∧ skipped token.kind = false := by
  refine Ends.mono (loop_ends _ sound (Held.refl sound) fun _ _ held onward =>
    skipTurn_ends calls held (by omega) more) ?_
  rintro _ after ⟨held, token, seen, stops⟩
  refine ⟨held, fun other ahead passed => ?_, token, seen, stops⟩
  rcases held.keeps.progress other ahead with past | kept
  · exact past
  · rw [seen] at kept
    cases kept
    rw [passed] at stops
    cases stops

theorem skipNewlines_ends (calls : Meets tables limit) (sound : state.Sound tables.stoppable)
    (enough : 8 * state.measure < limit) :
    Makes tables skipNewlines state fun _ _ => True :=
  (skipWhile_ends calls sound enough (by decide)).mono fun _ _ _ _ => trivial

theorem skipTerminators_ends (calls : Meets tables limit)
    (sound : state.Sound tables.stoppable) (enough : 8 * state.measure < limit) :
    Makes tables skipTerminators state fun _ after =>
      ∃ token, after.lookahead = some token ∧ token.kind.isTerminator = false :=
  (skipWhile_ends calls sound enough (by decide)).mono fun _ _ _ done => done.2

theorem separatorTurn_ends (calls : Meets tables limit)
    (held : Held tables.stoppable base [] state) (enough : 8 * state.measure < limit)
    (word : Keyword) (separated : Bool) :
    Ends tables (separatorTurn word separated) state
      (TurnHeld tables.stoppable base state) := by
  refine (peekToken_ends calls held.sound enough).bind held ?_
  rintro token peeked held made ⟨seen, -⟩
  have before := made.keeps.onward
  refine Ends.ite (fun passed => ?_) fun _ => Ends.ite (fun same => ?_) fun _ => ?_
  · have kind : token.kind ≠ .endOfInput := by
      intro ended
      rw [ended] at passed
      cases passed
    refine (skip_ends held.sound ⟨token, seen, kind⟩).bind held ?_
    rintro _ after held - ⟨past, -⟩
    exact ends_pure ⟨held.forget, by omega⟩
  · refine (skip_ends held.sound ⟨token, seen, by simp [same]⟩).bind held ?_
    rintro _ after held - -
    exact ends_pure held.forget
  · refine Ends.when (Held tables.stoppable base []) (fun _ => ?_)
      (fun _ => held.forget) fun after held => ends_pure held
    exact (ends_lift (Scan.unexpected_builds held _ _)).mono fun _ _ built =>
      built.1.forget

theorem skipSeparator_ends (calls : Meets tables limit) (sound : state.Sound tables.stoppable)
    (enough : 8 * state.measure < limit) (word : Keyword) :
    Makes tables (skipSeparator word) state fun _ _ => True :=
  loop_makes sound rfl fun separated _ held onward =>
    separatorTurn_ends calls held (by omega) word separated

theorem commaTurn_ends (calls : Meets tables limit) {rank : Nat} {item : Parse NodeId}
    {items : Array NodeId} (held : Held tables.stoppable base (handlesOf items) state)
    (enough : 8 * state.measure + rank < limit)
    (makes : ∀ state, state.Sound tables.stoppable → 8 * state.measure + rank < limit →
      Makes tables item state fun _ _ => True) (breakable : Bool) :
    Ends tables (commaTurn item breakable items) state
      (TurnHeld tables.stoppable base state) := by
  refine (makes state held.sound enough).bind held ?_
  rintro id reached held made -
  have before := made.keeps.onward
  dsimp only
  refine (accept_ends calls held.sound (by omega) (by simp)).bind held ?_
  rintro found accepted held made past
  have grown : Held tables.stoppable base (handlesOf (items.push id)) accepted :=
    held.weaken (by simp [or_comm])
  refine Ends.ite (fun again => ?_) fun _ => ends_pure grown
  have past := past again
  refine Ends.when (fun after => Held tables.stoppable base (handlesOf (items.push id)) after ∧
    accepted.Onward after) (fun _ => ?_) (fun _ => ⟨grown, .refl _⟩) ?_
  · exact Ends.mono ((skipNewlines_ends calls held.sound (by omega)).extends grown)
      fun _ _ made => ⟨made.1, made.2.1⟩
  · rintro after ⟨held, onward⟩
    exact ends_pure ⟨held, by omega⟩

theorem commaList_ends (calls : Meets tables limit) (sound : state.Sound tables.stoppable)
    {rank : Nat} (enough : 8 * state.measure + rank < limit) {item : Parse NodeId}
    (makes : ∀ state, state.Sound tables.stoppable → 8 * state.measure + rank < limit →
      Makes tables item state fun _ _ => True) (breakable : Bool) :
    Makes tables (commaList item breakable) state fun _ _ => True :=
  Ends.bind (loop_makes sound rfl fun _ _ held onward =>
    commaTurn_ends calls held (by omega) makes breakable) fun _ _ made =>
      makes_pure made.1 trivial

theorem sequence_ends (held : Held tables.stoppable base handles state) {items : List NodeId}
    (mine : ∀ id ∈ items, .node id ∈ handles) (span : Span) :
    Ends tables (sequence items span) state fun result after =>
      Held tables.stoppable base (handlesOf result ++ handles) after ∧ Still state after ∧
        ((∀ id ∈ items, state.arena.Rooted id) → RootedIfAny result after) := by
  unfold sequence
  split
  · exact ends_pure ⟨held, Still.refl state, fun _ => by rintro _ ⟨⟩⟩
  · next item =>
      refine ends_pure ⟨held.weaken ?_, Still.refl state, fun rooted => ?_⟩
      · simpa using mine
      · rintro _ ⟨⟩
        exact rooted item (List.mem_singleton_self item)
  · refine Ends.lift_bind (Scan.alloc_ends held ?_ span) fun id after built => ?_
    · simpa [handlesOf, Shape.children, Shape.called] using mine
    · refine ends_pure ⟨?_, built.2.1, fun _ => ?_⟩
      · simpa using built.1
      · rintro _ ⟨⟩
        exact built.2.2

/-- A step one level deeper. What is said of its end does not depend on the
level. -/
theorem deeper_ends [HasHandles α] {step : Parse α} (position : Nat)
    (held : Held tables.stoppable base handles state)
    (post : α → State → Prop)
    (level : ∀ result after depth, post result after → post result { after with depth })
    (ends : ∀ deep, Held tables.stoppable base handles deep → Still state deep →
      deep.arena = state.arena →
      Ends tables step deep fun result after =>
        Held tables.stoppable base (handlesOf result ++ handles) after ∧ post result after) :
    Ends tables (deeper position step) state fun result after =>
      Held tables.stoppable base (handlesOf result ++ handles) after ∧ post result after := by
  have shallow {state : State} {handles : List Handle}
      (held : Held tables.stoppable base handles state) (depth : Nat) :
      Held tables.stoppable base handles { state with depth } :=
    held.next (held.sound.silent ⟨rfl, rfl, rfl, rfl, rfl, rfl, rfl, rfl, Nat.le_refl _⟩)
  refine Ends.get_bind (Ends.ite (fun _ => ends_lift (Scan.ends_fail held.sound.reads.map)) fun _ => ?_)
  refine Ends.modify_bind (Ends.bind (ends _ (shallow held _) ⟨rfl, rfl, rfl⟩ rfl) ?_)
  rintro result after ⟨held, holds⟩
  exact Ends.modify_bind (ends_pure ⟨shallow held _, level _ _ _ holds⟩)

end Parse

end RubySyntax

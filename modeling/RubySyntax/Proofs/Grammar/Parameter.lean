/-
Formal parameters.
-/

import RubySyntax.Proofs.Grammar.Argument
import RubySyntax.Grammar.Parameter

namespace RubySyntax

instance : HasHandles ParameterStage := ⟨fun _ => []⟩
instance : HasHandles (Parameters NodeId) := ⟨fun list => handlesOf list.children⟩
instance : HasHandles Parse.ParameterProgress := ⟨fun progress => handlesOf progress.list⟩
instance : HasHandles Parse.PatternList :=
  ⟨fun list => handlesOf list.before ++ (handlesOf list.rest ++ handlesOf list.after)⟩

@[simp] theorem handlesOf_stage (stage : ParameterStage) : handlesOf stage = [] := rfl
@[simp] theorem handlesOf_progress (progress : Parse.ParameterProgress) :
    handlesOf progress = handlesOf progress.list := rfl

theorem handlesOf_patternList (list : Parse.PatternList) :
    handlesOf list =
      handlesOf list.before ++ (handlesOf list.rest ++ handlesOf list.after) := rfl

@[simp] theorem forall_handlesOf_parameters {list : Parameters NodeId}
    {holds : Handle → Prop} :
    (∀ handle ∈ handlesOf list, holds handle) ↔ ∀ id ∈ list.children, holds (.node id) :=
  forall_handlesOf_list

@[simp] theorem node_mem_parameters {id : NodeId} {list : Parameters NodeId} :
    .node id ∈ handlesOf list ↔ id ∈ list.children :=
  node_mem_list

theorem Parameters.mem_children_add {list : Parameters NodeId} {stage : ParameterStage}
    {item id : NodeId} (member : id ∈ (list.add stage item).children) :
    id ∈ list.children ∨ id = item := by
  cases stage <;> simp [Parameters.add, Parameters.children] at member ⊢ <;> tauto

namespace Parse

variable {tables : Tables} {limit : Nat} {base state : State} {handles : List Handle}

theorem declareParameter_ends (held : Held tables.stoppable base handles state) {name : Symbol}
    (known : .name name ∈ handles) (span : Span) :
    Ends tables (declareParameter name span) state fun _ after =>
      Held tables.stoppable base handles after ∧ Still state after := by
  have declares {reached : State} (held : Held tables.stoppable base handles reached)
      (still : Still state reached) :
      Ends tables (liftM (Scan.declare name)) reached fun _ after =>
        Held tables.stoppable base handles after ∧ Still state after :=
    (ends_lift (Scan.declare_builds held name)).mono fun _ _ built =>
      ⟨built.1, still.trans built.2.1⟩
  refine Ends.get_bind (Ends.ite (fun _ => ?_) fun _ => declares held (Still.refl state))
  refine Ends.look_bind (Scan.nameOf_looks (held.known known)) fun written _ => ?_
  refine Ends.ite (fun _ => ?_) fun _ => declares held (Still.refl state)
  refine Ends.lift_bind (Scan.report_builds held span _) ?_
  rintro _ reported ⟨held, still, -⟩
  exact declares held still

theorem parameterName?_ends (calls : Meets tables limit) (sound : state.Sound tables.stoppable)
    (enough : 8 * state.measure < limit) :
    Makes tables parameterName? state fun _ _ => True := by
  refine Ends.bind (peekToken_ends calls sound enough) ?_
  rintro token peeked ⟨held, seen, -⟩
  dsimp only
  split
  · next name kind =>
      refine (skip_ends held.sound ⟨token, seen, by simp [kind]⟩).bind held ?_
      rintro _ skipped held - -
      have known : .name name ∈ handlesOf () ++ handlesOf token := by simp [handlesOf, kind,
        TokenKind.names]
      refine Ends.bind (declareParameter_ends held known token.span) ?_
      rintro _ after ⟨held, -⟩
      exact makes_pure (held.weaken (by simpa using known)) trivial
  · exact makes_pure held.forget trivial

theorem restParameter_ends (calls : Meets tables limit) (sound : state.Sound tables.stoppable)
    (ahead : state.AtToken) (enough : 8 * state.measure ≤ limit) (form : RestForm) :
    Makes tables (restParameter form) state fun _ after => state.Past after := by
  obtain ⟨token, seen, more⟩ := ahead
  refine Ends.bind (take_ends sound seen more) ?_
  rintro mark taken ⟨held, -, less, -⟩
  refine (parameterName?_ends calls held.sound (by omega)).bind held ?_
  rintro name reached held made -
  have shorter := made.keeps.onward
  refine Ends.spanSince_bind fun span => ?_
  exact (extends_lift (Scan.alloc_ends held (by simp) span)).makes fun _ _ le _ => by omega

theorem defaultValue_ends (calls : Meets tables limit) (sound : state.Sound tables.stoppable)
    (enough : 8 * state.measure + 5 < limit) (stop : ParametersEnd) :
    Makes tables (defaultValue stop) state fun _ _ => True := by
  refine Ends.ite (fun _ => ?_) fun _ => argumentValue_ends calls sound enough
  refine Ends.bind (calls.chain state sound (by omega)) ?_
  rintro operand reached ⟨held, read⟩
  exact (extends_lift (Scan.nodeOf_builds held (fun _ => id) read.rooted)).makes
    fun _ _ _ _ => trivial

theorem namedParameter_ends (calls : Meets tables limit)
    (held : Held tables.stoppable base handles state) (ahead : state.AtToken)
    (enough : 8 * state.measure ≤ limit) {name : Symbol} (known : .name name ∈ handles)
    (stop : ParametersEnd) (reached : ParameterStage) :
    Extends tables base handles (namedParameter stop reached name) state fun _ after =>
      state.Past after := by
  obtain ⟨token, seen, more⟩ := ahead
  refine (take_ends held.sound seen more).bind held ?_
  rintro mark taken held - ⟨-, less, -⟩
  refine Ends.bind (declareParameter_ends held (by simp [known]) mark.span) ?_
  rintro _ declared ⟨held, still⟩
  have calm := still.calm
  refine (accept_ends calls held.sound (by omega) (by simp)).bind held ?_
  rintro found accepted held made -
  have shorter := made.keeps.onward
  refine Ends.ite (fun _ => ?_) fun _ => ?_
  · refine (defaultValue_ends calls held.sound (by omega) stop).bind held ?_
    rintro default valued held made -
    have later := made.keeps.onward
    refine Ends.look_bind (Scan.spanOf_looks (held.live (by simp))) fun span _ => ?_
    refine Ends.lift_bind (Scan.alloc_ends held (by simp) _) ?_
    rintro id after ⟨held, quiet, -⟩
    have silent := quiet.calm
    exact ends_pure ⟨held.weaken (by simp +contextual), by omega, by omega⟩
  · refine Ends.lift_bind (Scan.alloc_ends held (by simp) _) ?_
    rintro id after ⟨held, quiet, -⟩
    have silent := quiet.calm
    exact ends_pure ⟨held.weaken (by simp +contextual), by omega, by omega⟩

theorem keywordParameter_ends (calls : Meets tables limit)
    (held : Held tables.stoppable base handles state) (ahead : state.AtToken)
    (enough : 8 * state.measure ≤ limit) {name : Symbol} (known : .name name ∈ handles)
    (stop : ParametersEnd) :
    Extends tables base handles (keywordParameter stop name) state fun _ after =>
      state.Past after := by
  obtain ⟨token, seen, more⟩ := ahead
  refine (take_ends held.sound seen more).bind held ?_
  rintro label taken held - ⟨-, less, -⟩
  refine Ends.bind (declareParameter_ends held (by simp [known]) label.span) ?_
  rintro _ declared ⟨held, still⟩
  have calm := still.calm
  refine (peekKind_ends calls held.sound (by omega)).bind held ?_
  rintro kind peeked held made -
  have shorter := made.keeps.onward
  refine Ends.value_or_made (fun default reached =>
    Held tables.stoppable base (handlesOf default ++ handles) reached ∧
      state.Past reached) (fun _ => ?_) (fun _ => ?_) ?_
  · exact ⟨held.weaken (by simp +contextual), by omega⟩
  · refine ((defaultValue_ends calls held.sound (by omega) stop).extends held).mono ?_
    rintro default reached ⟨held, le, -⟩
    exact ⟨held.weaken (by simp +contextual), by omega⟩
  · rintro default reached ⟨held, less⟩
    refine Ends.spanSince_bind fun span => ?_
    exact (extends_lift (Scan.alloc_ends held (by simp +contextual) span)).since (by omega)
      (by simp +contextual) fun _ _ _ _ => by omega

theorem blockParameter_ends (calls : Meets tables limit) (sound : state.Sound tables.stoppable)
    (ahead : state.AtToken) (enough : 8 * state.measure ≤ limit) :
    Makes tables blockParameter state fun _ after => state.Past after := by
  obtain ⟨token, seen, more⟩ := ahead
  refine Ends.bind (take_ends sound seen more) ?_
  rintro mark taken ⟨held, -, less, -⟩
  refine (parameterName?_ends calls held.sound (by omega)).bind held ?_
  rintro name? named held made -
  have shorter := made.keeps.onward
  have store {handles : List Handle} {reached : State} (name : Symbol)
      (held : Held tables.stoppable state handles reached)
      (le : state.Past reached) :
      Ends tables
        (do
          let span ← spanSince mark.span.start
          liftM (Scan.alloc (.named .blockParameter name) span)) reached fun id after =>
        Held tables.stoppable state (handlesOf id) after ∧ state.Past after :=
    Ends.spanSince_bind fun span =>
      (extends_lift (Scan.alloc_ends held (by simp) span)).makes fun _ _ le _ => by omega
  cases name? with
  | some name => exact store name held (by omega)
  | none =>
      refine (peekToken_ends calls held.sound (by omega)).bind held ?_
      rintro token peeked held made -
      have later := made.keeps.onward
      refine Ends.lift_bind (Scan.unexpected_builds held token _) ?_
      rintro _ reported ⟨held, still, -⟩
      have calm := still.calm
      refine Ends.lift_bind (Scan.intern_builds held _) ?_
      rintro name interned ⟨held, quiet, -⟩
      have silent := quiet.calm
      exact store name held (by omega)

/-! ### Parameters that are taken apart -/

theorem patternItem_ends (calls : Meets tables limit)
    (held : Held tables.stoppable base handles state) (enough : 8 * state.measure + 1 < limit)
    {list : PatternList} (mine : ∀ handle ∈ handlesOf list, handle ∈ handles) :
    Extends tables base handles (patternItem list) state fun _ _ => True := by
  refine (peekToken_ends calls held.sound (by omega)).bind held ?_
  rintro token peeked held made ⟨seen, -⟩
  have shorter := made.keeps.onward
  have own : ∀ handle ∈ handlesOf list, handle ∈ handlesOf token ++ handles :=
    fun handle member => List.mem_append_right _ (mine handle member)
  have pushed {more : List Handle} {reached : State} {item : NodeId}
      (held : Held tables.stoppable base more reached) (given : .node item ∈ more)
      (fewer : ∀ handle ∈ handles, handle ∈ more) :
      Held tables.stoppable base (handlesOf (if list.rest.isSome = true then
          PatternList.mk list.before list.rest (list.after ++ [item])
        else PatternList.mk (list.before ++ [item]) list.rest list.after) ++ handles)
        reached := by
    refine held.weaken fun handle member => ?_
    rcases List.mem_append.mp member with new | old
    · have known : handle ∈ handlesOf list ∨ handle = .node item := by
        split at new
        all_goals
          simp only [handlesOf_patternList, handlesOf_append, handlesOf_cons, handlesOf_node,
            handlesOf_nil, List.mem_append, List.mem_singleton, List.not_mem_nil,
            or_false] at new ⊢
          tauto
      rcases known with before | rfl
      · exact fewer handle (mine handle before)
      · exact given
    · exact fewer handle old
  dsimp only
  split
  case h_1 name kind =>
    refine (skip_ends held.sound ⟨token, seen, by simp [kind]⟩).bind held ?_
    rintro _ skipped held - ⟨less, -⟩
    have known : .name name ∈ handlesOf () ++ (handlesOf token ++ handles) := by
      simp [handlesOf, kind, TokenKind.names]
    refine Ends.bind (declareParameter_ends held known token.span) ?_
    rintro _ declared ⟨held, still⟩
    have calm := still.calm
    refine Ends.lift_bind (Scan.alloc_ends held (by simp) token.span) ?_
    rintro id after ⟨held, quiet, -⟩
    have silent := quiet.calm
    refine ends_pure ⟨?_, by omega, trivial⟩
    simpa using pushed held (by simp) (by simp +contextual)
  case h_2 kind | h_3 kind | h_4 kind =>
    have ahead : peeked.AtToken := ⟨token, seen, by simp [kind]⟩
    refine Ends.bind (deeper_ends _ held (fun _ after => peeked.Onward after)
      (fun _ _ _ onward => onward) ?_) ?_
    · intro deep held still _
      have calm := still.calm
      refine ((calls.pattern deep held.sound (still.atToken ahead) (by omega)).extends held).mono
        ?_
      rintro item after ⟨held, le, -⟩
      exact ⟨held, by omega⟩
    rintro item after ⟨held, le⟩
    refine ends_pure ⟨?_, by omega, trivial⟩
    simpa using pushed held (by simp) (by simp +contextual)
  case h_5 kind | h_6 kind =>
    refine (restParameter_ends calls held.sound ⟨token, seen, by simp [kind]⟩ (by omega)
      .positional).bind held ?_
    rintro splat read held - less
    have finish {reached : State} (still : Still read reached)
        (held : Held tables.stoppable base (handlesOf splat ++ (handlesOf token ++ handles))
          reached) :
        Ends tables (pure (PatternList.mk list.before (some splat) list.after, true)) reached
          fun result after => Held tables.stoppable base (handlesOf result ++ handles) after ∧
            state.Onward after ∧ True := by
      have calm := still.calm
      refine ends_pure ⟨held.weaken fun handle member => ?_, by omega, trivial⟩
      simp only [handlesOf_pair, handlesOf_patternList, handlesOf_some, handlesOf_bool,
        List.append_nil, List.mem_append] at mine member ⊢
      rcases member with (before | rest | after) | old
      · exact .inr (.inr (mine handle (.inl before)))
      · exact .inl rest
      · exact .inr (.inr (mine handle (.inr (.inr after))))
      · exact .inr (.inr old)
    refine Ends.ite (fun _ => ?_) fun _ => finish (Still.refl read) held
    refine Ends.lift_bind (Scan.unexpected_builds held token none) ?_
    rintro _ reported ⟨held, still, -⟩
    exact finish still held
  case h_7 =>
    refine Ends.lift_bind (Scan.unexpected_builds held token _) ?_
    rintro _ reported ⟨held, still, -⟩
    have calm := still.calm
    refine ends_pure ⟨held.weaken fun handle member => ?_, by omega, trivial⟩
    rcases List.mem_append.mp member with listed | old
    · rw [handlesOf_pair, handlesOf_bool, List.append_nil] at listed
      exact own handle listed
    · simp [old]

theorem patternTurn_ends (calls : Meets tables limit) {list : PatternList}
    (held : Held tables.stoppable base (handlesOf list) state)
    (enough : 8 * state.measure + 5 < limit) :
    Ends tables (patternTurn list) state (TurnHeld tables.stoppable base state) := by
  refine Ends.bind (patternItem_ends calls held (by omega) fun _ => id) ?_
  rintro ⟨list, more⟩ read ⟨held, onward, -⟩
  refine Ends.ite (fun _ => ends_pure (held.weaken (by simp +contextual))) fun _ => ?_
  refine (accept_ends calls held.sound (by omega) (by simp)).bind held ?_
  rintro found accepted held made past
  refine Ends.ite (fun found => ?_) fun _ => ends_pure (held.weaken (by simp +contextual))
  have past := past found
  exact ends_pure ⟨held.weaken (by simp +contextual), by omega⟩

theorem pattern_ends (calls : Meets tables limit) (sound : state.Sound tables.stoppable)
    (ahead : state.AtToken) (enough : 8 * state.measure ≤ limit) :
    Makes tables pattern state fun _ after => state.Past after := by
  obtain ⟨token, seen, more⟩ := ahead
  refine Ends.bind (take_ends sound seen more) ?_
  rintro opening taken ⟨held, -, past, -⟩
  refine Makes.bind (loop_makes held.sound rfl fun _ _ held onward =>
    patternTurn_ends calls held (by omega)) held.forget ?_
  rintro list read held made -
  have onward := made.keeps.onward
  refine (expect_ends calls held.sound (by omega) (by simp)).bind held ?_
  rintro close closed held made -
  have shorter := made.keeps.onward
  refine (extends_lift (Scan.alloc_ends held ?_ _)).makes fun _ _ le _ => by omega
  simp +contextual [handlesOf_patternList]

/-! ### Lists of parameters -/

theorem parameter?_ends (calls : Meets tables limit) (sound : state.Sound tables.stoppable)
    {token : Token} (seen : state.lookahead = some token) (enough : 8 * state.measure < limit)
    (stop : ParametersEnd) (reached : ParameterStage) :
    Makes tables (parameter? stop reached) state fun result after =>
      if result.isSome then state.Past after else after = state := by
  have held := sound.ahead_held seen
  refine Ends.bind (peekKind_again seen) ?_
  rintro _ _ ⟨rfl, rfl⟩
  dsimp only
  split
  case h_1 name kind =>
    refine Ends.bind (namedParameter_ends calls held ⟨token, seen, by simp [kind]⟩
      (by omega) (by simp [handlesOf, kind, TokenKind.names]) stop reached) ?_
    rintro ⟨id, stage⟩ after ⟨held, -, less⟩
    exact makes_pure (held.weaken (by simp +contextual)) less
  case h_2 name kind =>
    refine Ends.bind (keywordParameter_ends calls held ⟨token, seen, by simp [kind]⟩
      (by omega) (by simp [handlesOf, kind, TokenKind.names]) stop) ?_
    rintro id after ⟨held, -, less⟩
    exact makes_pure (held.weaken (by simp +contextual)) less
  case h_3 kind | h_4 kind | h_5 kind | h_6 kind =>
    refine (restParameter_ends calls held.sound ⟨token, seen, by simp [kind]⟩ (by omega)
      _).bind held ?_
    rintro id after held - less
    exact makes_pure (held.weaken (by simp +contextual)) less
  case h_7 kind | h_8 kind =>
    refine (blockParameter_ends calls held.sound ⟨token, seen, by simp [kind]⟩
      (by omega)).bind held ?_
    rintro id after held - less
    exact makes_pure (held.weaken (by simp +contextual)) less
  case h_9 kind | h_10 kind | h_11 kind =>
    refine (pattern_ends calls held.sound ⟨token, seen, by simp [kind]⟩ (by omega)).bind
      held ?_
    rintro id after held - less
    exact makes_pure (held.weaken (by simp +contextual)) less
  case h_12 => exact makes_pure held.forget rfl

theorem addParameter_ends (held : Held tables.stoppable base handles state)
    {progress : ParameterProgress} {node : NodeId}
    (mine : ∀ handle ∈ handlesOf progress, handle ∈ handles) (given : .node node ∈ handles)
    (stage : ParameterStage) :
    Extends tables base handles (addParameter progress node stage) state fun _ _ => True := by
  have finish {reached : State} (held : Held tables.stoppable base handles reached)
      (still : Still state reached) :
      Ends tables (pure (ParameterProgress.mk (progress.list.add stage node)
        (progress.reached.later stage))) reached fun result after =>
        Held tables.stoppable base (handlesOf result ++ handles) after ∧
          state.Onward after ∧ True := by
    refine ends_pure ⟨held.weaken ?_, still.onward, trivial⟩
    simp only [handlesOf_progress, List.mem_append, or_imp, forall_and,
      forall_handlesOf_parameters] at mine ⊢
    refine ⟨fun id member => ?_, fun _ => id⟩
    rcases Parameters.mem_children_add member with old | rfl
    · exact mine id old
    · exact given
  refine Ends.ite (fun _ => ?_) fun _ => finish held (Still.refl state)
  refine Ends.look_bind (Scan.spanOf_looks (held.live given)) fun span _ => ?_
  refine Ends.lift_bind (Scan.report_builds held span _) ?_
  rintro _ reported ⟨held, still, -⟩
  exact finish held still

theorem afterParameter_ends (calls : Meets tables limit)
    (held : Held tables.stoppable base handles state) (enough : 8 * state.measure < limit)
    {progress : ParameterProgress} (mine : ∀ handle ∈ handlesOf progress, handle ∈ handles)
    (stop : ParametersEnd) :
    Ends tables (afterParameter stop progress) state fun result after =>
      state.Onward after ∧
        match result with
        | .again progress => Held tables.stoppable base (handlesOf progress) after
        | .done list => Held tables.stoppable base (handlesOf list) after := by
  refine (accept_ends calls held.sound enough (by simp)).bind held ?_
  rintro found accepted held made -
  have shorter := made.keeps.onward
  refine Ends.ite (fun _ => ends_pure ⟨shorter, held.weaken mine⟩) fun _ => ?_
  refine Ends.ite (fun _ => ?_) fun _ => ends_pure ⟨shorter, held.weaken mine⟩
  refine (peekKind_ends calls held.sound (by omega)).bind held ?_
  rintro kind peeked held made -
  have later := made.keeps.onward
  refine Ends.ite (fun absent => ?_) fun _ => ?_
  · refine Ends.get_bind (Ends.lift_bind (Scan.alloc_ends held (by simp) _) ?_)
    rintro rest stored ⟨held, still, -⟩
    have calm := still.calm
    refine ends_pure ⟨by omega, held.weaken ?_⟩
    simp only [handlesOf_progress, forall_handlesOf_parameters] at mine ⊢
    intro id member
    change id ∈ (progress.list.add .rest rest).children at member
    rcases Parameters.mem_children_add member with old | rfl
    · simp [mine id old]
    · simp
  · exact ends_pure ⟨by omega, held.weaken fun handle member => by simp [mine handle member]⟩

theorem parameterTurn_ends (calls : Meets tables limit) {progress : ParameterProgress}
    (held : Held tables.stoppable base (handlesOf progress) state)
    (enough : 8 * state.measure < limit) (stop : ParametersEnd) :
    Ends tables (parameterTurn stop progress) state
      (TurnHeld tables.stoppable base state) := by
  unfold parameterTurn
  refine Ends.when (fun reached => Held tables.stoppable base (handlesOf progress) reached ∧
    state.Onward reached) (fun _ => ?_) (fun _ => ⟨held, .refl _⟩) ?_
  · exact Ends.mono ((skipNewlines_ends calls held.sound (by omega)).extends held)
      fun _ _ made => ⟨made.1, made.2.1⟩
  rintro ready ⟨held, onward⟩
  refine (peekToken_ends calls held.sound (by omega)).bind held ?_
  rintro token peeked held made ⟨seen, -⟩
  have later := made.keeps.onward
  refine Ends.ite (fun _ => ends_pure (held.weaken (by simp +contextual))) fun inside => ?_
  refine (parameter?_ends calls held.sound seen (by omega) stop progress.reached).bind held ?_
  rintro result? read held made outcome
  cases result? with
  | none =>
      obtain rfl : read = peeked := outcome
      have more : token.kind ≠ .endOfInput := by
        intro ended
        rw [ended] at inside
        exact inside rfl
      refine Ends.lift_bind (Scan.unexpected_builds held token none) ?_
      rintro _ reported ⟨held, still, -⟩
      refine (skip_ends held.sound ⟨token, still.lookahead.trans seen, more⟩).bind held ?_
      rintro _ skipped held - -
      exact ends_pure (held.weaken (by simp +contextual))
  | some parameter =>
      obtain ⟨node, stage⟩ := parameter
      have past : peeked.Past read := outcome
      refine Ends.bind (addParameter_ends held (by simp +contextual) (by simp) stage) ?_
      rintro progress added ⟨held, same, -⟩
      refine (afterParameter_ends calls held (by omega) (by simp +contextual) stop).mono ?_
      rintro (progress | list) after ⟨last, held⟩
      · exact ⟨held, by omega⟩
      · exact held

theorem parameters_ends (calls : Meets tables limit) (sound : state.Sound tables.stoppable)
    (enough : 8 * state.measure < limit) (stop : ParametersEnd) :
    Makes tables (parameters stop) state fun _ _ => True := by
  refine Ends.bind (peekToken_ends calls sound enough) ?_
  rintro first started ⟨held, -⟩
  have shorter := held.keeps.onward
  refine Makes.bind (loop_makes held.sound rfl fun _ _ held onward =>
    parameterTurn_ends calls held (by omega) stop) held.forget ?_
  rintro list read held made -
  have later := made.keeps.onward
  have listed : Held tables.stoppable state (handlesOf list) read := held.weaken (by simp)
  refine Ends.when (fun after => Held tables.stoppable state (handlesOf list) after)
    (fun _ => ?_) (fun _ => listed) fun after held => ?_
  · exact Ends.mono ((skipNewlines_ends calls held.sound (by omega)).extends listed)
      fun _ _ made => made.1
  · refine Ends.ite (fun _ => makes_pure held.forget trivial) fun _ => ?_
    refine Ends.spanSince_bind fun span => ?_
    refine Ends.lift_bind (Scan.alloc_ends held (by simp +contextual) span) ?_
    rintro id stored ⟨held, -⟩
    exact makes_pure (held.weaken (by simp)) trivial

theorem parenthesizedParameters_ends (calls : Meets tables limit)
    (sound : state.Sound tables.stoppable) (ahead : state.AtToken)
    (enough : 8 * state.measure ≤ limit) :
    Makes tables parenthesizedParameters state fun _ _ => True := by
  refine Ends.bind (skip_ends sound ahead) ?_
  rintro _ skipped ⟨held, less, -⟩
  refine (parameters_ends calls held.sound (by omega) .parenthesis).bind held ?_
  rintro list read held made -
  have shorter := made.keeps.onward
  refine (expect_ends calls held.sound (by omega) (by simp)).bind held ?_
  rintro close after held - -
  exact makes_pure (held.weaken (by simp +contextual)) trivial

theorem blockLocalTurn_ends (calls : Meets tables limit)
    (held : Held tables.stoppable base [] state) (enough : 8 * state.measure < limit) :
    Ends tables blockLocalTurn state (TurnHeld tables.stoppable base state) := by
  refine (peekToken_ends calls held.sound (by omega)).bind held ?_
  rintro token peeked held made ⟨seen, -⟩
  have before := made.keeps.onward
  split
  · next name kind =>
      refine (skip_ends held.sound ⟨token, seen, by simp [kind]⟩).bind held ?_
      rintro _ skipped held - ⟨less, -⟩
      refine Ends.bind (declareParameter_ends held (by simp [handlesOf, kind, TokenKind.names])
        token.span) ?_
      rintro _ declared ⟨held, still⟩
      have calm := still.calm
      refine (accept_ends calls held.sound (by omega) (by simp)).bind held ?_
      rintro found accepted held made -
      have later := made.keeps.onward
      refine Ends.ite (fun _ => ?_) fun _ => ?_
      · exact ends_pure ⟨held.forget, by omega⟩
      · exact ends_pure held.forget
  · refine Ends.lift_bind (Scan.unexpected_builds held token _) ?_
    rintro _ reported ⟨held, -⟩
    exact ends_pure held.forget

theorem blockLocals_ends (calls : Meets tables limit) (sound : state.Sound tables.stoppable)
    (enough : 8 * state.measure < limit) :
    Makes tables blockLocals state fun _ _ => True :=
  loop_makes sound rfl fun _ _ held onward => blockLocalTurn_ends calls held (by omega)

theorem blockParameters_ends (calls : Meets tables limit)
    (sound : state.Sound tables.stoppable) (enough : 8 * state.measure < limit) :
    Makes tables blockParameters state fun _ _ => True := by
  refine Ends.bind (peekKind_ends calls sound enough) ?_
  rintro _ peeked ⟨held, token, seen, rfl⟩
  have shorter := held.keeps.onward
  split
  · next kind =>
      refine (skip_ends held.sound ⟨token, seen, by simp [kind]⟩).bind held ?_
      rintro _ skipped held - -
      exact makes_pure held.forget trivial
  · next kind =>
      refine (skip_ends held.sound ⟨token, seen, by simp [kind]⟩).bind held ?_
      rintro _ skipped held - ⟨less, -⟩
      refine (parameters_ends calls held.sound (by omega) .bar).bind held ?_
      rintro list read held made -
      have later := made.keeps.onward
      refine (accept_ends calls held.sound (by omega) (by simp)).bind held ?_
      rintro found accepted held made -
      have last := made.keeps.onward
      have listed : Held tables.stoppable state (handlesOf list) accepted :=
        held.weaken (by simp +contextual)
      refine Ends.when (fun after => Held tables.stoppable state (handlesOf list) after ∧
        accepted.Onward after) (fun _ => ?_) (fun _ => ⟨listed, .refl _⟩) ?_
      · exact Ends.mono ((blockLocals_ends calls held.sound (by omega)).extends listed)
          fun _ _ made => ⟨made.1, made.2.1⟩
      · rintro after ⟨held, le⟩
        refine (expect_ends calls held.sound (by omega) (by simp)).bind held ?_
        rintro close closed held - -
        exact makes_pure (held.weaken (by simp +contextual)) trivial
  · exact makes_pure held.forget trivial

end Parse

end RubySyntax

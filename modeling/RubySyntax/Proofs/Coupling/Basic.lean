/-
Two runs side by side.

The runs take the same steps on the same input, and differ in what is made of
reports, in the store of nodes, in the bound on nesting and in the numbers that
lines go by. A coupling says how far these may differ. Steps that look at none of
them, or only at what a coupling keeps, agree: from coupled states they end
alike, with the same value or the same halt, and in coupled states.

A coupling can also watch the first run. What it knows of the tokens need not
hold while one of them is being read, so the steps of the lexer are followed for
couplings that know nothing of it, and what follows for the token as a whole is
up to the watch.

The class `Scan.Agrees` relates the two steps of the runs, which are not the
same text once the state has been looked at. Steps that are put together from
steps that agree are found by instance search.
-/

import RubySyntax.Proofs.Lexer.Basic

namespace RubySyntax

variable {α β σ : Type}

/-! ### What may differ -/

def SourceMap.place (map : SourceMap) (shape : Shape NodeId) (span : Span) : Node :=
  { shape, span, line := (map.locate span.start).line, file := (map.locate span.start).file }

def Node.outline (node : Node) : Shape NodeId × Span :=
  (node.shape, node.span)

def Node.Lineless (f : Node → Node) : Prop :=
  ∀ node line, f { node with line } = { f node with line }

def Segment.unnumbered (segment : Segment) : Segment :=
  { segment with firstLine := 0 }

/-- Two maps that differ in nothing but the numbers of the first lines. -/
structure SourceMap.Resembles (first second : SourceMap) : Prop where
  files : second.files = first.files
  lineStarts : second.lineStarts = first.lineStarts
  segments : second.segments.map Segment.unnumbered = first.segments.map Segment.unnumbered

namespace SourceMap.Resembles

variable {first second : SourceMap}

theorem refl (map : SourceMap) : map.Resembles map :=
  ⟨rfl, rfl, rfl⟩

theorem ofEq (same : second = first) : first.Resembles second :=
  same ▸ refl _

theorem segment (like : first.Resembles second) (index : Nat) :
    (second.segments[index]?).map Segment.unnumbered =
      (first.segments[index]?).map Segment.unnumbered := by
  rw [← Array.getElem?_map, ← Array.getElem?_map, like.segments]

theorem reached (like : first.Resembles second) (position : Nat) :
    second.segments.countP (·.offset ≤ position) =
      first.segments.countP (·.offset ≤ position) := by
  have counted := congrArg (Array.countP fun segment : Segment => segment.offset ≤ position)
    like.segments
  rw [Array.countP_map, Array.countP_map] at counted
  exact counted

/-- What is asked of the segment of a position is the same in both maps, if it
is not asked for the first line. -/
theorem segmentAt (like : first.Resembles second) (position : Nat) :
    (second.segments[second.segments.countP (·.offset ≤ position) - 1]?).map
        Segment.unnumbered =
      (first.segments[first.segments.countP (·.offset ≤ position) - 1]?).map
        Segment.unnumbered := by
  rw [like.reached]
  exact like.segment _

theorem canLocate (like : first.Resembles second) (position : Nat) :
    second.canLocate position = first.canLocate position := by
  have found := like.segmentAt position
  unfold SourceMap.canLocate lineIndex?
  rw [like.lineStarts]
  generalize second.segments[(_ : Nat)]? = other at found ⊢
  generalize first.segments[(_ : Nat)]? = one at found ⊢
  cases one with
  | none => rw [Option.map_eq_none_iff.mp found]
  | some segment =>
      obtain ⟨like, rfl, same⟩ := Option.map_eq_some_iff.mp found
      have index := congrArg Segment.firstLineIndex same
      change like.firstLineIndex = segment.firstLineIndex at index
      simp only [Option.map_some, index]

theorem knowsFile (like : first.Resembles second) : second.knowsFile = first.knowsFile := by
  have found := like.segment (first.segments.size - 1)
  have size := congrArg Array.size like.segments
  rw [Array.size_map, Array.size_map] at size
  unfold SourceMap.knowsFile
  rw [Array.back?_eq_getElem?, Array.back?_eq_getElem?, like.files, size]
  generalize second.segments[(_ : Nat)]? = other at found ⊢
  generalize first.segments[(_ : Nat)]? = one at found ⊢
  cases one with
  | none => rw [Option.map_eq_none_iff.mp found]
  | some segment =>
      obtain ⟨like, rfl, same⟩ := Option.map_eq_some_iff.mp found
      have file := congrArg Segment.file same
      change like.file = segment.file at file
      simp only [Option.all_some, file]

theorem locate_file (like : first.Resembles second) (position : Nat) :
    (second.locate position).file = (first.locate position).file := by
  have found := like.segmentAt position
  unfold SourceMap.locate
  dsimp only
  generalize second.segments[(_ : Nat)]? = other at found ⊢
  generalize first.segments[(_ : Nat)]? = one at found ⊢
  cases one with
  | none => rw [Option.map_eq_none_iff.mp found]
  | some segment =>
      obtain ⟨like, rfl, same⟩ := Option.map_eq_some_iff.mp found
      have file := congrArg Segment.file same
      exact file

end SourceMap.Resembles

/-! ### Between tokens -/

/-- What becomes of the lexer while no token is being read. No literal between delimiters is
opened, no literal is left, nothing is put aside or taken up again, and a body is begun only
where a heredoc waits for it. -/
structure LexerState.Waits (before after : LexerState) : Prop where
  ended : after.ended = before.ended
  pending : after.variablePending = before.variablePending
  stays : before.literal ≠ none → after.literal ≠ none
  quotations : after.quotations ⊆ before.quotations
  contexts : after.contexts = before.contexts
  bodies : before.heredocs = [] → after.heredocs = [] ∧ after.literal = before.literal

class LexerState.Waiting (f : LexerState → LexerState) : Prop where
  waits : ∀ lexer : LexerState, lexer.Waits (f lexer)

namespace LexerState

theorem Waits.refl (lexer : LexerState) : lexer.Waits lexer :=
  ⟨rfl, rfl, id, List.Subset.refl _, rfl, fun none => ⟨none, rfl⟩⟩

instance {statementStart afterArrow heredocsDue : LexerState → Bool}
    {mode : LexerState → Mode} {loopFlags commandFlags : LexerState → BitStack}
    {brackets openConstructs : LexerState → Nat} :
    Waiting fun lexer =>
      { ended := lexer.ended
        mode := mode lexer
        statementStart := statementStart lexer
        loopFlags := loopFlags lexer
        commandFlags := commandFlags lexer
        brackets := brackets lexer
        openConstructs := openConstructs lexer
        literal := lexer.literal
        variablePending := lexer.variablePending
        afterArrow := afterArrow lexer
        heredocs := lexer.heredocs
        heredocsDue := heredocsDue lexer
        contexts := lexer.contexts } :=
  ⟨fun lexer => ⟨rfl, rfl, id, List.Subset.refl lexer.quotations, rfl, fun none => ⟨none, rfl⟩⟩⟩

end LexerState

/-- What is known of a run while it goes on: `always` at any time, and `between`
whenever no token is being read, of the lexer too. -/
structure Watch where
  always : Input → Report → List Token → Prop
  between : Input → Report → List Token → Option Token → LexerState → Prop
  advance {input : Input} {report : Report} {tokens : List Token} (distance : Nat) :
    always input report tokens → always (input.advance distance) report tokens
  ask {input : Input} {report : Report} {tokens : List Token} :
    always input report tokens → ((input.answers.head?.join).map Chunk.bytes).getD [] = [] →
      always input.ask report tokens
  fetch {input : Input} {report : Report} {tokens : List Token} {chunk : Chunk} :
    always input report tokens → input.answers.head?.join = some chunk →
      always (input.ask.append chunk.bytes)
        { report with
          map := report.map.addChunk input.bytes.size chunk.bytes chunk.fileName 1 } tokens
  add {input : Input} {report : Report} {tokens : List Token} (span : Span)
    (problem : Problem) :
    always input report tokens → always input (report.add span problem) tokens
  addBetween {input : Input} {report : Report} {tokens : List Token} {lookahead : Option Token}
    {lexer : LexerState} (span : Span) (problem : Problem) :
    between input report tokens lookahead lexer →
      between input (report.add span problem) tokens lookahead lexer
  look {input : Input} {report : Report} {tokens : List Token} {lookahead : Option Token}
    {lexer : LexerState} {token : Token} :
    between input report tokens lookahead lexer → tokens.head? = some token →
      between input report tokens (some token) lexer
  take {input : Input} {report : Report} {tokens : List Token} {lookahead : Option Token}
    {lexer : LexerState} :
    between input report tokens lookahead lexer → between input report tokens none lexer
  wait {input : Input} {report : Report} {tokens : List Token} {lookahead : Option Token}
    {lexer later : LexerState} : lexer.Waits later →
      between input report tokens lookahead lexer → between input report tokens lookahead later

def Watch.idle : Watch where
  always _ _ _ := True
  between _ _ _ _ _ := True
  advance _ _ := trivial
  ask _ _ := trivial
  fetch _ _ := trivial
  add _ _ _ := trivial
  addBetween _ _ _ := trivial
  look _ _ := trivial
  take _ := trivial
  wait _ _ := trivial

def Watch.loose (watch : Watch) : Watch :=
  { watch with
    between := fun _ _ _ _ _ => True
    addBetween := fun _ _ _ => trivial
    look := fun _ _ => trivial
    take := fun _ => trivial
    wait := fun _ _ => trivial }

/-- What two runs may differ in. The halts that are excused end the first run
where the second one may go on. -/
structure Coupling where
  watch : Watch
  reports : Report → Report → Prop
  arenas : Arena → Arena → Prop
  depths : Nat → Nat → Prop
  excused : Halt → Prop
  /-- Places are found alike, but for their lines. -/
  map {first second : Report} : reports first second → first.map.Resembles second.map
  add {first second : Report} (span : Span) (problem : Problem) :
    reports first second → reports (first.add span problem) (second.add span problem)
  fetch {first second : Report} {input : Input} {tokens : List Token} {chunk : Chunk} :
    reports first second → watch.always input first tokens →
      input.answers.head?.join = some chunk →
      reports
        { first with
          map := first.map.addChunk input.bytes.size chunk.bytes chunk.fileName 1 }
        { second with
          map := second.map.addChunk input.bytes.size chunk.bytes chunk.fileName 1 }
  /-- There are as many slots, and they hold the same nodes, but for their
  places. -/
  slots {first second : Arena} : arenas first second →
    second.slotCount = first.slotCount ∧
      ∀ id, (second.get? id).map Node.outline = (first.get? id).map Node.outline
  store {report other : Report} {first second stored : Arena} {shape : Shape NodeId}
    {span : Span} {id : NodeId} : reports report other → arenas first second →
      first.alloc (report.map.place shape span) = some (id, stored) →
      ∃ also, second.alloc (other.map.place shape span) = some (id, also) ∧ arenas stored also
  full {first second : Arena} {node other : Node} :
    arenas first second → first.alloc node = none →
      excused (.fatal (.arenaExhausted first.limit)) ∨
        second.alloc other = none ∧ second.limit = first.limit
  recycle {first second : Arena} (id : NodeId) :
    arenas first second → arenas (first.recycle id) (second.recycle id)
  modify {first second : Arena} (id : NodeId) {f : Node → Node} (lineless : Node.Lineless f) :
    arenas first second → arenas (first.modify id f) (second.modify id f)
  /-- A level that is allowed to the first run is allowed to the second. -/
  allowed {first second depth : Nat} : depths first second → depth < first → depth < second
  tooDeep {first second depth : Nat} (position : Nat) : depths first second → first ≤ depth →
    excused (.fatal (.nestingTooDeep first position)) ∨ second = first

@[reducible] def State.recast (state : State) (report : Report) (arena : Arena)
    (maxDepth : Nat) : State :=
  { state with report, arena, limits := { state.limits with maxDepth } }

namespace Coupling

def loose (coupling : Coupling) : Coupling :=
  { coupling with watch := coupling.watch.loose }

def Always (coupling : Coupling) (state : State) : Prop :=
  coupling.watch.always state.input state.report state.tokens

def Between (coupling : Coupling) (state : State) : Prop :=
  coupling.watch.between state.input state.report state.tokens state.lookahead state.lexer

structure Alike (coupling : Coupling) (first second : State) : Prop where
  reports : coupling.reports first.report second.report
  arenas : coupling.arenas first.arena second.arena
  depths : coupling.depths first.limits.maxDepth second.limits.maxDepth
  rest : second = first.recast second.report second.arena second.limits.maxDepth
  always : coupling.Always first

theorem Alike.report {coupling : Coupling} {first second : State}
    (alike : coupling.Alike first second) (span : Span) (problem : Problem) :
    coupling.Alike { first with report := first.report.add span problem }
      { second with report := second.report.add span problem } where
  reports := coupling.add span problem alike.reports
  arenas := alike.arenas
  depths := alike.depths
  rest := by
    have rest := alike.rest
    rw [rest]
  always := coupling.watch.add span problem alike.always

/-- The ends of two runs: with the same value or the same halt, in states that
are alike. Nothing is said of the second run if the first one is excused. -/
def Ends (coupling : Coupling) (first second : EStateM.Result Halt State α) : Prop :=
  match first with
  | .ok value after => ∃ other, second = .ok value other ∧ coupling.Alike after other
  | .error halt after =>
      coupling.excused halt ∨
        ∃ other, second = .error halt other ∧ coupling.Alike after other

structure Meets (coupling : Coupling) (first second : EStateM.Result Halt State α) : Prop where
  ends : coupling.Ends first second
  between : ∀ {value after}, first = .ok value after → coupling.Between after

class Loose (coupling : Coupling) : Prop where
  between : ∀ state, coupling.Between state

instance (coupling : Coupling) : coupling.loose.Loose :=
  ⟨fun _ => trivial⟩

structure Aside (before after : State) : Prop where
  report : after.report = before.report
  arena : after.arena = before.arena
  limits : after.limits = before.limits
  input : after.input = before.input
  tokens : after.tokens = before.tokens
  lookahead : after.lookahead = before.lookahead
  lexer : before.lexer.Waits after.lexer

variable {coupling : Coupling} {before after : State}

theorem Aside.always (aside : Aside before after) (always : coupling.Always before) :
    coupling.Always after := by
  unfold Always at always ⊢
  rw [aside.input, aside.report, aside.tokens]
  exact always

theorem Aside.between (aside : Aside before after) (between : coupling.Between before) :
    coupling.Between after := by
  unfold Between at between ⊢
  rw [aside.input, aside.report, aside.tokens, aside.lookahead]
  exact coupling.watch.wait aside.lexer between

theorem Meets.ok {value : α} {twin : State} (alike : coupling.Alike after twin)
    (between : coupling.Between after) :
    coupling.Meets (.ok value after) (.ok value twin) where
  ends := ⟨twin, rfl, alike⟩
  between same := by
    cases same
    exact between

theorem Meets.error {halt : Halt} {twin : State} (alike : coupling.Alike after twin) :
    coupling.Meets (.error halt after : EStateM.Result Halt State α) (.error halt twin) where
  ends := .inr ⟨twin, rfl, alike⟩
  between := nofun

theorem Meets.excused {halt : Halt} {second : EStateM.Result Halt State α}
    (excused : coupling.excused halt) : coupling.Meets (.error halt after) second where
  ends := .inl excused
  between := nofun

end Coupling

namespace Scan

class Agrees (coupling : Coupling) (first second : Scan α) : Prop where
  meets : ∀ state twin, coupling.Alike state twin → coupling.Between state →
    coupling.Meets (first state) (second twin)

abbrev InStep (coupling : Coupling) (step : Scan α) : Prop :=
  Agrees coupling step step

variable {coupling : Coupling}

/-! ### Steps in sequence -/

section

variable {first second : Scan α} {next other : α → Scan β}

instance (value : α) : InStep coupling (pure value) where
  meets _ _ alike between := .ok alike between

instance (halt : Halt) : InStep coupling (throw halt : Scan α) where
  meets _ _ alike _ := .error alike

theorem meets_bind {state twin : State} (once : coupling.Meets (first state) (second twin))
    (follow : ∀ value after reached, first state = .ok value after →
      coupling.Alike after reached → coupling.Between after →
      coupling.Meets (next value after) (other value reached)) :
    coupling.Meets ((first >>= next) state) ((second >>= other) twin) := by
  change coupling.Meets (EStateM.bind first next state) (EStateM.bind second other twin)
  unfold EStateM.bind
  obtain ⟨ends, between⟩ := once
  cases run : first state with
  | ok value after =>
      rw [run] at ends
      obtain ⟨reached, same, alike⟩ := ends
      rw [same]
      exact follow value after reached run alike (between run)
  | error halt after =>
      rw [run] at ends
      cases ends with
      | inl excused => exact .excused excused
      | inr halted =>
          obtain ⟨reached, same, alike⟩ := halted
          rw [same]
          exact .error alike

instance Agrees.bind [agrees : Agrees coupling first second]
    [follow : ∀ value, Agrees coupling (next value) (other value)] :
    Agrees coupling (first >>= next) (second >>= other) where
  meets state twin alike between :=
    meets_bind (agrees.meets state twin alike between) fun value after reached _ =>
      (follow value).meets after reached

instance {first second : Scan PUnit} {next other : PUnit → Scan β} [Agrees coupling first second]
    [follow : Agrees coupling (next ⟨⟩) (other ⟨⟩)] :
    Agrees coupling (first >>= next) (second >>= other) :=
  have (value : PUnit) : Agrees coupling (next value) (other value) := follow
  Agrees.bind

theorem Agrees.andThen [Agrees coupling first second]
    (follow : ∀ value, Agrees coupling (next value) (other value)) :
    Agrees coupling (first >>= next) (second >>= other) :=
  inferInstance

theorem InStep.andThen [InStep coupling first] (follow : ∀ value, InStep coupling (next value)) :
    InStep coupling (first >>= next) :=
  inferInstance

instance {condition : Prop} [Decidable condition] {left right left' right' : Scan α}
    [Agrees coupling left left'] [Agrees coupling right right'] :
    Agrees coupling (if condition then left else right)
      (if condition then left' else right') := by
  split
  · infer_instance
  · infer_instance

end

/-! ### Looking at the state -/

section

variable {next other : State → Scan α}

theorem Agrees.looking
    (follow : ∀ state report arena maxDepth,
      coupling.Alike state (state.recast report arena maxDepth) → coupling.Between state →
        Agrees coupling (next state) (other (state.recast report arena maxDepth))) :
    Agrees coupling (get >>= next) (get >>= other) where
  meets state twin alike between := by
    have same := alike.rest
    rw [same] at alike ⊢
    exact (follow state _ _ _ alike between).meets _ _ alike between

instance Agrees.glance
    [follow : ∀ state report arena maxDepth,
      Agrees coupling (next state) (other (state.recast report arena maxDepth))] :
    Agrees coupling (get >>= next) (get >>= other) :=
  .looking fun state report arena maxDepth _ _ => follow state report arena maxDepth

theorem InStep.seeing {next : State → Scan α}
    (common : ∀ state report arena maxDepth,
      next (state.recast report arena maxDepth) = next state)
    (follow : ∀ state, InStep coupling (next state)) : InStep coupling (get >>= next) := by
  apply Agrees.looking
  intro state report arena maxDepth _ _
  rw [common state report arena maxDepth]
  exact follow state

/-- A step that moves on in the input first. -/
theorem InStep.moving [coupling.Loose] {distance : State → Nat} {next : State → PUnit → Scan α}
    (common : ∀ state report arena maxDepth,
      distance (state.recast report arena maxDepth) = distance state ∧
        next (state.recast report arena maxDepth) = next state)
    (follow : ∀ state, InStep coupling (next state ⟨⟩)) :
    InStep coupling (get >>= fun state =>
      set { state with input := state.input.advance (distance state) } >>= next state) where
  meets state twin alike _ := by
    have recast := alike.rest
    rw [recast] at alike ⊢
    obtain ⟨same, after⟩ := common state twin.report twin.arena twin.limits.maxDepth
    change coupling.Meets
      (next state ⟨⟩ { state with input := state.input.advance (distance state) })
      (next (state.recast twin.report twin.arena twin.limits.maxDepth) ⟨⟩ _)
    rw [after]
    apply (follow state).meets
    · refine ⟨alike.reports, alike.arenas, alike.depths, ?_, ?_⟩
      · rw [same]
      · exact coupling.watch.advance _ alike.always
    · exact Coupling.Loose.between _

end

theorem agrees_modifyGet {f : State → α × State}
    (same : ∀ state twin, coupling.Alike state twin → coupling.Between state →
      (f twin).1 = (f state).1 ∧ coupling.Alike (f state).2 (f twin).2 ∧
        coupling.Between (f state).2) :
    InStep coupling (modifyGet f) where
  meets state twin alike between := by
    obtain ⟨value, reached, kept⟩ := same state twin alike between
    change coupling.Meets (.ok (f state).1 (f state).2) (.ok (f twin).1 (f twin).2)
    rw [value]
    exact .ok reached kept

theorem agrees_modify {f other : State → State}
    (same : ∀ state report arena maxDepth,
      other (state.recast report arena maxDepth) = (f state).recast report arena maxDepth)
    (aside : ∀ state, Coupling.Aside state (f state)) :
    Agrees coupling (modify f) (modify other) where
  meets state twin alike between := by
    have kept := aside state
    have recast := alike.rest
    have reached : coupling.Alike (f state) (other twin) := by
      rw [recast, same]
      constructor
      · rw [kept.report]
        exact alike.reports
      · rw [kept.arena]
        exact alike.arenas
      · rw [kept.limits]
        exact alike.depths
      · rfl
      · exact kept.always alike.always
    exact .ok reached (kept.between between)

theorem inStep_move [coupling.Loose] {distance : State → Nat} {lexer : State → LexerState}
    (common : ∀ state report arena maxDepth,
      distance (state.recast report arena maxDepth) = distance state ∧
        lexer (state.recast report arena maxDepth) = lexer state) :
    InStep coupling (modify fun state : State =>
      { state with input := state.input.advance (distance state), lexer := lexer state }) where
  meets state twin alike _ := by
    have recast := alike.rest
    rw [recast] at alike ⊢
    obtain ⟨far, after⟩ := common state twin.report twin.arena twin.limits.maxDepth
    have reached : coupling.Alike
        { state with input := state.input.advance (distance state), lexer := lexer state }
        { state.recast twin.report twin.arena twin.limits.maxDepth with
          input := state.input.advance (distance (state.recast twin.report twin.arena
            twin.limits.maxDepth))
          lexer := lexer (state.recast twin.report twin.arena twin.limits.maxDepth) } := by
      refine ⟨alike.reports, alike.arenas, alike.depths, ?_, ?_⟩
      · rw [far, after]
      · exact coupling.watch.advance _ alike.always
    exact .ok reached (Coupling.Loose.between _)

/-! ### Repetitions -/

instance {start : σ} {body other : σ → Scan (Turn σ α)}
    [turn : ∀ current, Agrees coupling (body current) (other current)] :
    Agrees coupling (repeatUntil start body) (repeatUntil start other) := by
  have loop (turns : Nat) (current : σ) :
      Agrees coupling (iterate body turns current) (iterate other turns current) := by
    induction turns generalizing current with
    | zero => exact inferInstanceAs (InStep coupling (throw .starved : Scan α))
    | succ turns ih =>
        constructor
        intro state twin alike between
        obtain ⟨ends, kept⟩ := (turn current).meets state twin alike between
        unfold iterate
        cases run : body current state with
        | ok result after =>
            rw [run] at ends
            obtain ⟨reached, same, alike⟩ := ends
            rw [same]
            cases result with
            | done value => exact .ok alike (kept run)
            | again next => exact (ih next).meets after reached alike (kept run)
        | error halt after =>
            rw [run] at ends
            cases ends with
            | inl excused => exact .excused excused
            | inr halted =>
                obtain ⟨reached, same, alike⟩ := halted
                rw [same]
                exact .error alike
  exact Agrees.looking fun state _ _ _ _ _ => loop state.limits.turns start

instance {items : List α} {body other : α → Scan PUnit}
    [∀ item, Agrees coupling (body item) (other item)] :
    Agrees coupling (items.forM body) (items.forM other) := by
  induction items with
  | nil => exact inferInstanceAs (InStep coupling (pure _))
  | cons item items ih =>
      exact inferInstanceAs (Agrees coupling (body item >>= fun _ => items.forM body)
        (other item >>= fun _ => items.forM other))

theorem InStep.remarks {items : List α} {body : α → Scan PUnit} {next : PUnit → Scan β}
    [∀ value, InStep coupling (next value)] (each : ∀ item, InStep coupling (body item)) :
    InStep coupling (items.forM body >>= next) :=
  inferInstance

instance {items : List α} {body other : α → Scan β}
    [∀ item, Agrees coupling (body item) (other item)] :
    Agrees coupling (items.mapM body) (items.mapM other) := by
  induction items with
  | nil =>
      rw [List.mapM_nil, List.mapM_nil]
      infer_instance
  | cons item items ih =>
      rw [List.mapM_cons, List.mapM_cons]
      infer_instance

instance {items : List α} {body other : β → α → Scan β} {start : β}
    [∀ joined item, Agrees coupling (body joined item) (other joined item)] :
    Agrees coupling (items.foldlM body start) (items.foldlM other start) := by
  induction items generalizing start with
  | nil =>
      rw [List.foldlM_nil, List.foldlM_nil]
      infer_instance
  | cons item items ih =>
      rw [List.foldlM_cons, List.foldlM_cons]
      infer_instance

/-! ### The bound on nesting -/

theorem agrees_below {first second depth position : Nat} {next other : Unit → Scan α}
    (depths : coupling.depths first second) (follow : Agrees coupling (next ()) (other ())) :
    Agrees coupling
      (if first ≤ depth then fail (.nestingTooDeep first position) >>= next else next ())
      (if second ≤ depth then fail (.nestingTooDeep second position) >>= other else other ()) := by
  by_cases deep : first ≤ depth
  · rw [if_pos deep]
    constructor
    intro state twin alike _
    cases coupling.tooDeep position depths deep with
    | inl excused => exact .excused excused
    | inr same =>
        rw [same, if_pos deep]
        exact .error alike
  · have allowed := coupling.allowed depths (Nat.lt_of_not_le deep)
    rw [if_neg deep, if_neg (Nat.not_le_of_lt allowed)]
    exact follow

/-! ### Steps on what all runs have in common -/

instance [coupling.Loose] (f : LexerState → LexerState) : InStep coupling (setLexer f) where
  meets _ _ alike _ := by
    have rest := alike.rest
    rw [rest] at alike ⊢
    exact .ok ⟨alike.reports, alike.arenas, alike.depths, rfl, alike.always⟩
      (Coupling.Loose.between _)

instance (f : LexerState → LexerState) [waiting : LexerState.Waiting f] :
    InStep coupling (setLexer f) :=
  agrees_modify (fun _ _ _ _ => rfl) fun state =>
    ⟨rfl, rfl, rfl, rfl, rfl, rfl, waiting.waits state.lexer⟩

instance (mode : Mode) : InStep coupling (setMode mode) := by
  unfold setMode
  infer_instance

instance [coupling.Loose] (distance : Nat) : InStep coupling (advance distance) :=
  inStep_move fun _ _ _ _ => ⟨rfl, rfl⟩

instance (name : Bytes) : InStep coupling (intern name) := by
  apply agrees_modifyGet
  intro state twin alike between
  have recast := alike.rest
  rw [recast] at alike ⊢
  exact ⟨rfl, ⟨alike.reports, alike.arenas, alike.depths, rfl, alike.always⟩, between⟩

instance (holds : Bool) (fault : Fault) :
    InStep coupling (relyOn holds fault) := by
  unfold relyOn
  infer_instance

instance (error : Fatal) : InStep coupling (fail error : Scan α) := by
  unfold fail
  infer_instance

instance : InStep coupling position := by
  unfold position
  infer_instance

instance : InStep coupling peek := by
  unfold peek
  infer_instance

instance (start stop : Nat) : InStep coupling (checkRange start stop) := by
  unfold checkRange
  infer_instance

instance (position : Nat) : InStep coupling (checkByte position) := by
  unfold checkByte
  infer_instance

instance (kind : TokenKind) (start : Nat) :
    InStep coupling (token kind start) := by
  unfold token
  infer_instance

/-! ### Reports and requests for more -/

instance (span : Span) (problem : Problem) :
    InStep coupling (report span problem) := by
  apply Agrees.looking
  intro state report arena maxDepth alike _
  rw [(coupling.map alike.reports).canLocate]
  apply InStep.andThen
  intro _
  constructor
  intro state twin alike between
  exact .ok (alike.report span problem) (coupling.watch.addBetween span problem between)

instance [coupling.Loose] : InStep coupling fetchMore := by
  apply Agrees.looking
  intro state report arena maxDepth alike _
  rw [(coupling.map alike.reports).knowsFile]
  apply InStep.andThen
  intro _
  apply agrees_modifyGet
  intro current twin alike _
  have recast := alike.rest
  rw [recast] at alike ⊢
  have asked (empty : ((current.input.answers.head?.join).map Chunk.bytes).getD [] = []) :
      coupling.Alike { current with input := current.input.ask }
        { current.recast twin.report twin.arena twin.limits.maxDepth with
          input := current.input.ask } :=
    ⟨alike.reports, alike.arenas, alike.depths, rfl, coupling.watch.ask alike.always empty⟩
  dsimp only
  split
  · next answer =>
      exact ⟨rfl, asked (by rw [answer]; rfl), Coupling.Loose.between _⟩
  · next chunk answer =>
      split
      · next empty =>
          have nothing : chunk.bytes = [] := List.isEmpty_iff.mp empty
          exact ⟨rfl, asked (by rw [answer]; exact nothing), Coupling.Loose.between _⟩
      · have reports := coupling.fetch alike.reports alike.always answer
        exact ⟨rfl, ⟨reports, alike.arenas, alike.depths, rfl,
          coupling.watch.fetch alike.always answer⟩, Coupling.Loose.between _⟩

instance [coupling.Loose] : InStep coupling hasMore := by
  unfold hasMore
  infer_instance

end Scan

end RubySyntax

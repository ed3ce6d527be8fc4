/-
Literals and word lists.

The pieces of a literal are read one by one: code is settled once it has been
read, and the texts become nodes last. A string may still be joined to the one
that follows it, so its node and its texts are loose until then.
-/

import RubySyntax.Proofs.Schema.Join

namespace RubySyntax.Parse

variable {outcome : Arena} {known : Prop} {loose : NodeId → Prop} {base state : State}
  {table : RuleTable} [served : table.Upholds outcome]

/-! ### Single tokens -/

omit served in
instance (word : Keyword) (span : Span) :
    Conforming outcome table known (wordShape? word span) := by
  have call {known : Prop} (name : Symbol) :
      Entails known ((Shape.functionCall name [] (none : Option NodeId)).Conforms outcome) :=
    ⟨fun _ => Scan.conforms_of_blockless rfl⟩
  unfold wordShape?
  split <;> infer_instance

omit served in
instance (token : Token) : Conforming outcome table known (atomShape? token) := by
  unfold atomShape?
  split <;> infer_instance

omit served in
theorem atomShape_codes {token : Token} (isVariable : Scan.IsVariable token.kind) :
    Returns table (atomShape? token) state fun shape? after =>
      after = state ∧ ∀ shape ∈ shape?, shape.isCode = true := by
  obtain ⟨kind, span⟩ := token
  have codes {shape : Shape NodeId} (code : shape.isCode = true) :
      Returns table (pure (some shape)) state fun shape? after =>
        after = state ∧ ∀ shape ∈ shape?, shape.isCode = true := by
    apply returns_pure
    refine ⟨rfl, ?_⟩
    intro other same
    cases same
    exact code
  cases kind with
  | instanceVariable name => exact codes rfl
  | classVariable name => exact codes rfl
  | globalVariable name => exact codes rfl
  | numberedReference number => exact codes rfl
  | backReference byte => exact codes rfl
  | _ => cases isVariable

theorem variableNode_leads (orderly : state.Orderly) (holds : state.Holds loose)
    (nothing : state.lookahead = none) (pending : state.lexer.variablePending = true) :
    Returns table variableNode state fun id after =>
      Leads outcome loose known state after True ∧ after.Coded id := by
  unfold variableNode
  have peeks : Returns table peekToken state (Peeked outcome loose known state) :=
    peekToken_leads orderly holds
  apply peeks.bind
  intro token reached peeked
  apply (atomShape_codes (peeked.isVariable nothing pending)).bind
  intro shape? same codes
  obtain ⟨rfl, codes⟩ := codes
  cases shape? with
  | none => exact returns_throw _
  | some shape =>
      have code := codes shape rfl
      apply (skip_safely peeked.leads.orderly).bind
      intro _ taken took
      obtain ⟨_, took⟩ := took
      apply (Scan.alloc_leads shape token.span took.safely.orderly).mono
      intro id after adds
      have last := took.safely.trans (adds.safely (Shape.free_of_isCode code))
      exact ⟨peeked.leads.safely last, shape,
        adds.settled (Shape.lasts_of_isCode code).1, code⟩

/-! ### Pieces -/

theorem interpolatedCode_leads (orderly : state.Orderly) (holds : state.Holds loose) :
    Returns table interpolatedCode state fun id after =>
      Leads outcome loose known state after True ∧ after.Coded id := by
  unfold interpolatedCode
  have takes : Conforming outcome table known take := inferInstance
  have reads : Conforming outcome table known (descend .statements) := inferInstance
  have closes : Conforming outcome table known (expect .interpolationEnd) := inferInstance
  apply takes.lead orderly holds
  intro opening taken first holds
  apply reads.lead first.orderly holds
  intro body reached second holds
  apply closes.lead second.orderly holds
  intro close closed third holds
  apply (Scan.alloc_leads (.optional .group body) _ third.orderly).mono
  intro id after adds
  exact ⟨((first.next second).next third).safely (adds.safely inferInstance), _,
    adds.settled rfl, rfl⟩

theorem gatherParts_leads (orderly : state.Orderly) (holds : state.Holds loose) :
    Returns table (repeatUntil #[] partTurn) state fun parts after =>
      Leads outcome loose known state after True ∧
        (∀ id ∈ Part.codes parts.toList, after.Coded id) ∧
        ∃ token, after.lookahead = some token ∧ token.kind ≠ .variableInterpolation := by
  apply repeatUntil_returns fun parts current =>
    Leads outcome loose known state current True ∧
      ∀ id ∈ Part.codes parts.toList, current.Coded id
  · exact ⟨.refl orderly fun _ => trivial, nofun⟩
  · intro parts current before
    obtain ⟨before, coded⟩ := before
    have peeks : Returns table peekToken current (Peeked outcome loose known current) :=
      peekToken_leads before.orderly (holds.later before.lasts)
    apply peeks.bind
    intro token reached peeked
    have leads := before.next peeked.leads
    have added {id : NodeId} {after : State} (lasts : Lasts reached after) (new : after.Coded id) :
        ∀ other ∈ Part.codes (parts.push (.code id)).toList, after.Coded other := by
      intro other member
      rw [Array.toList_push, Part.codes_append] at member
      cases List.mem_append.mp member with
      | inl old => exact (coded other old).later (peeked.leads.lasts.trans lasts)
      | inr same => exact List.mem_singleton.mp same ▸ new
    split
    · next bytes lineHead _ =>
        apply (skip_safely leads.orderly).bind
        intro _ after took
        obtain ⟨_, took⟩ := took
        apply returns_pure
        refine ⟨leads.safely took.safely, ?_⟩
        intro other member
        rw [Array.toList_push, Part.codes_append, Part.codes_text, Part.codes_nil,
          List.append_nil] at member
        exact ((coded other member).later peeked.leads.lasts).later took.safely.lasts
    · have code : Returns table interpolatedCode reached fun id after =>
          Leads outcome loose known reached after True ∧ after.Coded id :=
        interpolatedCode_leads leads.orderly (holds.later leads.lasts)
      apply code.bind
      intro id after read
      exact returns_pure ⟨leads.next read.1, added read.1.lasts read.2⟩
    · next variableNext =>
        apply (skip_safely leads.orderly).bind
        intro _ taken took
        obtain ⟨seen, took⟩ := took
        have pending : taken.lexer.variablePending = true :=
          took.lexer ▸ leads.orderly.ahead token peeked.ahead variableNext
        have passed := leads.safely took.safely
        have node : Returns table variableNode taken fun id after =>
            Leads outcome loose known taken after True ∧ after.Coded id :=
          variableNode_leads passed.orderly (holds.later passed.lasts) took.nothing pending
        apply node.bind
        intro id after read
        exact returns_pure ⟨passed.next read.1,
          added (took.safely.lasts.trans read.1.lasts) read.2⟩
    · next other =>
        apply returns_pure
        refine ⟨leads, ?_, token, peeked.ahead, other⟩
        intro id member
        exact (coded id member).later peeked.leads.lasts

theorem literalParts_leads (orderly : state.Orderly) (holds : state.Holds loose) :
    Returns table literalParts state fun parts after =>
      Leads outcome loose known state after True ∧ (∀ id ∈ Part.codes parts, after.Coded id) ∧
        ∃ token, after.lookahead = some token ∧ token.kind ≠ .variableInterpolation := by
  have gathers : Returns table _ state fun (parts : Array Part) after =>
      Leads outcome loose known state after True ∧
        (∀ id ∈ Part.codes parts.toList, after.Coded id) ∧
        ∃ token, after.lookahead = some token ∧ token.kind ≠ .variableInterpolation :=
    gatherParts_leads orderly holds
  apply gathers.bind
  intro parts after read
  exact returns_pure read

/-! ### Literals -/

structure Quoted (outcome : Arena) (loose : NodeId → Prop) (known : Prop) (kind : LiteralKind)
    (before : State) (id : NodeId) (after : State) : Prop where
  leads : Leads outcome loose known before after True
  string : kind = .string → Strung outcome loose known before after id

omit served in
theorem Quoted.since {middle after : State} {kind : LiteralKind} {id : NodeId}
    (quoted : Quoted outcome loose known kind middle id after)
    (leads : Leads outcome loose known base middle True) :
    Quoted outcome loose known kind base id after where
  leads := leads.next quoted.leads
  string isString := (quoted.string isString).since leads

omit served in
theorem storeLiteral_leads (orderly : state.Orderly) (holds : state.Holds loose)
    {parts : List Part} (coded : ∀ id ∈ Part.codes parts, state.Coded id) (kind : LiteralKind)
    (flags : String) (span : Span) :
    Returns table (do
      let shape ← Scan.literalShape kind parts flags
      Scan.alloc shape span) state (Quoted outcome loose known kind state) := by
  apply Returns.lift_bind (Scan.literalShape_makes orderly coded kind flags)
  intro shape reached shaped
  obtain ⟨safely, made⟩ := shaped
  apply (Scan.alloc_leads shape span safely.orderly).mono
  intro id after adds
  have start : Leads outcome loose known state state True := .refl orderly fun _ => trivial
  have still := holds.later safely.lasts
  constructor
  · apply (start.safely safely).next
    apply adds.leads
    exact fun _ follows _ => made.conforms follows fun _ coded => coded.tight still
  · intro string
    subst string
    have wide : Leads outcome (fun part => loose part ∨ after.Owns id part) known state state
        True := .refl orderly fun _ => trivial
    apply adds.strung made (wide.safely safely) holds
    exact fun _ _ wide _ => wide

/-- A quoted literal. As a label it waits to be taken as a key. -/
theorem quoted_leads (orderly : state.Orderly) (holds : state.Holds loose) (opening : Span)
    (kind : LiteralKind) :
    Returns table (quoted opening kind) state fun id after =>
      after.quotedKey.isSome = true ∧ Leads outcome loose known state after True ∨
        Quoted outcome loose known kind state id after := by
  unfold quoted
  have pieces : Returns table literalParts state fun parts after =>
      Leads outcome loose known state after True ∧ (∀ id ∈ Part.codes parts, after.Coded id) ∧
        ∃ token, after.lookahead = some token ∧ token.kind ≠ .variableInterpolation :=
    literalParts_leads orderly holds
  apply pieces.bind
  intro parts read literal
  obtain ⟨leads, coded, -⟩ := literal
  have peeks : Returns table peekToken read (Peeked outcome loose known read) :=
    peekToken_leads leads.orderly (holds.later leads.lasts)
  apply peeks.bind
  intro token reached peeked
  have leads := leads.next peeked.leads
  have coded (id : NodeId) (member : id ∈ Part.codes parts) := (coded id member).later peeked.leads.lasts
  have skips : Returns table skip reached fun _ after => ∃ token, Taken reached token after :=
    skip_safely leads.orderly
  have store {after : State} (safely : Safely reached after) (kind : LiteralKind) (flags : String)
      (span : Span) : Returns table (do
        let shape ← Scan.literalShape kind parts flags
        Scan.alloc shape span) after (Quoted outcome loose known kind state) := by
    have passed := leads.safely safely
    apply (storeLiteral_leads passed.orderly (holds.later passed.lasts)
      (fun id member => (coded id member).later safely.lasts) kind flags span).mono
    intro id last quoted
    exact quoted.since passed
  split
  · apply skips.bind
    intro _ after took
    obtain ⟨_, took⟩ := took
    apply (store took.safely kind _ _).mono
    exact fun _ _ => .inr
  · apply skips.bind
    intro _ after took
    obtain ⟨_, took⟩ := took
    rw [← bind_assoc]
    apply (store took.safely .symbol "" _).bind
    intro key labelled quoted
    apply Returns.modify_bind
    apply returns_pure
    have waits : labelled.Idles { labelled with quotedKey := some key } :=
      ⟨rfl, rfl, rfl, rfl, rfl, rfl, rfl, rfl, rfl, rfl⟩
    exact .inl ⟨rfl, quoted.leads.safely (waits.safely quoted.leads.orderly)⟩
  · apply Returns.lift_bind (Scan.Idle.returns reached)
    intro _ after idles
    apply (store (idles.safely leads.orderly) kind _ _).mono
    exact fun _ _ => .inr

instance (opening : Span) (kind : LiteralKind) :
    Conforming outcome table known (quoted opening kind) where
  upholds loose state orderly holds := by
    have reads : Returns table (quoted opening kind) state fun id after =>
        after.quotedKey.isSome = true ∧ Leads outcome loose known state after True ∨
          Quoted outcome loose known kind state id after := quoted_leads orderly holds opening kind
    apply reads.mono
    intro id after read
    cases read with
    | inl label => exact label.2
    | inr quoted => exact quoted.leads

theorem nextString_leads (holds : base.Holds loose) {id : NodeId}
    (strung : Strung outcome loose known base state id) (opening : Span) :
    Returns table (do
      let next ← quoted opening .string
      match ← Scan.takeQuotedKey? with
      | some label =>
          Scan.report (← Scan.spanOf label) .unexpectedLabel
          return (Turn.again id : Turn NodeId NodeId)
      | none => return .again (← Scan.joinStrings id next)) state fun turn after =>
        ∃ last, turn = .again last ∧ Strung outcome loose known base after last := by
  have reads : Returns table (quoted opening .string) state fun next after =>
      after.quotedKey.isSome = true ∧
          Leads outcome (fun part => loose part ∨ state.Owns id part) known state after True ∨
        Quoted outcome (fun part => loose part ∨ state.Owns id part) known .string state next after :=
    quoted_leads strung.leads.orderly (strung.holds holds) opening .string
  apply reads.bind
  intro next after read
  have leads : Leads outcome (fun part => loose part ∨ state.Owns id part) known state after True := by
    cases read with
    | inl label => exact label.2
    | inr quoted => exact quoted.leads
  -- The string before is untouched until it is known whether the next one is a label.
  have still := strung.later leads
  have takes : Scan.Returns Scan.takeQuotedKey? after fun key? reached =>
      after.Idles reached ∧ key? = after.quotedKey := by
    apply (Scan.Idle.returns after).and
    constructor
    intro _ _ run
    cases run
    rfl
  apply Returns.lift_bind takes
  intro key? reached taken
  obtain ⟨idles, rfl⟩ := taken
  have safely := idles.safely leads.orderly
  cases key : after.quotedKey with
  | some label =>
      apply Returns.lift_bind (Scan.Idle.returns reached)
      intro span looked spanned
      apply Returns.lift_bind (Scan.Idle.returns looked)
      intro _ last reported
      apply returns_pure
      have later := (spanned.trans reported).safely safely.orderly
      exact ⟨id, rfl, (still.safely safely).safely later⟩
  | none =>
      have quoted : Quoted outcome (fun part => loose part ∨ state.Owns id part) known .string
          state next after := by
        cases read with
        | inl label =>
            rw [key] at label
            cases label.1
        | inr quoted => exact quoted
      have made := (quoted.string rfl).safely safely
      have left := still.safely safely
      have mine (part : NodeId) (owned : reached.Owns id part) : state.Owns id part :=
        strung.dissolves.owns (leads.lasts.trans safely.lasts) owned
      have joins : Scan.Returns (Scan.joinStrings id next) reached
          fun last joined => Strung outcome loose known base joined last := by
        apply Scan.joinStrings_leads left.dissolves (made.dissolves.since strung.leads.lasts)
        · intro part owned also
          obtain ⟨shape, settled, -⟩ := strung.dissolves.holds part (mine part owned)
          exact made.dissolves.new part also shape settled
        · exact holds
        · apply (made.since strung.leads).leads.relax
          intro part _ wide _
          cases wide with
          | inl isLoose => exact .inl (.inl isLoose)
          | inr owned => exact owned.imp_left fun owned => .inr (mine part owned)
      apply Returns.lift_bind joins
      intro last joined strung
      exact returns_pure ⟨last, rfl, strung⟩

theorem moreStrings_leads (holds : base.Holds loose) {first : NodeId}
    (start : state.quotedKey.isSome = true ∧ Leads outcome loose known base state True ∨
      Strung outcome loose known base state first) :
    Returns table (moreStrings first) state fun _ after =>
      Leads outcome loose known base after True := by
  unfold moreStrings stringTurn
  apply repeatUntil_returns fun node current =>
    current.quotedKey.isSome = true ∧ Leads outcome loose known base current True ∨
      Strung outcome loose known base current node
  · exact start
  · intro node current before
    apply Returns.get_bind
    split
    · apply returns_pure
      cases before with
      | inl label => exact label.2
      | inr strung => exact strung.tight
    · next noKey =>
        have strung : Strung outcome loose known base current node := by
          cases before with
          | inl label => exact absurd label.1 noKey
          | inr strung => exact strung
        have peeks : Returns table peekToken current
            (Peeked outcome (fun part => loose part ∨ current.Owns node part) known current) :=
          peekToken_leads strung.leads.orderly (strung.holds holds)
        apply peeks.bind
        intro token reached peeked
        have still := strung.later peeked.leads
        split
        · exact returns_pure still.tight
        · apply (skip_safely still.leads.orderly).bind
          intro _ taken took
          obtain ⟨_, took⟩ := took
          apply (nextString_leads holds (still.safely took.safely) token.span).mono
          intro turn after next
          obtain ⟨last, rfl, strung⟩ := next
          exact .inr strung

/-! ### Word lists -/

theorem word_upholds (element : LiteralKind) (start : Nat) :
    Upholds outcome table known (do
      let shape ← Scan.literalShape element (← literalParts) ""
      Scan.alloc shape (← spanSince start)) (outcome.Tagged (Scan.literalTags element)) := by
  intro loose state orderly holds
  have pieces : Returns table literalParts state fun parts after =>
      Leads outcome loose known state after True ∧ (∀ id ∈ Part.codes parts, after.Coded id) ∧
        ∃ token, after.lookahead = some token ∧ token.kind ≠ .variableInterpolation :=
    literalParts_leads orderly holds
  apply pieces.bind
  intro parts read literal
  obtain ⟨leads, coded, -⟩ := literal
  apply Returns.lift_bind (Scan.literalShape_makes leads.orderly coded element "")
  intro shape reached shaped
  obtain ⟨safely, made⟩ := shaped
  have leads := leads.safely safely
  have spans : Conforming outcome table known (spanSince start) := inferInstance
  apply spans.lead leads.orderly (holds.later leads.lasts)
  intro span spanned last still
  have made := made.later last.lasts
  apply (Scan.alloc_leads shape span last.orderly).mono
  intro item after adds
  have stored : Leads outcome loose known spanned after True := by
    apply adds.leads
    exact fun _ follows _ => made.conforms follows fun _ coded => coded.tight still
  exact (leads.next last).next (adds.tagged stored still made.kept made.single made.tagged)

theorem nextWord_upholds (element : LiteralKind) (start : Nat) {items : Array NodeId}
    (before : known → outcome.AllTagged (Scan.literalTags element) items) :
    Upholds outcome table known (do
      let shape ← Scan.literalShape element (← literalParts) ""
      return (Turn.again (items.push (← Scan.alloc shape (← spanSince start))) :
        Turn (Array NodeId) (Array NodeId × Span)))
      (Turn.Good (outcome.AllTagged (Scan.literalTags element))
        fun result => outcome.AllTagged (Scan.literalTags element) result.1) := by
  have split : (do
      let shape ← Scan.literalShape element (← literalParts) ""
      return (Turn.again (items.push (← Scan.alloc shape (← spanSince start))) :
        Turn (Array NodeId) (Array NodeId × Span)) : Parse _) = (do
      let shape ← Scan.literalShape element (← literalParts) ""
      Scan.alloc shape (← spanSince start)) >>= fun item => pure (.again (items.push item)) := by
    simp only [bind_assoc]
  rw [split]
  apply (word_upholds element start).bind
  intro item
  apply upholds_pure
  intro given
  exact (before given.2).push given.1

theorem gatherWords_upholds (element : LiteralKind) :
    Upholds outcome table known (repeatUntil #[] (wordTurn element)) fun result =>
      outcome.AllTagged (Scan.literalTags element) result.1 := by
  apply upholds_loop (outcome.AllTagged (Scan.literalTags element))
  · exact nofun
  · intro items
    apply Upholds.andThen
    intro token
    split
    · apply Upholds.andThen
      intro _
      exact upholds_pure fun given => given.2.2.1
    · apply Upholds.andThen
      intro _
      exact upholds_pure fun given => given.2.2.1
    · exact nextWord_upholds element _ fun given => given.2.1
    · exact nextWord_upholds element _ fun given => given.2.1
    · exact nextWord_upholds element _ fun given => given.2.1
    · apply Upholds.andThen
      intro _
      exact upholds_pure fun given => given.2.2.1

theorem words_upholds (element : LiteralKind) :
    Upholds outcome table known (words element) fun result =>
      ∀ item ∈ result.1, outcome.Tagged (Scan.literalTags element) item := by
  apply (gatherWords_upholds element).bind
  intro result
  exact upholds_pure fun given => given.1.toList

instance (kind : LiteralKind) : Conforming outcome table known (literal kind) := by
  constructor
  unfold literal
  apply Upholds.andThen
  intro opening
  split
  · apply (words_upholds .string).bind
    intro result
    apply upholds_lift
    apply Scan.alloc_upholds
    intro given
    exact .of_place rfl trivial rfl given.1
  · apply (words_upholds .symbol).bind
    intro result
    apply upholds_lift
    apply Scan.alloc_upholds
    intro given
    exact .of_place rfl trivial rfl given.1
  · intro loose state orderly holds
    have reads : Returns table (quoted opening.span .string) state fun id after =>
        after.quotedKey.isSome = true ∧
            Leads outcome loose (Judged.good outcome opening ∧ known) state after True ∨
          Quoted outcome loose (Judged.good outcome opening ∧ known) .string state id after :=
      quoted_leads orderly holds opening.span .string
    apply reads.bind
    intro first after read
    apply moreStrings_leads holds
    cases read with
    | inl label => exact .inl label
    | inr quoted => exact .inr (quoted.string rfl)
  · exact Conforming.upholds

end RubySyntax.Parse

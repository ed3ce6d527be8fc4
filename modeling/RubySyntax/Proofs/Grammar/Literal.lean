/-
Literals between delimiters and word lists.
-/

import RubySyntax.Proofs.Grammar.Basic
import RubySyntax.Proofs.Grammar.Piece

namespace RubySyntax

instance : HasHandles Part where
  handlesOf
    | .code node => [.node node]
    | .text .. => []

@[simp] theorem handlesOf_code (node : NodeId) : handlesOf (Part.code node) = [.node node] := rfl
@[simp] theorem handlesOf_text (bytes : Bytes) (span : Span) (lineHead : Bool) :
    handlesOf (Part.text bytes span lineHead) = [] := rfl

@[simp] theorem handlesOf_parts (parts : List Part) :
    handlesOf parts = handlesOf (Part.codes parts) := by
  induction parts with
  | nil => rfl
  | cons part parts ih =>
      rw [handlesOf_cons, ih]
      cases part <;> rfl

namespace Parse

open Scan (StringAlone LiteralRead)

variable {tables : Tables} {limit : Nat} {base state : State} {handles : List Handle}

/-! ### Single tokens -/

structure Atom (kind : TokenKind) (shape? : Option (Shape NodeId)) : Prop where
  more : shape?.isSome = true → kind ≠ .endOfInput
  variableShape : Scan.IsVariable kind → ∃ shape, shape? = some shape ∧ ¬shape.IsSymbol

def AtomRead (tables : Tables) (base : State) (handles : List Handle) (kind : TokenKind)
    (state : State) (shape? : Option (Shape NodeId)) (after : State) : Prop :=
  Held tables.stoppable base (handlesOf shape? ++ handles) after ∧ Still state after ∧
    Atom kind shape?

theorem leafAtom_ends (held : Held tables.stoppable base handles state) {kind : TokenKind}
    {shape : Shape NodeId} (empty : handlesOf shape = []) (atom : Atom kind (some shape)) :
    Ends tables (pure (some shape)) state (AtomRead tables base handles kind state) := by
  refine ends_pure ⟨?_, Still.refl state, atom⟩
  rw [handlesOf_some, empty]
  exact held

theorem noAtom_ends (held : Held tables.stoppable base handles state) {kind : TokenKind}
    (noVariable : ¬Scan.IsVariable kind) :
    Ends tables (pure none) state (AtomRead tables base handles kind state) :=
  ends_pure ⟨held, Still.refl state, nofun, fun isVariable => absurd isVariable noVariable⟩

theorem wordShape?_ends (held : Held tables.stoppable base handles state) (word : Keyword)
    (span : Span) :
    Ends tables (wordShape? word span) state
      (AtomRead tables base handles (.keyword word) state) := by
  cases word
  case nilWord | trueWord | falseWord | selfWord | redoWord | retryWord =>
    exact leafAtom_ends held rfl ⟨nofun, nofun⟩
  case fileWord | lineWord =>
    exact Ends.get_bind (leafAtom_ends held rfl ⟨nofun, nofun⟩)
  case encodingWord =>
    refine Ends.lift_bind (Scan.intern_builds held _) ?_
    rintro name interned ⟨held, still, -⟩
    exact ends_pure ⟨held.weaken (by simp +contextual [handlesOf]), still, nofun, nofun⟩
  all_goals exact noAtom_ends held id

theorem atomShape?_ends (held : Held tables.stoppable base handles state) (token : Token) :
    Ends tables (atomShape? token) state (AtomRead tables base handles token.kind state) := by
  obtain ⟨kind, span⟩ := token
  cases kind
  case integer | float | character | symbol =>
    exact leafAtom_ends held rfl ⟨nofun, nofun⟩
  case instanceVariable | classVariable | globalVariable | numberedReference | backReference =>
    exact leafAtom_ends held rfl ⟨nofun, fun _ => ⟨_, rfl, nofun⟩⟩
  case keyword word => exact wordShape?_ends held word span
  all_goals exact noAtom_ends held id

theorem variableNode_ends (calls : Meets tables limit) (sound : state.Sound tables.stoppable)
    (enough : 8 * state.measure < limit) (unseen : state.lookahead = none)
    (pending : state.lexer.variablePending = true) :
    Makes tables variableNode state fun id after => Owned after none id := by
  refine Ends.bind (peekToken_ends calls sound enough) ?_
  rintro token peeked ⟨held, seen, isVariable⟩
  have shorter := held.keeps.onward
  refine Ends.bind (atomShape?_ends held token) ?_
  rintro _ shaped ⟨held, still, atom⟩
  obtain ⟨shape, rfl, plain⟩ := atom.variableShape (isVariable unseen pending)
  refine (skip_ends held.sound ⟨token, still.lookahead.trans seen, atom.more rfl⟩).bind held ?_
  rintro _ skipped held - -
  refine (ends_lift (Scan.alloc_stores held (by simp +contextual) token.span)).mono ?_
  rintro id after ⟨made, -, rooted, stored⟩
  exact ⟨made.weaken (by simp), .of_stored stored held plain rooted⟩

/-! ### Pieces -/

theorem interpolatedCode_ends (calls : Meets tables limit)
    (sound : state.Sound tables.stoppable) (ahead : state.AtToken)
    (enough : 8 * state.measure ≤ limit) :
    Makes tables interpolatedCode state fun id after =>
      Owned after none id ∧ state.Past after := by
  obtain ⟨token, seen, more⟩ := ahead
  refine Ends.bind (take_ends sound seen more) ?_
  rintro opening taken ⟨held, -, less, -⟩
  refine (calls.statements taken held.sound (by omega)).bind held ?_
  rintro body read held made -
  have shorter := made.keeps.onward
  refine (expect_ends calls held.sound (by omega) (by simp)).bind held ?_
  rintro close closed held made -
  have later := made.keeps.onward
  refine (ends_lift (Scan.alloc_stores held (by simp +contextual) _)).mono ?_
  rintro id after ⟨made, still, rooted, stored⟩
  have calm := still.calm
  exact ⟨made.weaken (by simp), .of_stored stored held (by simp [Shape.IsSymbol]) rooted, by omega⟩

def BeginsPiece (kind : TokenKind) : Prop :=
  match kind with
  | .content .. | .interpolationBegin | .variableInterpolation => True
  | _ => False

theorem partTurn_ends (calls : Meets tables limit) {parts : Array Part}
    (held : Held tables.stoppable base (handlesOf parts) state)
    (loose : Loose state (Part.codes parts.toList)) (enough : 8 * state.measure < limit) :
    Ends tables (partTurn parts) state (Turned
      (fun parts after => Held tables.stoppable base (handlesOf parts) after ∧
        Loose after (Part.codes parts.toList))
      (fun parts after => Held tables.stoppable base (handlesOf parts) after ∧
        Loose after (Part.codes parts.toList) ∧
        ∃ token, after.lookahead = some token ∧ ¬BeginsPiece token.kind) state) := by
  refine (peekToken_ends calls held.sound enough).bind held ?_
  rintro token peeked held made ⟨seen, -⟩
  have before := made.keeps.onward
  have loose := loose.keeps made
  split
  case h_1 bytes lineHead kind =>
    refine (skip_ends held.sound ⟨token, seen, by simp [kind]⟩).bind held ?_
    rintro _ skipped held made ⟨past, -⟩
    refine ends_pure ⟨⟨held.weaken (by simp +contextual), ?_⟩, by omega⟩
    simpa using loose.keeps made
  case h_2 kind =>
    refine (interpolatedCode_ends calls held.sound ⟨token, seen, by simp [kind]⟩
      (by omega)).bind held ?_
    rintro node read held made ⟨owned, past⟩
    refine ends_pure ⟨⟨held.weaken (by simp +contextual [or_imp]), ?_⟩, by omega⟩
    simpa using loose.append made owned (owned.made made (by simp))
  case h_3 kind =>
    have pending := (held.sound.ahead token seen).pending kind
    refine (skip_ends held.sound ⟨token, seen, by simp [kind]⟩).bind held ?_
    rintro _ skipped held made ⟨past, unseen, lexer⟩
    have loose := loose.keeps made
    refine (variableNode_ends calls held.sound (by omega) unseen (lexer ▸ pending)).bind held ?_
    rintro node read held made owned
    have later := made.keeps.onward
    refine ends_pure ⟨⟨held.weaken (by simp +contextual [or_imp]), ?_⟩, by omega⟩
    simpa using loose.append made owned (owned.made made (by simp))
  case h_4 =>
    refine ends_pure ⟨held.weaken (by simp +contextual), loose, token, seen, fun begins => ?_⟩
    unfold BeginsPiece at begins
    split at begins <;> simp_all

/-- The code among the pieces belongs to none. If the token ahead starts a
piece, it is read. -/
theorem literalParts_ends (calls : Meets tables limit) (sound : state.Sound tables.stoppable)
    (enough : 8 * state.measure < limit) :
    Makes tables literalParts state fun parts after =>
      Loose after (Part.codes parts) ∧
        ∀ token, state.lookahead = some token → BeginsPiece token.kind →
          state.Past after := by
  refine Ends.bind (loop_ends (fun parts current =>
    Held tables.stoppable state (handlesOf parts) current ∧
      Loose current (Part.codes parts.toList)) sound ⟨Held.refl sound, Loose.nil⟩
    fun parts current made onward => partTurn_ends calls made.1 made.2 (by omega)) ?_
  rintro parts after ⟨held, loose, token, seen, stops⟩
  refine makes_pure held ⟨loose, fun first ahead begins => ?_⟩
  rcases held.keeps.progress first ahead with past | same
  · exact past
  · rw [seen] at same
    cases same
    exact absurd begins stops

/-! ### Literals -/

structure LiteralEnds (kind : LiteralKind) (id : NodeId) (after : State) : Prop where
  rooted : after.arena.Rooted id
  string : kind = .string → StringAlone after id ∨ after.quotedKey = some id

theorem literalNode_ends (held : Held tables.stoppable base handles state)
    {parts : List Part} (mine : ∀ id ∈ Part.codes parts, .node id ∈ handles)
    (loose : Loose state (Part.codes parts)) (kind : LiteralKind) (flags : String)
    (span : Span) :
    Ends tables (do Scan.alloc (← Scan.literalShape kind parts flags) span) state
      fun id after => Held tables.stoppable base (handlesOf id ++ handles) after ∧
        Still state after ∧ after.arena.Rooted id ∧
        (kind = .string → StringAlone after id) ∧ (kind = .symbol → after.arena.Quoted id) := by
  refine Ends.lift_bind (Scan.literalShape_builds held mine loose kind flags) ?_
  rintro shape shaped ⟨held, still, read⟩
  refine (ends_lift (Scan.alloc_stores held (by simp +contextual) span)).mono ?_
  rintro id after ⟨made, quiet, rooted, stored⟩
  refine ⟨made.weaken (by simp +contextual [or_imp]), still.trans quiet, rooted,
    fun string => .of_stored stored held rooted (read.string string), fun symbol => ?_⟩
  obtain ⟨node, found, same⟩ := stored.found
  exact ⟨node, found, same ▸ read.key symbol⟩

theorem quoted_ends (calls : Meets tables limit) (sound : state.Sound tables.stoppable)
    (enough : 8 * state.measure < limit) (opening : Span) (kind : LiteralKind) :
    Makes tables (quoted opening kind) state (LiteralEnds kind) := by
  refine Ends.bind (literalParts_ends calls sound enough) ?_
  rintro parts read ⟨held, loose, -⟩
  have shorter := held.keeps.onward
  refine (peekToken_ends calls held.sound (by omega)).bind held ?_
  rintro token peeked held made ⟨seen, -⟩
  have loose := loose.keeps made
  dsimp only
  split
  case h_1 flags kind' =>
    refine (skip_ends held.sound ⟨token, seen, by simp [kind']⟩).bind held ?_
    rintro _ skipped held made -
    refine Ends.mono (literalNode_ends held (by simp +contextual) (loose.keeps made) kind _ _) ?_
    rintro id after ⟨held, -, rooted, string, -⟩
    exact ⟨held.weaken (by simp), rooted, fun same => .inl (string same)⟩
  case h_2 label =>
    refine (skip_ends held.sound ⟨token, seen, by simp [label]⟩).bind held ?_
    rintro _ skipped held made -
    refine Ends.lift_bind (Scan.literalShape_builds held (by simp +contextual)
      (loose.keeps made) .symbol "") ?_
    rintro shape shaped ⟨held, -, read⟩
    refine Ends.lift_bind (Scan.alloc_stores held (by simp +contextual) _) ?_
    rintro key stored ⟨held, -, rooted, placed⟩
    obtain ⟨node, found, same⟩ := placed.found
    have waits : stored.arena.Quoted key := ⟨node, found, same ▸ read.key rfl⟩
    have fresh := (held.valid (.node key) (by simp)).2
    refine Ends.modify_bind (makes_pure ((held.setKey (some key) ?_).weaken (by simp))
      ⟨rooted, fun _ => .inr rfl⟩)
    rintro _ ⟨⟩
    exact ⟨waits, fresh⟩
  case h_3 =>
    refine Ends.lift_bind (Scan.unexpected_builds (Held.refl held.sound) token _) ?_
    rintro _ reported ⟨made, -⟩
    refine Ends.mono (literalNode_ends (held.trans made) (by simp +contextual)
      (loose.keeps made) kind _ _) ?_
    rintro id after ⟨held, -, rooted, string, -⟩
    exact ⟨held.weaken (by simp), rooted, fun same => .inl (string same)⟩

theorem wordTurn_ends (calls : Meets tables limit) {items : Array NodeId}
    (held : Held tables.stoppable base (handlesOf items) state)
    (enough : 8 * state.measure < limit) (element : LiteralKind) :
    Ends tables (wordTurn element items) state (TurnHeld tables.stoppable base state) := by
  refine (peekToken_ends calls held.sound enough).bind held ?_
  rintro token peeked held made ⟨seen, -⟩
  have before := made.keeps.onward
  split
  case h_1 kind =>
    refine (skip_ends held.sound ⟨token, seen, by simp [kind]⟩).bind held ?_
    rintro _ skipped held made ⟨past, -⟩
    exact ends_pure ⟨held.weaken (by simp +contextual), by omega⟩
  case h_2 kind =>
    refine (skip_ends held.sound ⟨token, seen, by simp [kind]⟩).bind held ?_
    rintro _ skipped held made -
    exact ends_pure (held.weaken (by simp +contextual))
  case h_3 kind | h_4 kind | h_5 kind =>
    have begins : BeginsPiece token.kind := by
      rw [kind]
      trivial
    refine (literalParts_ends calls held.sound (by omega)).bind held ?_
    rintro parts read held - ⟨loose, progress⟩
    have past := progress token seen begins
    refine Ends.lift_bind (Scan.literalShape_builds held (by simp +contextual) loose element "") ?_
    rintro shape shaped ⟨held, still, -⟩
    have calm := still.calm
    refine Ends.spanSince_bind fun span => ?_
    refine Ends.lift_bind (Scan.alloc_ends held (by simp +contextual) span) ?_
    rintro id stored ⟨held, quiet, -⟩
    have silent := quiet.calm
    exact ends_pure ⟨held.weaken (by simp +contextual [or_imp]), by omega⟩
  case h_6 =>
    refine Ends.lift_bind (Scan.unexpected_builds held token _) ?_
    rintro _ reported ⟨held, -⟩
    exact ends_pure (held.weaken (by simp +contextual))

theorem words_ends (calls : Meets tables limit) (sound : state.Sound tables.stoppable)
    (enough : 8 * state.measure < limit) (element : LiteralKind) :
    Makes tables (words element) state fun _ _ => True :=
  Ends.bind (loop_makes sound rfl fun _ _ held onward =>
    wordTurn_ends calls held (by omega) element) fun (_, _) _ made => makes_pure made.1 trivial

def Joinable (state : State) (node : NodeId) : Prop :=
  StringAlone state node ∨ state.quotedKey = some node

theorem Joinable.rooted {strict : Prop} {node : NodeId} (joinable : Joinable state node)
    (sound : state.Sound strict) : state.arena.Rooted node := by
  rcases joinable with alone | key
  · exact alone.owned.rooted
  · have quoted := sound.key node key
    exact ⟨⟨quoted.choose, quoted.choose_spec.1⟩, .inr quoted⟩

theorem stringTurn_ends (calls : Meets tables limit) {node : NodeId}
    (held : Held tables.stoppable base (handlesOf node) state) (joinable : Joinable state node)
    (enough : 8 * state.measure < limit) :
    Ends tables (stringTurn node) state (Turned
      (fun node after => Held tables.stoppable base (handlesOf node) after ∧
        Joinable after node)
      (fun node after => Held tables.stoppable base (handlesOf node) after ∧
        after.arena.Rooted node) state) := by
  refine Ends.get_bind (Ends.ite (fun _ => ends_pure ⟨held, joinable.rooted held.sound⟩)
    fun noKey => ?_)
  have alone : StringAlone state node :=
    joinable.resolve_right fun key => noKey (by rw [key]; rfl)
  refine (peekToken_ends calls held.sound enough).bind held ?_
  rintro token peeked held made ⟨seen, -⟩
  have before := made.keeps.onward
  have alone := alone.keeps made
  refine Ends.ite (fun _ => ends_pure ⟨held.weaken (by simp), alone.owned.rooted⟩)
    fun string => ?_
  have string : token.kind = .literalBegin .string := by simpa using string
  refine (skip_ends held.sound ⟨token, seen, by simp [string]⟩).bind held ?_
  rintro _ skipped held made ⟨past, -⟩
  have alone := alone.keeps made
  refine (quoted_ends calls held.sound (by omega) token.span .string).bind held ?_
  rintro next read held made ended
  have later := made.keeps.onward
  have different : node ≠ next := by
    rintro rfl
    exact alone.owned.not_key made.start ((made.valid (.node node) (by simp)).2
      alone.owned.live)
  have alone := alone.keeps made
  refine Ends.lift_bind (Scan.takeQuotedKey?_builds (Held.refl held.sound)) ?_
  rintro label? taken ⟨made, still, -, key, -⟩
  have calm := still.calm
  have held := held.trans made
  have alone := alone.keeps made
  cases label? with
  | some label =>
      refine Ends.look_bind (Scan.spanOf_looks (held.live (by simp))) fun span _ => ?_
      refine Ends.lift_bind (Scan.report_builds (Held.refl held.sound) span _) ?_
      rintro _ reported ⟨made, quiet, -⟩
      have silent := quiet.calm
      exact ends_pure ⟨⟨(held.trans made).weaken (by simp), .inl (alone.keeps made)⟩, by omega⟩
  | none =>
      have second : StringAlone read next :=
        (ended.string rfl).resolve_right (by simp [← key])
      refine Ends.lift_bind (Scan.joinStrings_ends (held.weaken (by simp)) different alone
        (second.keeps made)) ?_
      rintro joined last ⟨held, quiet, alone⟩
      have silent := quiet.calm
      exact ends_pure ⟨⟨held, .inl alone⟩, by omega⟩

/-- Strings are joined until one is a label, or no string follows. -/
theorem moreStrings_ends (calls : Meets tables limit) {first : NodeId}
    (held : Held tables.stoppable base (handlesOf first) state) (joinable : Joinable state first)
    (enough : 8 * state.measure < limit) :
    Ends tables (moreStrings first) state fun id after =>
      Held tables.stoppable base (handlesOf id) after ∧ after.arena.Rooted id :=
  loop_ends (fun node current => Held tables.stoppable base (handlesOf node) current ∧
    Joinable current node) held.sound ⟨held, joinable⟩ fun _ _ made onward =>
      stringTurn_ends calls made.1 made.2 (by omega)

theorem literal_ends (calls : Meets tables limit) (sound : state.Sound tables.stoppable)
    (ahead : state.AtToken) (enough : 8 * state.measure ≤ limit) (kind : LiteralKind) :
    Makes tables (literal kind) state fun id after => after.arena.Rooted id := by
  obtain ⟨token, seen, more⟩ := ahead
  refine Ends.bind (take_ends sound seen more) ?_
  rintro opening taken ⟨held, -, less, -⟩
  dsimp only
  split
  case h_1 | h_2 =>
    refine (words_ends calls held.sound (by omega) _).bind held ?_
    rintro ⟨items, close⟩ read held - -
    exact (extends_lift (Scan.alloc_ends held (by simp +contextual) _)).makes
      fun _ _ _ rooted => rooted
  case h_3 =>
    refine (quoted_ends calls held.sound (by omega) opening.span .string).bind held ?_
    rintro first read held made ended
    have shorter := made.keeps.onward
    exact moreStrings_ends calls (held.weaken (by simp)) (ended.string rfl) (by omega)
  case h_4 =>
    exact ((quoted_ends calls held.sound (by omega) opening.span _).extends held).makes
      fun _ _ _ ended => ended.rooted

end Parse

end RubySyntax

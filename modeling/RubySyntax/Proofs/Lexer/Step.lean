/-
The single steps of the lexer: what each of them does to what is left to be
read.
-/

import RubySyntax.Proofs.Lexer.Basic

namespace RubySyntax

/-! ### Moving on and changing the state of the lexer -/

/-- A change of the lexer that opens no more than has been read before it. -/
theorem Lexed.setLexer {base state : State} (lexing : base.Lexing) (lexed : Lexed base state)
    {lexer : LexerState}
    (remaining : 2 * state.input.unread + lexer.weight ≤ base.remaining)
    (awaited : lexer.awaited = base.lexer.awaited)
    (idle : lexer.variablePending = false)
    (regexp : ∀ literal, lexer.literal = some (.quotation literal) →
      literal.kind = .regexp → state.input.position ≤ state.input.bytes.size) :
    Lexed base { state with lexer } where
  lexing :=
    { input := lexed.lexing.input
      map := lexed.lexing.map
      pendingVariable := fun pending => by rw [idle] at pending; cases pending
      regexp
      turns := by
        have turns := lexing.turns
        rw [← lexed.limits] at turns
        exact Nat.le_trans (Nat.add_le_add_right remaining 65) turns
      idle }
  arena := lexed.arena
  quotedKey := lexed.quotedKey
  lookahead := lexed.lookahead
  limits := lexed.limits
  tokens := lexed.tokens
  names := lexed.names
  awaited
  remaining

namespace State

variable {state : State}

theorem Lexing.setLexer (lexing : state.Lexing) {lexer : LexerState}
    (weight : lexer.weight ≤ state.lexer.weight)
    (awaited : lexer.awaited = state.lexer.awaited)
    (idle : lexer.variablePending = false)
    (regexp : ∀ literal, lexer.literal = some (.quotation literal) →
      literal.kind = .regexp → state.input.position ≤ state.input.bytes.size) :
    Lexed state { state with lexer } :=
  Lexed.setLexer lexing (Lexed.refl lexing) (Nat.add_le_add_left weight _) awaited idle
    regexp

theorem Lexing.setFlags (lexing : state.Lexing) {lexer : LexerState}
    (literal : lexer.literal = state.lexer.literal)
    (contexts : lexer.contexts = state.lexer.contexts)
    (heredocs : lexer.heredocs = state.lexer.heredocs)
    (due : lexer.heredocsDue = state.lexer.heredocsDue)
    (pending : lexer.variablePending = state.lexer.variablePending) :
    Lexed state { state with lexer } := by
  refine lexing.setLexer ?_ ?_ ?_ ?_
  · unfold LexerState.weight
    exact Nat.le_of_eq (by rw [literal, contexts, heredocs, due])
  · unfold LexerState.awaited
    rw [heredocs]
  · rw [pending]
    exact lexing.idle
  · rw [literal]
    exact lexing.regexp

/-- Moving on, by one byte past the end at most and never so in a regexp. -/
theorem Lexing.advance_past (lexing : state.Lexing) {distance : Nat}
    (sound : (state.input.advance distance).Sound)
    (regexp : ∀ literal, state.lexer.literal = some (.quotation literal) →
      literal.kind = .regexp → distance ≤ state.input.rest.length) :
    Lexed state { state with input := state.input.advance distance } := by
  have unread := Input.unread_advance state.input distance
  have shorter : ({ state with input := state.input.advance distance } : State).remaining ≤
      state.remaining := by
    unfold remaining
    dsimp only
    omega
  exact
    { lexing :=
        { input := sound
          map := lexing.map
          pendingVariable := fun pending => by
            change state.lexer.variablePending = true at pending
            rw [lexing.idle] at pending
            cases pending
          regexp := fun literal opened kind => by
            have inside := lexing.regexp literal opened kind
            have enough := regexp literal opened kind
            have size := lexing.input.size
            change state.input.position + distance ≤ state.input.bytes.size
            omega
          turns := Nat.le_trans (Nat.add_le_add_right shorter 65) lexing.turns
          idle := lexing.idle }
      arena := rfl
      quotedKey := rfl
      lookahead := rfl
      limits := rfl
      tokens := Nat.le_refl _
      names := Nat.le_refl _
      awaited := rfl
      remaining := shorter }

theorem Lexing.advance (lexing : state.Lexing) {distance : Nat}
    (enough : distance ≤ state.input.rest.length) :
    Lexed state { state with input := state.input.advance distance } :=
  lexing.advance_past (lexing.input.advance enough) fun _ _ _ => enough

/-- Moving on by a number of bytes leaves twice that less. -/
theorem remaining_advance (state : State) {distance : Nat}
    (enough : distance ≤ state.input.rest.length) :
    ({ state with input := state.input.advance distance } : State).remaining +
      2 * distance = state.remaining := by
  have unread := Input.unread_advance state.input distance
  unfold remaining
  change 2 * (state.input.advance distance).unread + state.lexer.weight + 2 * distance = _
  omega

end State

structure Passed (before : State) (distance : Nat) (after : State) : Prop
    extends Lexed before after where
  bytes : after.input.bytes = before.input.bytes
  position : after.input.position = before.input.position + distance
  shorter : after.remaining + 2 * distance ≤ before.remaining

namespace Passed

variable {before middle after : State} {first second : Nat}

theorem trans (left : Passed before first middle) (right : Passed middle second after) :
    Passed before (first + second) after where
  toLexed := left.toLexed.trans right.toLexed
  bytes := right.bytes.trans left.bytes
  position := by
    rw [right.position, left.position, Nat.add_assoc]
  shorter := by
    have earlier := left.shorter
    have later := right.shorter
    omega

theorem rest (passed : Passed before first after) (lexing : before.Lexing) :
    after.input.rest = before.input.rest.drop first := by
  rw [passed.lexing.input.rest, lexing.input.rest, passed.bytes, passed.position,
    List.drop_drop]

theorem inside (passed : Passed before first after) (lexing : before.Lexing)
    (some : 0 < before.input.rest.length) (enough : first ≤ before.input.rest.length) :
    after.input.position ≤ after.input.bytes.size := by
  rw [passed.position, passed.bytes]
  exact lexing.input.inside some enough

theorem of_setLexer {lexer : LexerState} (lexed : Lexed before { before with lexer }) :
    Passed before 0 { before with lexer } :=
  ⟨lexed, rfl, rfl, lexed.remaining⟩

theorem of_silent (silent : Silent before after) (lexing : before.Lexing) :
    Passed before 0 after where
  toLexed := silent.lexed lexing
  bytes := by rw [silent.input]
  position := by rw [silent.input, Nat.add_zero]
  shorter := Nat.le_of_eq silent.remaining

theorem silent (passed : Passed before first middle) (silent : Silent middle after) :
    Passed before first after :=
  passed.trans (of_silent silent passed.lexing)

end Passed

namespace Report

theorem deliver_map (report : Report) (diagnostic : Diagnostic) :
    (report.deliver diagnostic).map = report.map := by
  unfold deliver
  split
  · dsimp only
    split
    · split <;> rfl
    · split <;> rfl
  · rfl

theorem add_map (report : Report) (span : Span) (problem : Problem) :
    (report.add span problem).map = report.map := by
  unfold add
  dsimp only
  split <;> exact deliver_map report _

end Report

namespace Input

theorem unread_ask (input : Input) :
    input.ask.unread +
      (input.answers.head?.map fun answer =>
        1 + (answer.map (·.bytes.length)).getD 0).getD 0 = input.unread := by
  unfold ask unread
  cases input.answers with
  | nil => rfl
  | cons answer answers =>
      simp only [List.tail_cons, List.head?_cons, Option.map_some, Option.getD_some,
        List.foldr_cons]
      omega

theorem unread_ask_of_chunk {input : Input} {chunk : Chunk}
    (answer : input.answers.head?.join = some chunk) :
    input.ask.unread + 1 + chunk.bytes.length = input.unread := by
  have unread := unread_ask input
  cases first : input.answers.head? with
  | none => rw [first] at answer; cases answer
  | some given =>
      rw [first] at answer unread
      change given = some chunk at answer
      rw [answer] at unread
      simp only [Option.map_some, Option.getD_some] at unread
      omega

theorem Sound.append {input : Input} (sound : input.Sound) (bytes : Bytes) :
    (input.append bytes).rest = (input.append bytes).bytes.toList.drop input.position := by
  have size := sound.size
  unfold Input.append
  simp only [Array.appendList_eq_append, Array.toList_appendList, List.drop_append,
    Array.length_toList]
  split
  · next inside =>
      rw [sound.rest, Nat.sub_eq_zero_of_le inside, List.drop_zero]
  · next outside =>
      have passed : input.bytes.toList.drop input.position = [] :=
        List.drop_eq_nil_of_le (by rw [Array.length_toList]; omega)
      rw [passed, List.nil_append]

theorem unread_append (input : Input) (bytes : Bytes) :
    (input.append bytes).unread ≤ input.unread + bytes.length := by
  have longer : (input.append bytes).rest.length ≤ input.rest.length + bytes.length := by
    unfold Input.append
    split
    · exact Nat.le_of_eq (List.length_append)
    · rw [List.length_drop]
      omega
  unfold unread
  change (input.append bytes).rest.length +
    input.answers.foldr (fun answer later =>
      1 + (answer.map (·.bytes.length)).getD 0 + later) 0 ≤ _
  omega

end Input

namespace Scan

variable {state : State}

/-! ### Moving on -/

theorem advance_passed (lexing : state.Lexing) {distance : Nat}
    (enough : distance ≤ state.input.rest.length) :
    Passed state distance { state with input := state.input.advance distance } where
  toLexed := lexing.advance enough
  bytes := rfl
  position := rfl
  shorter := Nat.le_of_eq (state.remaining_advance enough)

theorem advance_ends (lexing : state.Lexing) {distance : Nat}
    (enough : distance ≤ state.input.rest.length) :
    Ends (advance distance) state fun _ after => Passed state distance after :=
  ends_modify (advance_passed lexing enough)

theorem advance_past_ends (lexing : state.Lexing) {distance : Nat}
    (within : state.input.position ≤ state.input.bytes.size)
    (enough : distance ≤ state.input.rest.length + 1)
    (regexp : ∀ literal, state.lexer.literal = some (.quotation literal) →
      literal.kind = .regexp → distance ≤ state.input.rest.length) :
    Ends (advance distance) state fun _ after =>
      Lexed state after ∧ after.lexer = state.lexer ∧
        after.input.position = state.input.position + distance ∧
        after.input.bytes = state.input.bytes ∧
        after.remaining + 2 * min distance state.input.rest.length = state.remaining := by
  refine ends_modify ⟨lexing.advance_past (lexing.input.advance_past within enough) regexp,
    rfl, rfl, rfl, ?_⟩
  have unread := Input.unread_advance state.input distance
  unfold State.remaining
  dsimp only
  omega

theorem setFlags_ends (lexing : state.Lexing) {f : LexerState → LexerState}
    (literal : (f state.lexer).literal = state.lexer.literal)
    (contexts : (f state.lexer).contexts = state.lexer.contexts)
    (heredocs : (f state.lexer).heredocs = state.lexer.heredocs)
    (due : (f state.lexer).heredocsDue = state.lexer.heredocsDue)
    (pending : (f state.lexer).variablePending = state.lexer.variablePending) :
    Ends (setLexer f) state fun _ after => Passed state 0 after := by
  have lexed := lexing.setFlags literal contexts heredocs due pending
  exact ends_modify (Passed.of_setLexer lexed)

theorem setLiteral_ends (lexing : state.Lexing) (literal : Option OpenLiteral)
    (weight : OpenLiteral.headWeight literal = 0)
    (regexp : ∀ quotation, literal = some (.quotation quotation) →
      quotation.kind = .regexp → state.input.position ≤ state.input.bytes.size) :
    Ends (setLiteral literal) state fun _ after =>
      Passed state 0 after ∧ after.lexer = { state.lexer with literal } ∧
        after.remaining + OpenLiteral.headWeight state.lexer.literal = state.remaining := by
  have lexed : Lexed state { state with lexer := { state.lexer with literal } } :=
    lexing.setLexer (by unfold LexerState.weight; dsimp only; omega)
      rfl lexing.idle regexp
  refine ends_modify ⟨Passed.of_setLexer lexed, rfl, ?_⟩
  unfold State.remaining LexerState.weight
  dsimp only
  omega

theorem setMode_ends (lexing : state.Lexing) (mode : Mode) :
    Ends (setMode mode) state fun _ after => Passed state 0 after :=
  setFlags_ends lexing rfl rfl rfl rfl rfl

/-! ### Reports and names -/

theorem report_ends (reads : state.Reads) (span : Span) (problem : Problem) :
    Ends (report span problem) state fun _ after => Silent state after := by
  refine Ends.get_bind ?_
  refine Ends.relyOn_bind (reads.map.canLocate span.start) ?_
  exact ends_modify ⟨rfl, rfl, Report.add_map _ _ _, rfl, rfl, rfl, rfl, rfl, Nat.le_refl _⟩

theorem intern_known (table : SymbolTable) (name : Bytes) :
    (table.intern name).2.Knows (table.intern name).1 ∧
      table.size ≤ (table.intern name).2.size := by
  unfold SymbolTable.Knows SymbolTable.size
  cases found : table.find? name with
  | some symbol =>
      rw [SymbolTable.intern_of_find?_eq_some found]
      have named := (table.inverse name symbol).mp found
      exact ⟨(Array.getElem?_eq_some_iff.mp named).1, Nat.le_refl _⟩
  | none =>
      obtain ⟨issued, names⟩ := SymbolTable.intern_of_find?_eq_none found
      rw [issued, names, Array.size_push]
      exact ⟨Nat.lt_succ_self _, Nat.le_succ _⟩

theorem intern_ends (name : Bytes) :
    Ends (intern name) state fun symbol after =>
      Silent state after ∧ after.symbols.Knows symbol := by
  obtain ⟨known, grown⟩ := intern_known state.symbols name
  exact ends_modifyGet ⟨⟨rfl, rfl, rfl, rfl, rfl, rfl, rfl, rfl, grown⟩, known⟩

section

variable {α : Type} {next : Unit → Scan α} {post : α → State → Prop}

theorem Ends.checkRange_bind {start stop : Nat} (ordered : start ≤ stop)
    (inside : stop ≤ state.input.bytes.size) (ends : Ends (next ()) state post) :
    Ends (checkRange start stop >>= next) state post := by
  have covered := Input.covers_of_le ordered inside
  have checked : Ends (checkRange start stop) state fun _ after => state = after := by
    refine Ends.get_bind ?_
    unfold relyOn
    rw [if_pos covered]
    exact ends_pure rfl
  exact checked.bind fun _ _ same => same ▸ ends

theorem Ends.checkByte_bind {place : Nat} (inside : place < state.input.bytes.size)
    (ends : Ends (next ()) state post) : Ends (checkByte place >>= next) state post :=
  Ends.checkRange_bind (Nat.le_succ place) inside ends

theorem Ends.position_bind {next : Nat → Scan α}
    (ends : Ends (next state.input.position) state post) :
    Ends (position >>= next) state post :=
  ends

theorem Ends.peek_bind {next : Char → Scan α}
    (ends : Ends (next state.input.peek) state post) : Ends (peek >>= next) state post :=
  ends

end

theorem token_ends (kind : TokenKind) (start : Nat) :
    Ends (token kind start) state fun result after =>
      result.kind = kind ∧ after = state :=
  ⟨rfl, rfl, rfl⟩

theorem internFrom_ends (reads : state.Reads) {start : Nat} (what : Truncated)
    (ordered : start ≤ state.input.position)
    (inside : state.input.position ≤ state.input.bytes.size) :
    Ends (internFrom start what) state fun symbol after =>
      Silent state after ∧ after.symbols.Knows symbol := by
  refine Ends.get_bind ?_
  refine Ends.checkRange_bind ordered inside ?_
  refine Ends.ite (fun _ => intern_ends _) fun _ => ?_
  refine (report_ends reads _ _).bind fun _ reported silent => ?_
  exact (intern_ends _).mono fun symbol after interned =>
    ⟨silent.trans interned.1, interned.2⟩

/-! ### More input -/

theorem ask_lexed (lexing : state.Lexing) :
    Lexed state { state with input := state.input.ask } := by
  have unread := Input.unread_ask state.input
  have turns := lexing.turns
  have shorter : ({ state with input := state.input.ask } : State).remaining ≤
      state.remaining := by
    unfold State.remaining
    dsimp only
    omega
  exact
    { lexing :=
        { input := ⟨lexing.input.rest, lexing.input.position⟩
          map := lexing.map
          pendingVariable := lexing.pendingVariable
          regexp := lexing.regexp
          turns := Nat.le_trans (Nat.add_le_add_right shorter 65) turns
          idle := lexing.idle }
      arena := rfl
      quotedKey := rfl
      lookahead := rfl
      limits := rfl
      tokens := Nat.le_refl _
      names := Nat.le_refl _
      awaited := rfl
      remaining := shorter }

/-- A chunk of bytes puts the position back inside the input. -/
theorem append_lexed (lexing : state.Lexing) {bytes : Bytes} (report : Report)
    (map : report.map.Sound) (some : 0 < bytes.length)
    (shorter : (state.input.ask.append bytes).unread ≤ state.input.unread) :
    Lexed state { state with input := state.input.ask.append bytes, report } ∧
      state.input.bytes.size < (state.input.ask.append bytes).bytes.size ∧
      state.input.position ≤ (state.input.ask.append bytes).bytes.size := by
  have asked := ask_lexed lexing
  have turns := lexing.turns
  have inRange := lexing.input.position
  have size : (state.input.ask.append bytes).bytes.size =
      state.input.bytes.size + bytes.length := by
    simp [Input.append, Input.ask, ← Array.length_toList]
  have remaining : ({ state with
      input := state.input.ask.append bytes, report } : State).remaining ≤
      state.remaining := by
    unfold State.remaining
    dsimp only
    omega
  have inside : state.input.position ≤ (state.input.ask.append bytes).bytes.size := by
    omega
  refine ⟨?_, by omega, inside⟩
  exact
    { lexing :=
        { input := ⟨asked.lexing.input.append bytes, Nat.le_succ_of_le inside⟩
          map
          pendingVariable := fun pending => by
            change state.lexer.variablePending = true at pending
            rw [lexing.idle] at pending
            cases pending
          regexp := fun _ _ _ => inside
          turns := Nat.le_trans (Nat.add_le_add_right remaining 65) turns
          idle := lexing.idle }
      arena := rfl
      quotedKey := rfl
      lookahead := rfl
      limits := rfl
      tokens := Nat.le_refl _
      names := Nat.le_refl _
      awaited := rfl
      remaining }

/-- Asking for more input leaves the bytes at hand alone. An answer with bytes
makes what is left shorter, because the answer itself is used up. -/
theorem fetchMore_ends (lexing : state.Lexing) :
    Ends fetchMore state fun found after =>
      Lexed state after ∧ after.lexer = state.lexer ∧
        after.input.position = state.input.position ∧
        if found then
          after.remaining + 2 ≤ state.remaining ∧
            state.input.bytes.size < after.input.bytes.size ∧
            after.input.position ≤ after.input.bytes.size
        else
          after.input.rest = state.input.rest ∧ after.input.bytes = state.input.bytes := by
  refine Ends.get_bind (Ends.relyOn_bind lexing.map.knowsFile (ends_modifyGet ?_))
  have asked := ask_lexed lexing
  cases answer : state.input.answers.head?.join with
  | none => exact ⟨asked, rfl, rfl, rfl, rfl⟩
  | some chunk =>
      dsimp only
      split
      · exact ⟨asked, rfl, rfl, rfl, rfl⟩
      · next filled =>
          have unread := Input.unread_ask_of_chunk answer
          have longer := Input.unread_append state.input.ask chunk.bytes
          have positive : 0 < chunk.bytes.length := by
            cases listed : chunk.bytes with
            | nil => rw [listed] at filled; simp at filled
            | cons => simp
          obtain ⟨lexed, grown, inside⟩ := append_lexed lexing
            ({ state.report with
              map := state.report.map.addChunk state.input.ask.bytes.size chunk.bytes
                chunk.fileName 1 })
            (lexing.map.addChunk _ _ _ _) positive (by omega)
          refine ⟨lexed, rfl, rfl, ?_, grown, inside⟩
          unfold State.remaining
          dsimp only
          omega

/-- Whether there is a byte to read. If bytes had to be fetched, less is left
than before. -/
theorem hasMore_ends (lexing : state.Lexing) :
    Ends hasMore state fun found after =>
      Lexed state after ∧ after.lexer = state.lexer ∧
        after.input.position = state.input.position ∧
        state.input.bytes.size ≤ after.input.bytes.size ∧
        if found then
          after.input.position ≤ after.input.bytes.size ∧
            (state.input.position ≤ state.input.bytes.size →
              0 < after.input.rest.length) ∧
            (after = state ∧ 0 < state.input.rest.length ∨
              after.remaining + 2 ≤ state.remaining)
        else after.input.rest = [] := by
  refine Ends.get_bind (Ends.ite (fun ended => ?_) fun more => ?_)
  · refine (fetchMore_ends lexing).mono fun found after fetched => ?_
    obtain ⟨lexed, same, position, result⟩ := fetched
    cases found with
    | true =>
        obtain ⟨shorter, grown, inside⟩ := result
        refine ⟨lexed, same, position, Nat.le_of_lt grown, inside, fun within => ?_,
          .inr shorter⟩
        rw [lexed.lexing.input.size, position]
        omega
    | false =>
        refine ⟨lexed, same, position, Nat.le_of_eq (by rw [result.2]), ?_⟩
        exact result.1.trans (List.isEmpty_iff.mp ended)
  · have some : 0 < state.input.rest.length := by
      cases listed : state.input.rest with
      | nil => rw [Input.atEnd, listed] at more; exact absurd rfl more
      | cons => simp
    have inside := lexing.input.inside some (Nat.zero_le _)
    exact ends_pure ⟨Lexed.refl lexing, rfl, rfl, Nat.le_refl _, inside, fun _ => some,
      .inl ⟨rfl, some⟩⟩

theorem forM_silent {α : Type} (items : List α) (step : α → Scan Unit)
    (silent : ∀ item state, State.Reads state →
      Ends (step item) state fun _ after => Silent state after) :
    ∀ {state : State}, state.Reads →
      Ends (items.forM step) state fun _ after => Silent state after := by
  induction items with
  | nil => exact fun {state} _ => ends_pure (Silent.refl state)
  | cons item items ih =>
      intro state reads
      refine (silent item state reads).bind fun _ reached first => ?_
      exact (ih (first.reads reads)).mono fun _ _ second => first.trans second

end Scan

theorem Scan.token_gives {before state : State} (lexed : Lexed before state)
    (less : state.remaining < before.remaining) {kind : TokenKind}
    (known : ∀ name ∈ kind.names, state.symbols.Knows name) (plain : kind.Plain)
    (start : Nat) :
    Ends (token kind start) state fun result after => Gives before result after := by
  refine (token_ends kind start).mono ?_
  rintro result after ⟨same, rfl⟩
  rw [← same] at known plain
  exact ⟨lexed, known, .inr less, plain⟩

theorem Passed.less {before after : State} {distance : Nat}
    (passed : Passed before distance after) (some : 0 < distance) :
    after.remaining < before.remaining := by
  have shorter := passed.shorter
  omega

structure Begun (base state : State) : Prop extends Lexed base state where
  less : state.remaining < base.remaining
  inside : state.input.position ≤ state.input.bytes.size

namespace Begun

open Scan

variable {base state reached : State}

theorem passed {distance : Nat} (begun : Begun base state)
    (passed : Passed state distance reached) (enough : distance ≤ state.input.rest.length) :
    Begun base reached where
  toLexed := begun.toLexed.trans passed.toLexed
  less := Nat.lt_of_le_of_lt passed.remaining begun.less
  inside := by
    have size := begun.lexing.input.size
    have inside := begun.inside
    rw [passed.position, passed.bytes]
    omega

theorem silent (begun : Begun base state) (silent : Silent state reached) :
    Begun base reached :=
  begun.passed (Passed.of_silent silent begun.lexing) (Nat.zero_le _)

theorem advance (begun : Begun base state) {distance : Nat}
    (enough : distance ≤ state.input.rest.length) :
    Ends (advance distance) state fun _ after => Begun base after :=
  (advance_ends begun.lexing enough).mono fun _ _ step => begun.passed step enough

theorem setMode (begun : Begun base state) (mode : Mode) :
    Ends (setMode mode) state fun _ after => Begun base after :=
  (setMode_ends begun.lexing mode).mono fun _ _ set => begun.passed set (Nat.zero_le _)

theorem report (begun : Begun base state) (span : Span) (problem : Problem) :
    Ends (report span problem) state fun _ after => Begun base after :=
  (report_ends begun.lexing.toReads span problem).mono fun _ _ silent => begun.silent silent

theorem token (begun : Begun base state) {kind : TokenKind}
    (known : ∀ name ∈ kind.names, state.symbols.Knows name) (plain : kind.Plain)
    (start : Nat) :
    Ends (token kind start) state fun result after => Gives base result after :=
  token_gives begun.toLexed begun.less known plain start

end Begun

theorem Scan.begun_ends {state : State} (lexing : state.Lexing) {distance : Nat}
    (some : 0 < distance) (enough : distance ≤ state.input.rest.length) :
    Ends (advance distance) state fun _ after =>
      Begun state after ∧ after.input.rest = state.input.rest.drop distance ∧
        after.input.position = state.input.position + distance := by
  refine (advance_ends lexing enough).mono fun _ after step => ?_
  refine ⟨⟨step.toLexed, step.less some, step.inside lexing ?_ enough⟩, step.rest lexing,
    step.position⟩
  omega

end RubySyntax

/-
The nodes of heredocs are filled with their bodies.

A body is gathered line by line and put in place of the empty text of its node. The
bodies stand in the order of the queue, so each node is given the body of its own
opener, and no other node is touched.
-/

import RubySyntax.Proofs.Heredoc.Body

namespace RubySyntax

/-! ### The pieces of a body -/

namespace Part

def Texts (parts : List Part) (texts : List Bytes) : Prop :=
  parts.Forall₂ (fun part text => ∃ span, part = .text text span true) texts

variable {parts : List Part} {texts : List Bytes}

theorem Texts.append (given : Texts parts texts) {text : Bytes} (span : Span) :
    Texts (parts ++ [.text text span true]) (texts ++ [text]) :=
  List.rel_append given (.cons ⟨span, rfl⟩ .nil)

theorem Texts.indents (given : Texts parts texts) :
    parts.filterMap indent? = texts.filterMap Heredoc.indent? := by
  induction given with
  | nil => rfl
  | cons same _ ih =>
      obtain ⟨span, rfl⟩ := same
      rw [List.filterMap_cons, List.filterMap_cons, ih]
      rfl

theorem Texts.strip (given : Texts parts texts) (width : Nat) :
    Texts (parts.map (Part.strip width)) (texts.map (Heredoc.strip width)) := by
  induction given with
  | nil => exact .nil
  | cons same _ ih =>
      obtain ⟨span, rfl⟩ := same
      exact .cons ⟨span, rfl⟩ ih

theorem Texts.dedent {lines : List Bytes} (given : Texts parts (lines.map (· ++ [0x0A])))
    (whole : ∀ line ∈ lines, 0x0A ∉ line) :
    Texts (Part.dedent parts) ((Margin.stripAll lines).map (· ++ [0x0A])) := by
  rw [← Margin.stripAll_eq whole, Part.dedent, given.indents]
  cases ((lines.map (· ++ [0x0A])).filterMap Heredoc.indent?).min? with
  | none => exact given
  | some width => exact given.strip width

/-- Texts after a text are joined to it. -/
theorem foldl_join_text (given : Texts parts texts) (bytes : Bytes) (span : Span) :
    ∃ joined, parts.foldl join [.text bytes span true] =
      [.text (bytes ++ texts.flatten) joined true] := by
  induction given generalizing bytes span with
  | nil => exact ⟨span, by rw [List.flatten_nil, List.append_nil]; rfl⟩
  | @cons _ text _ _ same _ ih =>
      obtain ⟨other, rfl⟩ := same
      rw [List.foldl_cons, List.flatten_cons]
      cases text with
      | nil => exact ih bytes span
      | cons byte text =>
          obtain ⟨joined, rest⟩ := ih (bytes ++ byte :: text) (span.hull other)
          exact ⟨joined, by rw [← List.append_assoc, ← rest]; rfl⟩

/-- Texts become one text, or nothing if they are empty. -/
theorem joinAll_texts (given : Texts parts texts) :
    (joinAll parts = [] ∧ texts.flatten = []) ∨
      ∃ span, joinAll parts = [.text texts.flatten span true] := by
  unfold joinAll
  induction given with
  | nil => exact .inl ⟨rfl, rfl⟩
  | @cons _ text _ _ same rest ih =>
      obtain ⟨span, rfl⟩ := same
      rw [List.foldl_cons, List.flatten_cons]
      cases text with
      | nil => exact ih
      | cons byte text =>
          obtain ⟨joined, all⟩ := foldl_join_text rest (byte :: text) span
          refine .inr ⟨joined, ?_⟩
          change (List.foldl join [.text (byte :: text) span true] _).reverse = _
          rw [all]
          rfl

end Part

theorem Scan.literalShape_texts {state : State} {excused : Fatal → State → Prop} {parts : List Part}
    {texts : List Bytes} (given : Part.Texts parts texts) :
    Yields (literalShape .string parts "") state (fun shape after =>
      shape = .text .string texts.flatten ∧ after = state) excused := by
  unfold literalShape
  rcases Part.joinAll_texts given with ⟨joined, empty⟩ | ⟨span, joined⟩
  · rw [joined, empty]
    exact yields_pure ⟨rfl, rfl⟩
  · rw [joined]
    exact yields_pure ⟨rfl, rfl⟩

/-! ### Reading a body -/

def RawHeredoc.Short (heredoc : RawHeredoc) (tokenMax : Nat) : Prop :=
  ∀ line ∈ heredoc.lines, line.length + 1 < tokenMax

namespace Parse

variable {table : RuleTable} {depth : Nat} {state : State} {heredoc : RawHeredoc} {start : Nat}
  {following : Bytes} {waiting : List PendingHeredoc} {excused : Fatal → State → Prop}

theorem peekToken_line {line : Bytes} {lines : List Bytes}
    (body : state.InBody heredoc start (line :: lines) following waiting)
    (member : line ∈ heredoc.lines) (short : line.length + 1 < state.limits.tokenMax)
    (unseen : state.lookahead = none) :
    Yields table peekToken state (fun token after =>
      (∃ span, token = ⟨.content (line ++ [0x0A]) true, span⟩) ∧ after.lookahead = some token ∧
      after.InBody heredoc start lines following waiting ∧ state.Proceeds after) excused := by
  have read : Scan.Yields Scan.nextToken state (fun token after => token.kind ≠ .heredocBodies ∧
      (∃ span, token = ⟨.content (line ++ [0x0A]) true, span⟩) ∧
      after.InBody heredoc start lines following waiting ∧
      ∃ input lexer, after = { state with input, lexer }) excused := by
    refine (Scan.contentToken_yields body member short).mono ?_
    rintro _ after ⟨⟨span, rfl⟩, rest⟩
    exact ⟨nofun, ⟨span, rfl⟩, rest⟩
  refine (peekToken_reads unseen read).mono ?_
  rintro token _ ⟨_, ⟨named, body, input, lexer, rfl⟩, rfl⟩
  exact ⟨named, rfl, ⟨body.literal, body.between, body.starts, body.sound, body.text⟩,
    _, _, _, _, _, rfl⟩

theorem peekToken_closing (body : state.InBody heredoc start [] following waiting)
    (unseen : state.lookahead = none) :
    Yields table peekToken state (fun token after =>
      token.kind = .literalEnd [] ∧ after.lookahead = some token ∧
      after.AfterBody following waiting ∧ state.Proceeds after) excused := by
  have read : Scan.Yields Scan.nextToken state (fun token after => token.kind ≠ .heredocBodies ∧
      token.kind = .literalEnd [] ∧ after.AfterBody following waiting ∧
      ∃ input lexer, after = { state with input, lexer }) excused := by
    refine (Scan.closingToken_yields body).mono ?_
    rintro token after ⟨kind, rest⟩
    exact ⟨kind ▸ nofun, kind, rest⟩
  refine (peekToken_reads unseen read).mono ?_
  rintro token _ ⟨_, ⟨kind, ended, input, lexer, rfl⟩, rfl⟩
  exact ⟨kind, rfl, ⟨ended.between, ended.starts, ended.sound, ended.text⟩, _, _, _, _, _, rfl⟩

theorem literalParts_body
    (body : state.InBody heredoc start heredoc.lines following waiting)
    (short : heredoc.Short state.limits.tokenMax) (unseen : state.lookahead = none) :
    Yields table literalParts state (fun parts after =>
      Part.Texts parts (heredoc.lines.map (· ++ [0x0A])) ∧
      (∃ token, after.lookahead = some token ∧ token.kind = .literalEnd []) ∧
      after.AfterBody following waiting ∧ state.Proceeds after) excused := by
  refine Yields.bind (repeatUntil_yields (fun (parts : Array Part) current => ∃ done left,
      heredoc.lines = done ++ left ∧ Part.Texts parts.toList (done.map (· ++ [0x0A])) ∧
      current.InBody heredoc start left following waiting ∧ current.lookahead = none ∧
      state.Proceeds current)
    (fun parts after => Part.Texts parts.toList (heredoc.lines.map (· ++ [0x0A])) ∧
      (∃ token, after.lookahead = some token ∧ token.kind = .literalEnd []) ∧
      after.AfterBody following waiting ∧ state.Proceeds after) ?_ ?_) ?_
  · exact ⟨[], heredoc.lines, rfl, .nil, body, unseen, .refl state⟩
  · rintro parts current ⟨done, left, lines, texts, body, unseen, proceeds⟩
    cases left with
    | cons line left =>
        have member : line ∈ heredoc.lines := by simp [lines]
        have kept : line.length + 1 < current.limits.tokenMax := by
          obtain ⟨_, _, _, _, _, rfl⟩ := proceeds
          exact short line member
        refine (peekToken_line body member kept unseen).bind ?_
        rintro _ peeked ⟨⟨span, rfl⟩, ahead, body, moved⟩
        refine Yields.skip_bind ahead (yields_pure ?_)
        refine ⟨done ++ [line], left, by simp [lines], ?_, ?_, rfl, ?_⟩
        · rw [Array.toList_push, List.map_append]
          exact texts.append span
        · exact ⟨body.literal, body.between, body.starts, body.sound, body.text⟩
        · exact (proceeds.trans moved).trans ⟨_, _, _, _, _, rfl⟩
    | nil =>
        refine (peekToken_closing body unseen).bind ?_
        rintro ⟨_, span⟩ peeked ⟨rfl, ahead, ended, moved⟩
        rw [List.append_nil] at lines
        exact yields_pure ⟨lines ▸ texts, ⟨_, ahead, rfl⟩, ended, proceeds.trans moved⟩
  · intro parts after holds
    exact yields_pure holds

end Parse

/-! ### Filling the nodes -/

theorem Arena.modify_room (arena : Arena) (id : NodeId) (f : Node → Node) :
    (arena.modify id f).live = arena.live ∧ (arena.modify id f).limit = arena.limit := by
  unfold modify
  split <;> exact ⟨rfl, rfl⟩

theorem Scan.setShape_yields {state : State} {excused : Fatal → State → Prop} (id : NodeId)
    (shape : Shape NodeId) :
    Yields (setShape id shape) state (fun _ after => after =
      { state with arena := state.arena.modify id fun node => { node with shape } }) excused := by
  refine (nodeAt_yields id).bind ?_
  rintro node _ ⟨rfl, -⟩
  exact yields_modify rfl

structure State.Fills (before : State) (placeholders : List Placeholder) (after : State) :
    Prop where
  filled : ∀ placeholder ∈ placeholders,
    after.arena.Shaped placeholder.node (.text .string placeholder.heredoc.value)
  apart : ∀ id, id ∉ placeholders.map Placeholder.node →
    after.arena.get? id = before.arena.get? id
  live : after.arena.live = before.arena.live
  limit : after.arena.limit = before.arena.limit
  free : after.arena.FreeSound
  symbols : after.symbols = before.symbols
  report : after.report = before.report
  limits : after.limits = before.limits
  depth : after.depth = before.depth
  unlabelled : after.quotedKey = before.quotedKey

namespace State.Fills

variable {before middle after : State} {done : List Placeholder} {placeholder : Placeholder}

theorem nil (free : before.arena.FreeSound) : before.Fills [] before :=
  ⟨nofun, fun _ _ => rfl, rfl, rfl, free, rfl, rfl, rfl, rfl, rfl⟩

theorem later (fills : before.Fills done middle) (proceeds : middle.Proceeds after) :
    before.Fills done after := by
  obtain ⟨_, _, _, _, _, rfl⟩ := proceeds
  exact ⟨fills.filled, fills.apart, fills.live, fills.limit, fills.free, fills.symbols,
    fills.report, fills.limits, fills.depth, fills.unlabelled⟩

theorem single {shape : Shape NodeId} (free : before.arena.FreeSound)
    (stored : before.arena.Shaped placeholder.node shape) :
    before.Fills [placeholder] { before with
      arena := before.arena.modify placeholder.node fun node =>
        { node with shape := .text .string placeholder.heredoc.value } } := by
  obtain ⟨node, found, -⟩ := stored
  have puts := Arena.modify_spec found fun node =>
    { node with shape := .text .string placeholder.heredoc.value }
  obtain ⟨live, limit⟩ := before.arena.modify_room placeholder.node fun node =>
    { node with shape := .text .string placeholder.heredoc.value }
  refine ⟨?_, ?_, live, limit, free.modify _ _, rfl, rfl, rfl, rfl, rfl⟩
  · intro other member
    rw [List.mem_singleton.mp member]
    exact ⟨_, puts.at_slot, rfl⟩
  · intro id other
    refine puts.apart fun same => other ?_
    rw [same]
    exact List.mem_singleton_self _

/-- What is filled stays so while other nodes are filled. -/
theorem append {more : List Placeholder} (first : before.Fills done middle)
    (second : middle.Fills more after)
    (distinct : ((done ++ more).map Placeholder.node).Nodup) :
    before.Fills (done ++ more) after where
  filled other member := by
    rcases List.mem_append.mp member with earlier | later
    · obtain ⟨node, found, shape⟩ := first.filled other earlier
      rw [List.map_append, List.nodup_append] at distinct
      refine ⟨node, (second.apart _ fun same => ?_).trans found, shape⟩
      exact distinct.2.2 _ (List.mem_map_of_mem earlier) _ same rfl
    · exact second.filled other later
  apart id outside := by
    rw [List.map_append, List.mem_append, not_or] at outside
    exact (second.apart id outside.2).trans (first.apart id outside.1)
  live := second.live.trans first.live
  limit := second.limit.trans first.limit
  free := second.free
  symbols := second.symbols.trans first.symbols
  report := second.report.trans first.report
  limits := second.limits.trans first.limits
  depth := second.depth.trans first.depth
  unlabelled := second.unlabelled.trans first.unlabelled

end State.Fills

/-- The nodes that come later still wait while those before them are filled. -/
theorem Arena.Awaits.later {before after : State} {done left : List Placeholder}
    (awaits : before.arena.Awaits (done ++ left)) (fills : before.Fills done after) :
    after.arena.Awaits left := by
  obtain ⟨distinct, empty⟩ := awaits
  rw [List.map_append, List.nodup_append] at distinct
  refine ⟨distinct.2.1, fun placeholder member => ?_⟩
  obtain ⟨node, found, shape⟩ := empty placeholder (List.mem_append_right _ member)
  refine ⟨node, (fills.apart _ fun earlier => ?_).trans found, shape⟩
  exact distinct.2.2 _ earlier _ (List.mem_map_of_mem member) rfl

namespace Scan

variable {state : State} {placeholder : Placeholder} {following : Bytes}
  {waiting : List PendingHeredoc} {excused : Fatal → State → Prop}

theorem nextHeredoc?_some
    (ended : state.AfterBody (placeholder.heredoc.body ++ following)
      (placeholder.pending :: waiting)) :
    Yields nextHeredoc? state (fun next after => next = some placeholder.pending ∧
      after.InBody placeholder.heredoc placeholder.start placeholder.heredoc.lines following
        waiting ∧
      ∃ lexer, after = { state with lexer }) excused := by
  obtain ⟨between, starts, sound, text⟩ := ended
  refine Yields.get_bind ?_
  rw [between.heredocs]
  refine Yields.setLexer_bind (yields_pure ⟨rfl, ?_, _, rfl⟩)
  refine ⟨rfl, ⟨rfl, rfl, between.due, between.contexts, between.brackets, between.constructs,
    between.running, between.unmarked⟩, starts, sound, ?_⟩
  rw [text, RawHeredoc.body]
  simp

theorem nextHeredoc?_none (ended : state.AfterBody following []) :
    Yields nextHeredoc? state (fun next after => next = none ∧ after = state) excused := by
  refine Yields.get_bind ?_
  rw [ended.between.heredocs]
  exact yields_pure ⟨rfl, rfl⟩

end Scan

namespace Parse

variable {table : RuleTable} {depth : Nat} {state : State} {placeholder : Placeholder}
  {placeholders : List Placeholder} {following : Bytes} {waiting : List PendingHeredoc}
  {excused : Fatal → State → Prop}

theorem heredocBody_yields
    (body : state.InBody placeholder.heredoc placeholder.start placeholder.heredoc.lines
      following waiting)
    (short : placeholder.heredoc.Short state.limits.tokenMax) (unseen : state.lookahead = none)
    (free : state.arena.FreeSound)
    (awaits : state.arena.Shaped placeholder.node (.text .string [])) :
    Yields table (heredocBody placeholder.pending) state (fun _ after =>
      state.Fills [placeholder] after ∧ after.lookahead = none ∧
        after.AfterBody following waiting) excused := by
  refine (literalParts_body body short unseen).bind ?_
  rintro parts read ⟨texts, ⟨⟨_, span⟩, ahead, rfl⟩, ended, proceeds⟩
  let passed : State := { read with lookahead := none, previousStop := span.stop }
  have closing (isEnd : TokenKind → Bool) (ends : isEnd (.literalEnd []) = true) :
      Yields table (expectWhere isEnd "heredoc terminator") read (fun _ after =>
        after = passed) excused := by
    refine Yields.peek_bind ahead ?_
    rw [if_pos ends]
    exact Yields.skip_bind ahead (yields_pure rfl)
  refine (closing _ rfl).bind ?_
  rintro _ _ rfl
  have values : Part.Texts
      (if placeholder.heredoc.dedented then Part.dedent parts else parts)
      ((if placeholder.heredoc.dedented then Margin.stripAll placeholder.heredoc.lines
        else placeholder.heredoc.lines).map (· ++ [0x0A])) := by
    split
    · exact texts.dedent placeholder.heredoc.whole
    · exact texts
  refine Yields.lift_bind (Scan.literalShape_texts values) ?_
  rintro shape _ ⟨rfl, rfl⟩
  refine yields_lift ((Scan.setShape_yields _ _).mono ?_)
  rintro _ _ rfl
  have arena : passed.arena = state.arena := by
    obtain ⟨_, _, _, _, _, rfl⟩ := proceeds
    rfl
  have filled : passed.Fills [placeholder] _ :=
    .single (arena.symm ▸ free) (arena.symm ▸ awaits)
  have started : state.Fills [] passed :=
    .later (.nil free) (proceeds.trans ⟨_, _, _, _, _, rfl⟩)
  refine ⟨started.append filled (List.nodup_singleton _), rfl, ?_⟩
  exact ⟨ended.between, ended.starts, ended.sound, ended.text⟩

/-- The bodies of the heredocs that wait are read in the order of their openers. -/
theorem heredocBodies_yields
    (due : state.lexer.Due (placeholders.map Placeholder.pending))
    (sound : state.input.Sound)
    (text : state.input.rest =
      (placeholders.flatMap fun placeholder => placeholder.heredoc.body) ++ following)
    (short : ∀ placeholder ∈ placeholders, placeholder.heredoc.Short state.limits.tokenMax)
    (unseen : state.lookahead = none) (unlabelled : state.quotedKey = none)
    (free : state.arena.FreeSound) (awaits : state.arena.Awaits placeholders) :
    Yields table heredocBodies state (fun _ after =>
      state.Fills placeholders after ∧ after.lookahead = none ∧
        after.AfterBody following []) excused := by
  let begun : State := { state with lexer := { state.lexer with heredocsDue := false } }
  have begins : Scan.Yields Scan.beginHeredocBodies state (fun _ after => after = begun)
      excused := rfl
  have noKey : Scan.Yields Scan.takeQuotedKey? begun (fun key after =>
      key = none ∧ after = begun) excused := by
    refine ⟨unlabelled, ?_⟩
    rw [← unlabelled]
  refine Yields.lift_bind begins ?_
  rintro _ _ rfl
  refine Yields.get_bind (Yields.lift_bind noKey ?_)
  rintro _ _ ⟨rfl, rfl⟩
  refine Yields.bind (repeatUntil_yields (fun _ current => ∃ done left,
      placeholders = done ++ left ∧ state.Fills done current ∧ current.lookahead = none ∧
      current.AfterBody ((left.flatMap fun placeholder => placeholder.heredoc.body) ++ following)
        (left.map Placeholder.pending))
    (fun _ after => state.Fills placeholders after ∧ after.lookahead = none ∧
      after.AfterBody following []) ?_ ?_) ?_
  · exact ⟨[], placeholders, rfl, .later (.nil free) ⟨_, _, _, _, _, rfl⟩, unseen,
      due.between, due.starts, sound, text⟩
  · rintro _ current ⟨done, left, rfl, fills, unseen, ended⟩
    cases left with
    | nil =>
        refine Yields.lift_bind (Scan.nextHeredoc?_none ended) ?_
        rintro _ _ ⟨rfl, rfl⟩
        rw [List.append_nil]
        exact yields_pure ⟨fills, unseen, ended⟩
    | cons first left =>
        rw [List.flatMap_cons, List.append_assoc] at ended
        refine Yields.lift_bind (Scan.nextHeredoc?_some ended) ?_
        rintro _ inside ⟨rfl, body, lexer, same⟩
        have fills : state.Fills done inside := fills.later ⟨_, _, _, _, _, same⟩
        have kept : first.heredoc.Short inside.limits.tokenMax := by
          rw [fills.limits]
          exact short first (by simp)
        have waits := (awaits.later fills).empty first List.mem_cons_self
        refine (heredocBody_yields body kept (same ▸ unseen) fills.free waits).bind ?_
        rintro _ after ⟨filled, unseen, ended⟩
        have distinct : ((done ++ [first]).map Placeholder.node).Nodup := by
          refine awaits.distinct.sublist (List.Sublist.map _ ?_)
          exact List.Sublist.append_left (List.singleton_sublist.mpr List.mem_cons_self) done
        exact yields_pure ⟨done ++ [first], left, by simp, fills.append filled distinct,
          unseen, ended⟩
  · rintro _ after ⟨fills, unseen, ended⟩
    have noKey : after.quotedKey = none := fills.unlabelled.trans unlabelled
    rw [← noKey]
    exact Scan.yields_modify ⟨fills.later ⟨_, _, _, _, _, rfl⟩, unseen, ended.between,
      ended.starts, ended.sound, ended.text⟩

/-! ### On the way to the next token -/

/-- Where the bodies are due, a marker is read in their place. -/
theorem readToken_due {waiting : List PendingHeredoc} (due : state.lexer.Due waiting) :
    Scan.Yields Scan.readToken state (fun token after => token.kind = .heredocBodies ∧
      after = { state with tokens := token :: state.tokens }) excused := by
  have marker : Scan.Yields Scan.nextToken state (fun token after =>
      token.kind = .heredocBodies ∧ after = state) excused := by
    have literal : state.lexer.literal = none := due.between.literal
    refine Scan.Yields.get_bind ?_
    simp only [literal, due.due, if_true]
    exact Scan.Yields.position_bind ⟨rfl, rfl⟩
  refine Scan.Yields.bind marker ?_
  rintro token _ ⟨kind, rfl⟩
  exact ⟨kind, rfl⟩

/-- Once the end of their line has been taken, the bodies are read on the way to the next
token, which is the end of the input. -/
theorem peekToken_bodies (ended : state.AtLineEnd placeholders)
    (short : ∀ placeholder ∈ placeholders, placeholder.heredoc.Short state.limits.tokenMax)
    (stop : Nat) :
    Yields (Parse.table depth) peekToken { state with lookahead := none, previousStop := stop }
      (fun token after => after.lookahead = some token ∧ token.kind = .endOfInput ∧
        state.Fills placeholders after) excused := by
  let taken : State := { state with lookahead := none, previousStop := stop }
  have started : state.Fills [] taken := .later (.nil ended.free) ⟨_, _, _, _, _, rfl⟩
  refine Yields.get_bind ?_
  refine Yields.bind (repeatUntil_yields (fun _ current => current = taken ∨
      (state.Fills placeholders current ∧ current.AfterBody [] []))
    (fun token after => token.kind = .endOfInput ∧ state.Fills placeholders after)
    (.inl rfl) ?_) ?_
  · rintro _ current (rfl | ⟨fills, rest⟩)
    · have marker : Scan.Yields Scan.readToken taken (fun token after =>
          token.kind = .heredocBodies ∧ after = { taken with tokens := token :: taken.tokens })
          excused := readToken_due ended.due
      refine Yields.lift_bind marker ?_
      rintro token _ ⟨kind, rfl⟩
      rw [if_pos kind]
      let marked : State := { taken with tokens := token :: taken.tokens }
      have begun : state.Fills [] marked := started.later ⟨_, _, _, _, _, rfl⟩
      have bodies : ∀ depth, Yields (Parse.table depth) heredocBodies marked (fun _ after =>
          marked.Fills placeholders after ∧ after.lookahead = none ∧ after.AfterBody [] [])
          excused := fun _ =>
        heredocBodies_yields ended.due ended.sound
          (ended.text.trans (List.append_nil _).symm) short rfl ended.unlabelled ended.free
          ended.awaits
      refine (descend_yields .heredocBodies bodies depth).bind ?_
      rintro _ after ⟨fills, -, rest⟩
      exact yields_pure (.inr ⟨begun.append fills ended.awaits.distinct, rest⟩)
    · have last : Scan.Yields Scan.readToken current (fun token after =>
          token.kind = .endOfInput ∧ current.Proceeds after) excused := by
        refine Scan.Yields.bind (Scan.endToken_yields rest.between (.inr rest.starts) rest.text) ?_
        rintro token _ ⟨kind, lexer, rfl⟩
        exact ⟨kind, _, _, _, _, _, rfl⟩
      refine Yields.lift_bind last ?_
      rintro ⟨_, span⟩ after ⟨rfl, proceeds⟩
      exact yields_pure ⟨rfl, fills.later proceeds⟩
  · rintro token after ⟨kind, fills⟩
    exact Yields.modify_bind (yields_pure ⟨rfl, kind, fills.later ⟨_, _, _, _, _, rfl⟩⟩)

end Parse

end RubySyntax

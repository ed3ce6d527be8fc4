/-
Strings next to each other.

Strings that follow each other are one string. The first is stored in the first slot, and each
of the others in the second one, which is empty again as soon as their texts are joined. So the
arena never grows beyond the two nodes that are left in the end.
-/

import RubySyntax.Proofs.Hull
import RubySyntax.Proofs.Literal.Statement

namespace RubySyntax

/-! ### Strings as they are written -/

namespace Quotation

/-- Where a literal was opened is of no account to its text. -/
theorem goesOnAt_start (literal : Quotation) (start : Nat) (bytes : Bytes) :
    goesOnAt { literal with start } bytes = literal.goesOnAt bytes := by
  cases bytes <;> rfl

theorem nest_start (literal : Quotation) (start : Nat) (byte : Byte) :
    nest { literal with start } byte = { literal.nest byte with start } := by
  unfold nest
  dsimp only
  split
  · rfl
  · split
    · rfl
    · split
      · rfl
      · rfl

theorem Reads.starting {rest text value : Bytes} {literal last : Quotation} {remarks : Remarks}
    (reads : Reads rest literal text value last remarks) (start : Nat) :
    Reads rest { literal with start } text value { last with start } remarks := by
  induction reads with
  | done => exact .done
  | plain goesOn unescaped _ ih =>
      rw [← nest_start] at ih
      exact .plain ((goesOnAt_start ..).trans goesOn) unescaped ih
  | escaped goesOn reading _ ih =>
      exact .escaped ((goesOnAt_start ..).trans goesOn) reading ih

end Quotation

namespace Quoted

abbrev plain (interpolates : Bool) (start : Nat) : Quotation :=
  { kind := .string, interpolates, closing := Scan.quoteOf interpolates, start }

/-- A string in quotes stands before the rest of the source. Some bytes are read for its text;
there is no code in it and nothing is wrong with it. -/
def Writes (value written rest : Bytes) : Prop :=
  ∃ interpolates text,
    written = Scan.quoteOf interpolates :: (text ++ [Scan.quoteOf interpolates]) ∧
      (plain interpolates 0).Holds text value rest

theorem holds_at {interpolates : Bool} {text value rest : Bytes}
    (holds : (plain interpolates 0).Holds text value rest) (start : Nat) :
    (plain interpolates start).Holds text value rest := by
  obtain ⟨last, reads, settled⟩ := holds
  exact ⟨_, reads.starting start, settled⟩

inductive Series : List Bytes → Bytes → Prop
  | done : Series [] []
  | next {value written rest blanks : Bytes} {values : List Bytes}
      (blank : ∀ byte ∈ blanks, byte.isBlank = true) (string : Writes value written rest)
      (more : Series values rest) : Series (value :: values) (blanks ++ (written ++ rest))

end Quoted

theorem Span.hull_ordered {left right : Span} (first : left.start ≤ left.stop)
    (order : left.stop ≤ right.start) (second : right.start ≤ right.stop) :
    left.hull right = ⟨left.start, right.stop⟩ := by
  have least : min left.start right.start = left.start := by omega
  have greatest : max left.stop right.stop = right.stop := by omega
  rw [hull_of_places (isDummy_eq_false_iff.mpr first) (isDummy_eq_false_iff.mpr second), least,
    greatest]

/-! ### Two slots -/

namespace Arena

structure Unused (arena : Arena) : Prop where
  slots : arena.slots = #[]
  free : arena.free = []
  live : arena.live = 0

/-- There is a node in the first slot. The second one is empty, if it was ever handed out. -/
structure Lone (arena : Arena) (node : Node) : Prop where
  live : arena.live = 1
  slots : (arena.slots = #[some node] ∧ arena.free = []) ∨
    (arena.slots = #[some node, none] ∧ arena.free = [⟨1⟩])

structure Pair (arena : Arena) (first second : Node) : Prop where
  live : arena.live = 2
  slots : arena.slots = #[some first, some second]
  free : arena.free = []

variable {arena after : Arena} {id : NodeId} {node other first second : Node}

theorem Unused.alloc (unused : arena.Unused) (taken : arena.alloc node = some (id, after)) :
    id = ⟨0⟩ ∧ after.Lone node ∧ after.limit = arena.limit := by
  obtain ⟨live, limit, ⟨-, place, free, slots⟩ | ⟨free, -⟩⟩ := alloc_eq_some taken
  · rw [unused.slots] at place slots
    rw [unused.live] at live
    exact ⟨place, ⟨live, .inl ⟨slots, free⟩⟩, limit⟩
  · rw [unused.free] at free
    cases free

theorem Lone.alloc (lone : arena.Lone first) (taken : arena.alloc second = some (id, after)) :
    id = ⟨1⟩ ∧ after.Pair first second ∧ after.limit = arena.limit := by
  obtain ⟨live, limit, took⟩ := alloc_eq_some taken
  rw [lone.live] at live
  rcases lone.slots with ⟨slots, none⟩ | ⟨slots, listed⟩
  · rcases took with ⟨-, place, free, stored⟩ | ⟨free, -⟩
    · rw [slots] at place stored
      exact ⟨place, ⟨live, stored, free⟩, limit⟩
    · rw [none] at free
      cases free
  · rcases took with ⟨none, -⟩ | ⟨free, stored⟩
    · rw [listed] at none
      cases none
    · rw [listed] at free
      obtain ⟨rfl, rest⟩ := List.cons.inj free
      rw [slots] at stored
      exact ⟨rfl, ⟨live, stored, rest.symm⟩, limit⟩

theorem Lone.get (lone : arena.Lone node) : arena.get? ⟨0⟩ = some node := by
  unfold get?
  rcases lone.slots with ⟨slots, -⟩ | ⟨slots, -⟩
  · rw [slots]
    rfl
  · rw [slots]
    rfl

theorem Pair.get_first (pair : arena.Pair first second) : arena.get? ⟨0⟩ = some first := by
  unfold get?
  rw [pair.slots]
  rfl

theorem Pair.get_second (pair : arena.Pair first second) : arena.get? ⟨1⟩ = some second := by
  unfold get?
  rw [pair.slots]
  rfl

theorem Pair.recycle (pair : arena.Pair first second) : (arena.recycle ⟨1⟩).Lone first := by
  unfold Arena.recycle
  rw [pair.get_second]
  refine ⟨congrArg (· - 1) pair.live, .inr ⟨?_, congrArg _ pair.free⟩⟩
  change arena.slots.setIfInBounds 1 none = _
  rw [pair.slots]
  rfl

theorem Lone.modify (lone : arena.Lone node) (f : Node → Node) :
    (arena.modify ⟨0⟩ f).Lone (f node) := by
  unfold Arena.modify
  rw [lone.get]
  refine ⟨lone.live, ?_⟩
  rcases lone.slots with ⟨slots, free⟩ | ⟨slots, free⟩
  · refine .inl ⟨?_, free⟩
    change arena.slots.setIfInBounds 0 (some (f node)) = _
    rw [slots]
    rfl
  · refine .inr ⟨?_, free⟩
    change arena.slots.setIfInBounds 0 (some (f node)) = _
    rw [slots]
    rfl

theorem Unused.freeSound (unused : arena.Unused) : arena.FreeSound := by
  refine ⟨unused.free ▸ List.nodup_nil, ?_⟩
  rw [unused.free]
  nofun

theorem Lone.freeSound (lone : arena.Lone node) : arena.FreeSound := by
  rcases lone.slots with ⟨-, free⟩ | ⟨slots, free⟩
  · refine ⟨free ▸ List.nodup_nil, ?_⟩
    rw [free]
    nofun
  · refine ⟨free ▸ List.nodup_singleton _, ?_⟩
    intro id member
    rw [free, List.mem_singleton] at member
    rw [member, slots]
    rfl

theorem Pair.nodes (pair : arena.Pair first second) :
    arena.nodes = [(⟨0⟩, first), (⟨1⟩, second)] := by
  unfold Arena.nodes
  rw [pair.slots]
  rfl

end Arena

namespace Scan

variable {state : State} {first second : Node} {bytes more : Bytes}
  {excused : Fatal → State → Prop}

theorem modifyNode_of_get {id : NodeId} {node : Node} (found : state.arena.get? id = some node)
    (f : Node → Node) :
    Yields (modifyNode id f) state (fun _ after =>
      after = { state with arena := state.arena.modify id f }) excused := by
  refine (nodeAt_of_get found).bind ?_
  rintro _ _ ⟨rfl, rfl⟩
  exact yields_modify rfl

def Altered (state : State) (shape : Shape NodeId) (span : Span) (after : State) : Prop :=
  ∃ node arena, after = { state with arena } ∧ arena.Lone node ∧
    arena.limit = state.arena.limit ∧ node.shape = shape ∧ node.span = span

theorem joinString_yields (pair : state.arena.Pair first second)
    (left : first.shape = .text .string bytes) (right : second.shape = .text .string more) :
    Yields (joinString [⟨0⟩] ⟨1⟩) state (fun joined after => joined = [⟨0⟩] ∧
      Altered state (.text .string (bytes ++ more)) (first.span.hull second.span) after)
      excused := by
  refine (shapeOf_of_get pair.get_first).bind ?_
  rintro _ _ ⟨rfl, rfl⟩
  refine (shapeOf_of_get pair.get_second).bind ?_
  rintro _ _ ⟨rfl, rfl⟩
  rw [left, right]
  refine (spanOf_of_get pair.get_second).bind ?_
  rintro _ current ⟨rfl, rfl⟩
  let removed : State := { current with arena := current.arena.recycle ⟨1⟩ }
  have found : removed.arena.get? ⟨0⟩ = some first := pair.recycle.get
  refine Yields.modify_bind ((modifyNode_of_get found _).bind ?_)
  rintro _ joined same
  have lone : joined.arena.Lone { first with shape := .text .string (bytes ++ more) } := by
    rw [same]
    exact pair.recycle.modify _
  have widened := lone.modify fun node => { node with span := node.span.hull second.span }
  refine (modifyNode_of_get lone.get _).bind ?_
  rintro _ _ rfl
  refine yields_pure ⟨rfl, _, _, ?_, widened, ?_, rfl, rfl⟩
  · rw [same]
  · rw [same]
    dsimp only
    rw [Arena.limit_modify, Arena.limit_modify, Arena.limit_recycle]

theorem joinStrings_yields (pair : state.arena.Pair first second)
    (left : first.shape = .text .string bytes) (right : second.shape = .text .string more) :
    Yields (joinStrings ⟨0⟩ ⟨1⟩) state (fun id after => id = ⟨0⟩ ∧
      Altered state (.text .string (bytes ++ more)) (first.span.hull second.span) after)
      excused := by
  have part : ∀ {id : NodeId} {node : Node} {text : Bytes}, state.arena.get? id = some node →
      node.shape = .text .string text →
      Yields (stringParts id) state (fun parts after => parts = [id] ∧ after = state) excused := by
    intro id node text found shape
    refine (shapeOf_of_get found).bind ?_
    rintro _ _ ⟨rfl, rfl⟩
    rw [shape]
    exact yields_pure ⟨rfl, rfl⟩
  have spans : Yields (spanOfBoth ⟨0⟩ ⟨1⟩) state (fun span after =>
      span = first.span.hull second.span ∧ after = state) excused := by
    refine (spanOf_of_get pair.get_first).bind ?_
    rintro _ _ ⟨rfl, rfl⟩
    refine (spanOf_of_get pair.get_second).bind ?_
    rintro _ _ ⟨rfl, rfl⟩
    exact yields_pure ⟨rfl, rfl⟩
  have joined : Yields (List.foldlM joinString [] ([⟨0⟩] ++ [⟨1⟩])) state (fun joined after =>
      joined = [⟨0⟩] ∧
        Altered state (.text .string (bytes ++ more)) (first.span.hull second.span) after)
      excused := by
    refine (joinString_yields pair left right).bind ?_
    rintro _ after ⟨rfl, altered⟩
    exact yields_pure ⟨rfl, altered⟩
  refine spans.bind ?_
  rintro _ _ ⟨rfl, rfl⟩
  refine (part pair.get_first left).bind ?_
  rintro _ _ ⟨rfl, rfl⟩
  refine (part pair.get_second right).bind ?_
  rintro _ _ ⟨rfl, rfl⟩
  refine joined.bind ?_
  rintro _ _ ⟨rfl, node, arena, rfl, lone, limit, shape, span⟩
  refine (shapeOf_of_get lone.get).bind ?_
  rintro _ _ ⟨rfl, rfl⟩
  rw [shape]
  refine (modifyNode_of_get lone.get _).bind ?_
  rintro _ _ rfl
  refine yields_pure ⟨rfl, _, _, rfl, lone.modify _, ?_, shape, rfl⟩
  rw [Arena.limit_modify]
  exact limit

end Scan

/-! ### Reading strings -/

structure State.Passed (before : State) (arena : Arena) (position : Nat) (rest : Bytes)
    (after : State) : Prop where
  proceeds : State.Proceeds { before with arena } after
  left : after.Left rest
  unseen : after.lookahead = none
  mode : after.lexer.mode = .operandEnd
  position : after.input.position = position

namespace State.Passed

variable {before middle after : State} {arena other : Arena} {position stop : Nat}
  {text rest : Bytes}

theorem same_arena (passed : before.Passed arena position rest after) : after.arena = arena := by
  obtain ⟨_, _, _, _, _, rfl⟩ := passed.proceeds
  rfl

theorem limits (passed : before.Passed arena position rest after) :
    after.limits = before.limits := by
  obtain ⟨_, _, _, _, _, rfl⟩ := passed.proceeds
  rfl

theorem trans (first : before.Passed arena position text middle) {opened : State}
    (opens : middle.Proceeds opened) (second : opened.Passed other stop rest after) :
    before.Passed other stop rest after := by
  obtain ⟨_, _, _, _, _, rfl⟩ := first.proceeds
  obtain ⟨_, _, _, _, _, rfl⟩ := opens
  obtain ⟨_, _, _, _, _, rfl⟩ := second.proceeds
  exact ⟨⟨_, _, _, _, _, rfl⟩, second.left, second.unseen, second.mode, second.position⟩

theorem alter (passed : before.Passed arena position rest after) (free : other.FreeSound) :
    before.Passed other position rest { after with arena := other } := by
  obtain ⟨_, _, _, _, _, rfl⟩ := passed.proceeds
  have left := passed.left
  exact ⟨⟨_, _, _, _, _, rfl⟩, ⟨left.idle, left.sound, left.text, free, left.unlabelled⟩,
    passed.unseen, passed.mode, passed.position⟩

/-- Of all that was stored one node is left. -/
theorem builds {node : Node} (passed : before.Passed arena position rest after)
    (unused : before.arena.Unused) (lone : arena.Lone node)
    (limit : arena.limit = before.arena.limit) : before.Builds 1 after := by
  obtain ⟨_, _, _, _, _, rfl⟩ := passed.proceeds
  have none : ∀ id node, before.arena.get? id ≠ some node := by
    intro id node found
    have inside := Arena.slot_lt_of_get? found
    rw [Arena.slotCount, unused.slots] at inside
    exact Nat.not_lt_zero _ inside
  refine ⟨⟨⟨fun id node found => absurd found (none id node), fun _ known => ⟨known, rfl⟩, rfl⟩,
    ?_, limit, rfl, rfl⟩, rfl⟩
  change arena.live = before.arena.live + 1
  rw [lone.live, unused.live]

end State.Passed

def OnlyString (value : Bytes) (span : Span) (id : NodeId) (arena : Arena) : Prop :=
  id = ⟨0⟩ ∧ ∃ node, arena.Lone node ∧ node.shape = .text .string value ∧ node.span = span

namespace Parse

variable {table : RuleTable} {state : State} {literal : Quotation} {text value rest : Bytes}
  {opening : Span}

theorem quoted_text (ahead : state.AtText literal text value rest) (sound : state.input.Sound)
    (free : state.arena.FreeSound) (unlabelled : state.quotedKey = none) (room : state.Room 1) :
    let closing := state.input.position + text.length
    Succeeds table (quoted opening .string) state fun id after => ∃ node arena,
      state.arena.alloc node = some (id, arena) ∧ node.shape = .text .string value ∧
        node.span = opening.hull ⟨closing, closing + 1⟩ ∧
        state.Passed arena (closing + 1) rest after := by
  intro closing
  have empty : text = [] → value = [] := by
    rintro rfl
    obtain ⟨last, reads, -⟩ := ahead.holds
    cases reads
    rfl
  refine (literalParts_text ahead).bind ?_
  rintro parts middle ⟨place, given, seen⟩
  have seen : state.TextSeen text value middle := seen
  refine Yields.peek_bind seen.ahead (Yields.skip_bind seen.ahead ?_)
  have noFlags : Utf8.read [] = "" := by decide
  rw [noFlags]
  refine Yields.lift_bind (literalShape_text given empty).unexcused ?_
  rintro _ _ ⟨rfl, rfl⟩
  let closed : State := { middle with lookahead := none, previousStop := closing + 1 }
  have passed : state.Proceeds closed := seen.proceeds.trans ⟨_, _, _, _, _, rfl⟩
  have given := seen.left ahead.within sound ahead.here free unlabelled
  have left : closed.Left rest := given.alike given.idle rfl rfl rfl
  have mode : closed.lexer.mode = .operandEnd := congrArg LexerState.mode seen.lexer
  have moved : closed.input.position = closing + 1 := congrArg Input.position seen.input
  have room : closed.Room 1 := State.Room.after room passed.builds.toGains
  refine yields_lift ((Scan.alloc_places left.free room _ _).mono ?_)
  rintro id _ ⟨⟨⟨arena, rfl⟩, -, -, -, sound, other, -, taken⟩, node, found, shape, span⟩
  cases (Arena.alloc_spec left.free taken).2.2.at_slot.symm.trans found
  have same : closed.arena = state.arena := by
    obtain ⟨_, _, _, _, _, same⟩ := passed
    rw [same]
  refine ⟨other, arena, same ▸ taken, shape, span, ?_, ?_, rfl, mode, moved⟩
  · obtain ⟨_, _, _, _, _, same⟩ := passed
    rw [same]
    exact ⟨_, _, _, _, _, rfl⟩
  · exact ⟨left.idle, left.sound, left.text, sound, left.unlabelled⟩

structure Joining (begun : State) (start : Nat) (whole : Bytes) (total : Nat) (id : NodeId)
    (current : State) : Prop where
  first : id = ⟨0⟩
  joined : ∃ node arena position rest values done, begun.Passed arena position rest current ∧
    arena.Lone node ∧ arena.limit = begun.arena.limit ∧ node.shape = .text .string done ∧
    node.span = ⟨start, position⟩ ∧ start ≤ position ∧ Quoted.Series values rest ∧
    (∀ each ∈ values, each.length ≤ begun.limits.tokenMax) ∧ whole = done ++ values.flatten ∧
    total = position + rest.length

variable {begun : State} {start total : Nat} {whole : Bytes} {id : NodeId}

theorem joinNext_succeeds {node : Node} {arena : Arena} {position : Nat}
    {written blanks done : Bytes} {values : List Bytes}
    (passed : begun.Passed arena position (blanks ++ (written ++ rest)) state)
    (lone : arena.Lone node) (limit : arena.limit = begun.arena.limit)
    (shape : node.shape = .text .string done) (span : node.span = ⟨start, position⟩)
    (order : start ≤ position) (blank : ∀ byte ∈ blanks, byte.isBlank = true)
    (string : Quoted.Writes value written rest) (more : Quoted.Series values rest)
    (short : ∀ each ∈ value :: values, each.length ≤ begun.limits.tokenMax)
    (texts : whole = done ++ (value :: values).flatten)
    (lengths : total = position + (blanks ++ (written ++ rest)).length)
    (room : 2 ≤ begun.arena.limit) :
    Succeeds table peekToken state fun token after =>
      after.lookahead = some token ∧ token.kind = .literalBegin .string ∧ ∀ table,
        Succeeds table (quoted token.span .string)
          { after with lookahead := none, previousStop := token.span.stop } fun next after =>
            after.quotedKey = none ∧ Scan.Succeeds (Scan.joinStrings ⟨0⟩ next) after
              (Joining begun start whole total) := by
  obtain ⟨interpolates, text, rfl, holds⟩ := string
  obtain ⟨shortest, short⟩ := List.forall_mem_cons.mp short
  have noLabel : state.lexer.mode.allowsLabel state.lexer.statementStart = false := by
    rw [passed.mode]
    rfl
  refine (peekToken_knows passed.unseen (by nofun) (Scan.quoteBegin_yields interpolates blanks
    passed.left.idle noLabel blank passed.left.text)).mono ?_
  rintro _ _ ⟨rfl, rfl⟩
  refine ⟨rfl, rfl, fun table => ?_⟩
  let opener : Bytes := blanks ++ [Scan.quoteOf interpolates]
  let literal := Quoted.plain interpolates (state.input.position + blanks.length)
  let opened : State := { state.opened (blanks.length + 1) literal with
    tokens := ⟨.literalBegin .string, ⟨state.input.position + blanks.length,
      state.input.position + blanks.length + 1⟩⟩ :: state.tokens
    lookahead := none
    previousStop := state.input.position + blanks.length + 1 }
  have opens : state.Proceeds opened := ⟨_, _, _, _, _, rfl⟩
  have left : state.Left (opener ++ (text ++ literal.closing :: rest)) := by
    have given := passed.left
    simpa [opener, literal] using given
  have width : opener.length = blanks.length + 1 := List.length_append ..
  have next : opened.AtText literal text value rest := by
    refine State.opened_atText left rfl rfl (Quoted.holds_at holds _) ?_ rfl ?_ ?_ rfl
    · rw [passed.limits]
      exact shortest
    · rw [width]
    · rw [width]
  have sound : opened.input.Sound := by
    refine left.sound.advance ?_
    rw [left.text, List.length_append, width]
    exact Nat.le_add_right ..
  have space : opened.Room 1 := by
    change state.arena.live + 1 ≤ state.arena.limit
    rw [passed.same_arena, lone.live, limit]
    exact room
  have opening : opened.input.position = position + (blanks.length + 1) :=
    congrArg (· + (blanks.length + 1)) passed.position
  refine (quoted_text next sound passed.left.free passed.left.unlabelled space).mono ?_
  rintro second after ⟨other, arena, taken, shaped, placed, closed⟩
  have read := passed.trans opens closed
  obtain ⟨rfl, pair, kept⟩ := lone.alloc (passed.same_arena ▸ taken)
  refine ⟨read.left.unlabelled, ?_⟩
  refine (Scan.joinStrings_yields (read.same_arena ▸ pair) shape shaped).mono ?_
  rintro id _ ⟨rfl, joined, altered, rfl, alone, still, form, place⟩
  rw [read.same_arena] at still
  refine ⟨rfl, joined, altered, _, rest, values, done ++ value, read.alter alone.freeSound, alone,
    still.trans (kept.trans limit), form, ?_, ?_, more, short, ?_, ?_⟩
  · have here := passed.position
    have inner : state.input.position + blanks.length + 1 ≤
        opened.input.position + text.length := by omega
    have outer : position ≤ state.input.position + blanks.length := by omega
    have longer : state.input.position + blanks.length ≤
        opened.input.position + text.length + 1 := by omega
    have whole := placed.trans (Span.hull_ordered (Nat.le_succ _) inner (Nat.le_succ _))
    rw [place, span, whole]
    exact Span.hull_ordered order outer longer
  · omega
  · rw [texts, List.flatten_cons, List.append_assoc]
  · simp only [List.length_append, List.length_cons, List.length_nil] at lengths
    omega

theorem moreStrings_succeeds (unused : begun.arena.Unused) (room : 2 ≤ begun.arena.limit)
    (joining : Joining begun start whole total id state) :
    Succeeds table (moreStrings id) state (Closed fun id after =>
      OnlyString whole ⟨start, total⟩ id after.arena ∧ begun.EndSeen 1 after) := by
  refine repeatUntil_yields (Joining begun start whole total) _ joining ?_
  rintro _ current ⟨rfl, node, arena, position, rest, values, done, passed, lone, limit, shape,
    span, order, series, short, texts, lengths⟩
  refine Yields.get_bind ?_
  simp only [passed.left.unlabelled, Option.isSome_none, Bool.false_eq_true, if_false]
  cases series with
  | done =>
      refine (peekToken_end passed.left passed.unseen (passed.mode ▸ ⟨rfl, rfl⟩)).bind ?_
      rintro ⟨_, place⟩ after ⟨ahead, rfl, same, seen⟩
      have ended := seen.since (passed.builds unused lone limit)
      have final : node.span = ⟨start, total⟩ := span.trans (by rw [lengths]; rfl)
      refine yields_pure ⟨⟨⟨rfl, node, ?_, ?_, final⟩, ended⟩, ended.unlabelled, ended.closes⟩
      · rw [same, passed.same_arena]
        exact lone
      · rw [shape, texts, List.flatten_nil, List.append_nil]
  | next blank string more =>
      refine (joinNext_succeeds passed lone limit shape span order blank string more short texts
        lengths room).bind ?_
      rintro ⟨_, place⟩ peeked ⟨ahead, rfl, reads⟩
      refine Yields.skip_bind ahead ((reads _).bind ?_)
      rintro next after ⟨unlabelled, joins⟩
      have noKey : Scan.Succeeds Scan.takeQuotedKey? after fun key same =>
          key = none ∧ same = after := by
        refine ⟨unlabelled, ?_⟩
        rw [← unlabelled]
      refine Yields.lift_bind noKey ?_
      rintro _ _ ⟨rfl, rfl⟩
      exact Yields.lift_bind joins fun joined after again => yields_pure again

/-- A string and those that follow it, up to the end of the program. -/
theorem literal_series {values : List Bytes}
    (ahead : state.lookahead = some ⟨.literalBegin .string, ⟨start, start + 1⟩⟩)
    (next : State.AtText { state with lookahead := none, previousStop := start + 1 } literal text
      value rest) (sound : state.input.Sound) (unused : state.arena.Unused)
    (unlabelled : state.quotedKey = none) (position : state.input.position = start + 1)
    (series : Quoted.Series values rest)
    (short : ∀ each ∈ values, each.length ≤ state.limits.tokenMax)
    (room : 2 ≤ state.arena.limit) :
    Succeeds table (Parse.literal .string) state (Closed fun id after =>
      OnlyString (value :: values).flatten
        ⟨start, state.input.position + text.length + 1 + rest.length⟩ id after.arena ∧
      state.EndSeen 1 after) := by
  let taken : State := { state with lookahead := none, previousStop := start + 1 }
  have passed : state.Builds 0 taken := .of_same rfl rfl rfl rfl rfl
  have space : taken.Room 1 := by
    change state.arena.live + 1 ≤ state.arena.limit
    rw [unused.live]
    omega
  refine Yields.take_bind ahead
    ((quoted_text next sound unused.freeSound unlabelled space).bind ?_)
  rintro id after ⟨node, arena, stored, shape, span, read⟩
  obtain ⟨rfl, lone, limit⟩ := unused.alloc stored
  have order : start + 1 ≤ state.input.position + text.length := by omega
  have total : start ≤ state.input.position + text.length + 1 := by omega
  have whole : node.span = ⟨start, state.input.position + text.length + 1⟩ :=
    span.trans (Span.hull_ordered (Nat.le_succ _) order (Nat.le_succ _))
  have joining : Joining taken start (value :: values).flatten
      (state.input.position + text.length + 1 + rest.length) ⟨0⟩ after :=
    ⟨rfl, node, arena, _, rest, values, value, read, lone, limit, shape, whole, total, series,
      short, rfl, rfl⟩
  have unused : taken.arena.Unused := unused
  refine (moreStrings_succeeds unused room joining).mono ?_
  rintro id after ⟨⟨alone, ended⟩, unlabelled, closes⟩
  exact ⟨⟨alone, ended.since passed⟩, unlabelled, closes⟩

end Parse

/-- Strings with nothing but blanks between them are one string, from the first opening quote to
the last closing one. Besides the scope of the program it is the only node in the end, and no
more slots than these two have been handed out. The limits need room for one level of nesting
and for the two nodes. -/
theorem parse_adjacent_strings {value written rest : Bytes} {values : List Bytes}
    (options : ParseOptions) (symbols : SymbolTable) (first : Quoted.Writes value written rest)
    (others : Quoted.Series values rest)
    (short : ∀ each ∈ value :: values, each.length ≤ options.tokenMax)
    (deep : 0 < options.maxDepth) (room : 2 ≤ options.maxNodes) :
    let parsed := parse (written ++ rest) options symbols
    parsed.Clean ∧ ∃ id string root scope, parsed.tree = some root ∧
      parsed.arena.nodes = [(id, string), (root, scope)] ∧
      string.shape = .text .string (value :: values).flatten ∧
      string.span = ⟨0, (written ++ rest).length⟩ ∧
      (∃ locals, scope.shape = .scope locals (some id)) ∧
      parsed.arena.live = 2 ∧ parsed.arena.slotCount = 2 := by
  obtain ⟨interpolates, text, rfl, holds⟩ := first
  obtain ⟨shortest, short⟩ := List.forall_mem_cons.mp short
  let quote := Scan.quoteOf interpolates
  let source : Bytes := quote :: (text ++ [quote]) ++ rest
  let begun := State.start source options symbols
  let literal := Quoted.plain interpolates 0
  let seen : State := { begun.opened 1 literal with
    tokens := [⟨.literalBegin .string, ⟨0, 1⟩⟩]
    lookahead := some ⟨.literalBegin .string, ⟨0, 1⟩⟩ }
  have left : begun.Left ([quote] ++ (text ++ literal.closing :: rest)) := by
    have spelled : source = [quote] ++ (text ++ literal.closing :: rest) := by
      simp [source, literal, quote]
    have given := State.start_left source options symbols
    exact ⟨given.idle, given.sound, given.text.trans spelled, given.free, given.unlabelled⟩
  have opens : Scan.Succeeds Scan.nextToken begun fun token after =>
      token = ⟨.literalBegin .string, ⟨0, 1⟩⟩ ∧ after = begun.opened 1 literal :=
    Scan.quoteBegin_yields interpolates [] left.idle rfl nofun left.text
  have unused : begun.arena.Unused := ⟨rfl, rfl, rfl⟩
  have passed : begun.Builds 0 seen := .of_same rfl rfl rfl rfl rfl
  have sound : seen.input.Sound := by
    refine left.sound.advance ?_
    rw [left.text]
    exact Nat.le_add_left ..
  have space : begun.Room 2 := State.start_room room
  have peeks : ∀ table, Parse.Succeeds table Parse.peekKind begun fun kind after => ∃ token,
      kind = token.kind ∧ kind.opensOperand = true ∧ after.lookahead = some token ∧
        after = seen :=
    fun _ => Parse.peekKind_opener rfl opens
  have yields : ∀ depth token current, current.lookahead = some token →
      token.kind.opensOperand = true → current = seen →
      Parse.Succeeds (Parse.table depth) Parse.statement current (Closed fun id after =>
        OnlyString (value :: values).flatten ⟨0, source.length⟩ id after.arena ∧
          begun.EndSeen 1 after) := by
    rintro depth _ _ - - rfl
    apply Parse.statement_of_literal rfl deep
    intro depth
    let deeper : State := { seen with depth := seen.depth + 1 }
    have next : State.AtText { deeper with lookahead := none, previousStop := 1 } literal text
        value rest :=
      State.opened_atText left rfl rfl holds shortest rfl rfl rfl rfl
    refine (Parse.literal_series rfl next sound unused rfl rfl others short room).mono ?_
    rintro id after ⟨⟨alone, ended⟩, unlabelled, closes⟩
    have lengths : deeper.input.position + text.length + 1 + rest.length = source.length := by
      change 0 + 1 + text.length + 1 + rest.length = (quote :: (text ++ [quote]) ++ rest).length
      simp only [List.length_append, List.length_cons, List.length_nil]
      omega
    rw [lengths] at alone
    exact ⟨⟨alone, ended.shallower.since passed⟩, unlabelled, closes⟩
  have statements : ∀ depth, Parse.Succeeds (Parse.table depth) Parse.statements begun
      fun body after => ∃ id, body = some id ∧
        OnlyString (value :: values).flatten ⟨0, source.length⟩ id after.arena ∧
          begun.EndSeen 1 after := by
    intro depth
    apply Parse.statements_of_closed (peeks _) (yields depth)
    rintro id after ⟨-, seen⟩
    obtain ⟨span, ahead⟩ := seen.ended
    exact ⟨_, ahead, rfl, rfl⟩
  rcases parse_scope statements space with
    ⟨fatal, quiet, id, root, locals, middle, after, alone, stores, tree, arena, -⟩ |
      ⟨error, after, never, -⟩
  · obtain ⟨rfl, node, lone, shape, span⟩ := alone
    obtain ⟨scope, formed, taken⟩ := stores.taken
    obtain ⟨rfl, pair, -⟩ := lone.alloc taken
    refine ⟨.of_quiet fatal quiet, ⟨0⟩, node, ⟨1⟩, scope, tree, arena ▸ pair.nodes, shape, span,
      ⟨locals, formed⟩, arena ▸ pair.live, ?_⟩
    rw [arena, Arena.slotCount, pair.slots]
    rfl
  · exact never.elim

/-- A string with an escaped quote, one right after it, and one after a tab and a blank. There is
room for no more than two nodes. -/
theorem parse_adjacent_strings_three :
    let first := ascii "'a\\''"
    let rest := ascii "\"b\"\t \"\\n\""
    let options : ParseOptions := { maxNodes := 2 }
    Quoted.Writes [0x61, 0x27] first rest ∧ Quoted.Series [[0x62], [0x0A]] rest ∧
      (∀ each ∈ ([[0x61, 0x27], [0x62], [0x0A]] : List Bytes), each.length ≤ options.tokenMax) ∧
      0 < options.maxDepth ∧ 2 ≤ options.maxNodes ∧
      let parsed := parse (first ++ rest) options {}
      parsed.Clean ∧ ∃ id string root scope, parsed.tree = some root ∧
        parsed.arena.nodes = [(id, string), (root, scope)] ∧
        string.shape = .text .string [0x61, 0x27, 0x62, 0x0A] ∧
        string.span = ⟨0, 14⟩ ∧ (∃ locals, scope.shape = .scope locals (some id)) ∧
        parsed.arena.live = 2 ∧ parsed.arena.slotCount = 2 := by
  intro first rest options
  have opening : Quoted.Writes [0x61, 0x27] first rest := by
    have letter : (0x61 : Byte) ≠ 0x5C := by decide
    have reads : Quotation.Reads (0x27 :: rest) (Quoted.plain false 0)
        (0x61 :: 0x5C :: ([0x27] ++ [])) (0x61 :: ([0x27] ++ [])) (Quoted.plain false 0)
        (Remarks.later ([] ++ Remarks.later [] 2) 1) :=
      .plain rfl letter (.escaped rfl rfl .done)
    exact ⟨false, _, rfl, _, reads, rfl⟩
  have second : Quoted.Writes [0x62] (ascii "\"b\"") (ascii "\t \"\\n\"") := by
    have letter : (0x62 : Byte) ≠ 0x5C := by decide
    have reads : Quotation.Reads (ascii "\"\t \"\\n\"") (Quoted.plain true 0) [0x62] [0x62]
        (Quoted.plain true 0) [] :=
      .plain rfl letter .done
    exact ⟨true, _, rfl, _, reads, rfl⟩
  have third : Quoted.Writes [0x0A] (ascii "\"\\n\"") [] := by
    have reads : Quotation.Reads [0x22] (Quoted.plain true 0) (0x5C :: ([0x6E] ++ []))
        ([0x0A] ++ []) (Quoted.plain true 0) ([] ++ Remarks.later [] 2) :=
      .escaped rfl rfl .done
    exact ⟨true, _, rfl, _, reads, rfl⟩
  have blank : ∀ byte ∈ ([0x09, 0x20] : Bytes), byte.isBlank = true :=
    List.all_eq_true.mp rfl
  have series : Quoted.Series [[0x62], [0x0A]]
      ([] ++ (ascii "\"b\"" ++ ([0x09, 0x20] ++ (ascii "\"\\n\"" ++ [])))) :=
    .next nofun second (.next blank third .done)
  have short : ∀ each ∈ ([[0x61, 0x27], [0x62], [0x0A]] : List Bytes),
      each.length ≤ options.tokenMax := by
    simp only [List.forall_mem_cons]
    exact ⟨by decide, by decide, by decide, nofun⟩
  exact ⟨opening, series, short, by decide, by decide,
    parse_adjacent_strings options {} opening series short (by decide) (by decide)⟩

end RubySyntax

/-
Lists of targets.

A list is read item by item, with a comma before each but the first one. Wherever it starts, at
a star or after a name that has been read, what comes of it depends on the items alone: their
variables, apart before the splat, at it and after it, and their names declared in order.
-/

import RubySyntax.Proofs.Targets.Target

namespace RubySyntax

/-! ### Lists as they are written -/

structure TargetItem where
  gathers : Bool
  name : VariableName
deriving DecidableEq

namespace TargetItem

def plain (name : VariableName) : TargetItem :=
  ⟨false, name⟩

def text (item : TargetItem) : Bytes :=
  if item.gathers then ascii "*" ++ item.name.text else item.name.text

def words (blank : Bool) (item : TargetItem) : List Word :=
  if item.gathers then [.gather blank .star, .name false item.name] else [.name blank item.name]

def nodes (item : TargetItem) : Nat :=
  if item.gathers then 2 else 1

theorem textOf_words (blank : Bool) (item : TargetItem) :
    Word.textOf (item.words blank) = Word.blanks blank ++ item.text := by
  obtain ⟨gathers, name⟩ := item
  cases gathers with
  | false => simp [words, text, Word.text]
  | true => simp [words, text, Word.text, Word.blanks, GatherMark.text]

def laterWords (items : List TargetItem) : List Word :=
  items.flatMap fun item => .comma :: item.words true

theorem commaList_words (blank : Bool) (item : TargetItem) (more : List TargetItem) :
    Word.commaList words blank (item :: more) = item.words blank ++ laterWords more :=
  rfl

end TargetItem

def itemsNodes (items : List TargetItem) : Nat :=
  (items.map TargetItem.nodes).sum

/-- Targets that are split at a splat, if there is one: those before it, and its name with those
after it. -/
structure Targets where
  before : List VariableName := []
  gathered : Option (VariableName × List VariableName) := none
deriving DecidableEq

namespace Targets

def splatItems (targets : Targets) : List TargetItem :=
  match targets.gathered with
  | none => []
  | some (rest, after) => ⟨true, rest⟩ :: after.map .plain

def items (targets : Targets) : List TargetItem :=
  targets.before.map .plain ++ targets.splatItems

def names (targets : Targets) : List Bytes :=
  targets.items.map (·.name.text)

def push (targets : Targets) (item : TargetItem) : Targets :=
  match targets.gathered with
  | some (rest, after) => { targets with gathered := some (rest, after ++ [item.name]) }
  | none =>
      if item.gathers then { targets with gathered := some (item.name, []) }
      else { targets with before := targets.before ++ [item.name] }

/-- Some targets are the first ones, and the items that are left are the others. -/
def Split (targets done : Targets) (left : List TargetItem) : Prop :=
  match done.gathered with
  | none => ∃ more, targets.before = done.before ++ more ∧
      left = more.map .plain ++ targets.splatItems
  | some (rest, after) => targets.before = done.before ∧
      ∃ more, targets.gathered = some (rest, after ++ more) ∧ left = more.map .plain

variable {targets done : Targets} {item : TargetItem} {left : List TargetItem}

theorem split_start (targets : Targets) : targets.Split {} targets.items :=
  ⟨targets.before, rfl, rfl⟩

/-- The next item is one of the first ones as well, and it is the only splat if it is one. -/
theorem Split.step (split : targets.Split done (item :: left)) :
    targets.Split (done.push item) left ∧ (item.gathers = true → done.gathered = none) := by
  obtain ⟨before, gathered⟩ := done
  cases gathered with
  | none =>
      obtain ⟨more, whole, same⟩ := split
      refine ⟨?_, fun _ => rfl⟩
      cases more with
      | nil =>
          obtain ⟨all, splat⟩ := targets
          cases splat with
          | none => cases same
          | some splat =>
              obtain ⟨rest, after⟩ := splat
              cases same
              exact ⟨whole.trans (List.append_nil _), after, rfl, rfl⟩
      | cons name more =>
          cases same
          exact ⟨more, by rw [whole]; exact (List.append_assoc before [name] more).symm, rfl⟩
  | some splat =>
      obtain ⟨rest, after⟩ := splat
      obtain ⟨whole, more, same, items⟩ := split
      cases more with
      | nil => cases items
      | cons name more =>
          cases items
          refine ⟨⟨whole, more, ?_, rfl⟩, nofun⟩
          rw [same, List.append_assoc]
          rfl

/-- If no items are left the targets are all of them. -/
theorem Split.finish (split : targets.Split done []) : done = targets := by
  obtain ⟨before, gathered⟩ := done
  obtain ⟨all, splat⟩ := targets
  cases gathered with
  | none =>
      obtain ⟨more, whole, same⟩ := split
      obtain ⟨noName, noSplat⟩ := List.append_eq_nil_iff.mp same.symm
      obtain rfl := List.map_eq_nil_iff.mp noName
      cases splat with
      | none => exact congrArg (Targets.mk · none) (whole.trans (List.append_nil _)).symm
      | some splat => cases noSplat
  | some gathered =>
      obtain ⟨rest, after⟩ := gathered
      obtain ⟨rfl, more, rfl, items⟩ := split
      obtain rfl := List.map_eq_nil_iff.mp items.symm
      rw [List.append_nil]

end Targets

/-! ### Lists that have been read -/

structure Targets.Stored (targets : Targets) (arena : Arena) (symbols : SymbolTable)
    (list : TargetList) : Prop where
  before : targets.before.Forall₂ (·.Stored arena symbols ·) list.before
  gathered : match targets.gathered with
    | none => list.rest = none ∧ list.after = []
    | some (rest, after) =>
        (∃ splat id, list.rest = some splat ∧ arena.Shaped splat (.optional .splat (some id)) ∧
          rest.Stored arena symbols id) ∧ after.Forall₂ (·.Stored arena symbols ·) list.after

def TargetItem.Pushed (item : TargetItem) (arena : Arena) (symbols : SymbolTable)
    (list longer : TargetList) : Prop :=
  ∃ id, item.name.Stored arena symbols id ∧
    if item.gathers then ∃ splat, arena.Shaped splat (.optional .splat (some id)) ∧
      longer = { list with rest := some splat }
    else longer = list.push id

namespace Targets.Stored

variable {targets : Targets} {arena : Arena} {symbols : SymbolTable} {list longer : TargetList}
  {item : TargetItem}

theorem kept {before after : State} {nodes errors : Nat} (gains : before.Gains nodes errors after)
    (stored : targets.Stored before.arena before.symbols list) :
    targets.Stored after.arena after.symbols list := by
  obtain ⟨all, gathered⟩ := targets
  refine ⟨stored.before.imp fun _ _ held => held.kept gains, ?_⟩
  have splat := stored.gathered
  cases gathered with
  | none => exact splat
  | some gathered =>
      obtain ⟨⟨splat, id, same, shaped, held⟩, after⟩ := splat
      exact ⟨⟨splat, id, same, gains.shaped shaped, held.kept gains⟩,
        after.imp fun _ _ held => held.kept gains⟩

theorem rest_eq_none (stored : targets.Stored arena symbols list)
    (without : targets.gathered = none) : list.rest = none := by
  have splat := stored.gathered
  rw [without] at splat
  exact splat.1

theorem push (stored : targets.Stored arena symbols list)
    (pushed : item.Pushed arena symbols list longer)
    (single : item.gathers = true → targets.gathered = none) :
    (targets.push item).Stored arena symbols longer := by
  obtain ⟨all, gathered⟩ := targets
  obtain ⟨gathers, name⟩ := item
  obtain ⟨before, splat⟩ := stored
  obtain ⟨id, held, pushed⟩ := pushed
  have one : [name].Forall₂ (·.Stored arena symbols ·) [id] := .cons held .nil
  cases gathered with
  | none =>
      obtain ⟨noSplat, noMore⟩ := splat
      cases gathers with
      | true =>
          obtain ⟨splat, shaped, rfl⟩ := pushed
          exact ⟨before, ⟨splat, id, rfl, shaped, held⟩, noMore ▸ .nil⟩
      | false =>
          obtain rfl : longer = list.push id := pushed
          rw [TargetList.push, noSplat]
          exact ⟨List.rel_append before one, rfl, noMore⟩
  | some gathered =>
      obtain ⟨rest, after⟩ := gathered
      cases gathers with
      | true => cases single rfl
      | false =>
          obtain rfl : longer = list.push id := pushed
          obtain ⟨⟨splat, inner, same, shaped⟩, later⟩ := splat
          rw [TargetList.push, same]
          exact ⟨before, ⟨splat, inner, rfl, shaped⟩, List.rel_append later one⟩

end Targets.Stored

structure ItemRead (before : State) (item : TargetItem) (words : List Word) (list longer : TargetList)
    (after : State) : Prop where
  pushed : item.Pushed after.arena after.symbols list longer
  ahead : after.Ahead words
  adds : ∃ symbol, after.symbols.find? item.name.text = some symbol ∧
    before.Adds item.nodes 0 [symbol] after

structure ItemsRead (before : State) (targets : Targets) (left : List TargetItem)
    (list : TargetList) (after : State) : Prop where
  stored : ∃ done, targets.Split done left ∧ done.Stored after.arena after.symbols list
  adds : ∃ nodes names symbols, nodes + itemsNodes left = itemsNodes targets.items ∧
    names ++ left.map (·.name.text) = targets.names ∧ after.symbols.Issued names symbols ∧
    before.Adds nodes 0 symbols after

namespace ItemsRead

variable {before state after : State} {targets : Targets} {left : List TargetItem}
  {list longer : TargetList} {item : TargetItem} {words : List Word}

theorem start (state : State) (targets : Targets) :
    ItemsRead state targets targets.items {} state where
  stored := ⟨{}, targets.split_start, .nil, rfl, rfl⟩
  adds := ⟨0, [], [], Nat.zero_add _, rfl, .nil, .refl state⟩

theorem later (read : ItemsRead before targets left list state) (passed : state.Adds 0 0 [] after) :
    ItemsRead before targets left list after where
  stored := by
    obtain ⟨done, split, stored⟩ := read.stored
    exact ⟨done, split, stored.kept passed.toGains⟩
  adds := by
    obtain ⟨nodes, names, symbols, counted, written, issued, adds⟩ := read.adds
    exact ⟨nodes, names, symbols, counted, written, issued.later passed.names, adds.later passed⟩

theorem rest_eq_none (read : ItemsRead before targets (item :: left) list state)
    (gathers : item.gathers = true) : list.rest = none := by
  obtain ⟨done, split, stored⟩ := read.stored
  exact stored.rest_eq_none (split.step.2 gathers)

theorem push (read : ItemsRead before targets (item :: left) list state)
    (one : ItemRead state item words list longer after) :
    ItemsRead before targets left longer after := by
  obtain ⟨done, split, stored⟩ := read.stored
  obtain ⟨nodes, names, symbols, counted, written, issued, adds⟩ := read.adds
  obtain ⟨symbol, found, added⟩ := one.adds
  constructor
  · exact ⟨done.push item, split.step.1, (stored.kept added.toGains).push one.pushed split.step.2⟩
  · refine ⟨nodes + item.nodes, names ++ [item.name.text], symbols ++ [symbol], ?_, ?_, ?_,
      adds.trans added⟩
    · rw [← counted, Nat.add_assoc]
      rfl
    · rw [← written, List.append_assoc]
      rfl
    · exact (issued.later added.names).append (.cons found .nil)

theorem room {more : Nat} (read : ItemsRead before targets left list state)
    (room : before.Room (itemsNodes targets.items + more)) :
    state.Room (itemsNodes left + more) := by
  obtain ⟨nodes, names, symbols, counted, written, issued, adds⟩ := read.adds
  rw [← counted, Nat.add_assoc] at room
  exact room.after adds.toGains

end ItemsRead

structure TargetsRead (before : State) (targets : Targets) (words : List Word) (id : NodeId)
    (after : State) : Prop where
  stored : ∃ list : TargetList, targets.Stored after.arena after.symbols list ∧
    after.arena.Shaped id (.targets list.before list.rest list.after)
  ahead : after.Ahead (.assign :: words)
  adds : ∃ symbols, after.symbols.Issued targets.names symbols ∧
    before.Adds (itemsNodes targets.items + 1) 0 symbols after

theorem TargetsRead.later {before state after : State} {targets : Targets} {words : List Word}
    {id : NodeId} (read : TargetsRead before targets words id state)
    (ahead : after.Ahead (.assign :: words)) (passed : state.Adds 0 0 [] after) :
    TargetsRead before targets words id after := by
  obtain ⟨⟨list, stored, listed⟩, -, symbols, issued, adds⟩ := read
  exact ⟨⟨list, stored.kept passed.toGains, passed.shaped listed⟩, ahead, symbols,
    issued.later passed.names, adds.later passed⟩

namespace Parse

variable {depth : Nat} {state : State} {words : List Word} {list : TargetList}

def EndsTarget (words : List Word) : Prop :=
  ∃ next more, words = next :: more ∧ (next = .comma ∨ next = .assign)

theorem targetSplat_word {name : VariableName} {blank : Bool} {star : Token}
    (ahead : state.Ahead (.gather blank .star :: .name false name :: words))
    (ends : EndsTarget words) (room : state.Room 2) (single : list.rest = none)
    (seen : state.lookahead = some star) :
    Succeeds (Parse.table depth) (targetSplat list) state fun longer after =>
      ItemRead state ⟨true, name⟩ words list longer after := by
  obtain ⟨next, more, rfl, ends⟩ := ends
  refine Yields.take_word ahead seen fun taken _ ahead passed => ?_
  refine (peekKind_word ahead).bind ?_
  rintro _ peeked ⟨token, rfl, _, ⟨symbol, kind, -⟩, ahead, looked⟩
  rw [kind]
  have before := looked.since passed
  have roomy : peeked.Room (1 + 1) := before.room room
  refine (descend_yields .target (fun depth => target_word ahead ends
    (roomy.of_le (by decide))) depth).bind ?_
  rintro id read ⟨symbol, found, stored, ahead, adds⟩
  rw [pure_bind]
  refine Yields.lift_bind (Scan.spanOf_yields id) ?_
  rintro span _ rfl
  refine (alloc_ahead ahead (State.Room.after roomy adds.toGains) _ _).bind ?_
  rintro splat after ⟨shaped, ahead, more⟩
  rw [single]
  have found := SymbolTable.Extends.find? more.names found
  exact yields_pure ⟨⟨id, ⟨symbol, found, more.shaped stored⟩, splat, shaped, rfl⟩, ahead, symbol,
    found, (adds.trans more).since before⟩

/-- An item of a list is read, and ends before a comma or the sign of the assignment. -/
theorem targetItem?_item {item : TargetItem} {blank : Bool}
    (ahead : state.Ahead (item.words blank ++ words)) (ends : EndsTarget words)
    (room : state.Room item.nodes) (single : item.gathers = true → list.rest = none) :
    Succeeds (Parse.table depth) (targetItem? list) state fun longer? after => ∃ longer,
      longer? = some longer ∧ ItemRead state item words list longer after := by
  obtain ⟨gathers, name⟩ := item
  cases gathers with
  | true =>
      refine (peekKind_word ahead).bind ?_
      rintro _ peeked ⟨token, rfl, seen, kind, ahead, looked⟩
      rw [show token.kind = .punct .splatStar from kind]
      refine (targetSplat_word ahead ends (looked.room room) (single rfl) seen).bind ?_
      rintro longer after ⟨pushed, ahead, symbol, found, adds⟩
      exact yields_pure ⟨longer, rfl, pushed, ahead, symbol, found, adds.since looked⟩
  | false =>
      obtain ⟨next, more, rfl, ends⟩ := ends
      refine (peekKind_word ahead).bind ?_
      rintro _ peeked ⟨token, rfl, seen, ⟨symbol, kind, -⟩, ahead, looked⟩
      rw [kind]
      refine (descend_yields .target (fun depth => target_word ahead ends (looked.room room))
        depth).bind ?_
      rintro id after ⟨symbol, found, stored, ahead, adds⟩
      exact yields_pure ⟨_, rfl, ⟨id, ⟨symbol, found, stored⟩, rfl⟩, ahead, symbol, found,
        adds.since looked⟩

def leftWords (starting : Bool) (left : List TargetItem) : List Word :=
  if starting then Word.commaList TargetItem.words false left else TargetItem.laterWords left

theorem endsTarget_laterWords (left : List TargetItem) :
    EndsTarget (TargetItem.laterWords left ++ .assign :: words) := by
  cases left with
  | nil => exact ⟨.assign, words, rfl, .inr rfl⟩
  | cons item left => exact ⟨.comma, _, rfl, .inl rfl⟩

theorem targetItem?_turn {origin : State} {targets : Targets} {item : TargetItem}
    {left : List TargetItem} {blank : Bool}
    (reads : ItemsRead origin targets (item :: left) list state)
    (ahead : state.Ahead (item.words blank ++ (TargetItem.laterWords left ++ .assign :: words)))
    (room : origin.Room (itemsNodes targets.items + 1)) :
    Succeeds (Parse.table depth) (do
      match ← targetItem? list with
      | none => return Turn.done list
      | some list => return .again (list, false)) state fun turn after => ∃ longer,
        turn = (.again (longer, false) : Turn (TargetList × Bool) TargetList) ∧
          ItemsRead origin targets left longer after ∧
          after.Ahead (leftWords false left ++ .assign :: words) := by
  have roomy : state.Room (item.nodes + itemsNodes left) := (reads.room room).of_le (Nat.le_succ _)
  refine (targetItem?_item ahead (endsTarget_laterWords left)
    (roomy.of_le (Nat.le_add_right ..)) reads.rest_eq_none).bind ?_
  rintro _ after ⟨longer, rfl, one⟩
  exact yields_pure ⟨longer, rfl, reads.push one, one.ahead⟩

theorem alloc_items {origin : State} {targets : Targets}
    (reads : ItemsRead origin targets [] list state) (ahead : state.Ahead (.assign :: words))
    (room : origin.Room (itemsNodes targets.items + 1)) (span : Span) :
    Succeeds (Parse.table depth)
      (liftM (Scan.alloc (.targets list.before list.rest list.after) span)) state
      (TargetsRead origin targets words) := by
  obtain ⟨done, split, stored⟩ := reads.stored
  obtain rfl := split.finish
  obtain ⟨nodes, names, symbols, counted, written, issued, adds⟩ := reads.adds
  rw [List.map_nil, List.append_nil] at written
  have total : nodes = itemsNodes done.items := counted
  subst written total
  refine (alloc_ahead ahead (reads.room room) _ span).mono ?_
  rintro id after ⟨shaped, ahead, more⟩
  refine ⟨⟨list, stored.kept more.toGains, shaped⟩, ahead, symbols, issued.later more.names, ?_⟩
  have whole := adds.trans more
  rwa [List.append_nil] at whole

theorem targetsRest_items {origin : State} {targets : Targets} {left : List TargetItem}
    {read : List NodeId} (reads : ItemsRead origin targets left { before := read } state)
    (ahead : state.Ahead (leftWords read.isEmpty left ++ .assign :: words))
    (starts : read.isEmpty = true → left ≠ [])
    (room : origin.Room (itemsNodes targets.items + 1)) (start : Span) :
    Succeeds (Parse.table depth) (targetsRest read start) state
      (TargetsRead origin targets words) := by
  refine Yields.bind (repeatUntil_yields (fun (read : TargetList × Bool) current => ∃ left,
      ItemsRead origin targets left read.1 current ∧
        current.Ahead (leftWords read.2 left ++ .assign :: words) ∧ (read.2 = true → left ≠ []))
    (fun list after => ItemsRead origin targets [] list after ∧ after.Ahead (.assign :: words))
    ⟨left, reads, ahead, starts⟩ ?_) ?_
  · rintro ⟨list, starting⟩ current ⟨left, reads, ahead, starts⟩
    cases left with
    | nil =>
        cases starting with
        | true => exact absurd rfl (starts rfl)
        | false =>
            refine (accept_other ahead fun _ _ kind => ?_).bind ?_
            · rw [show _ = TokenKind.punct .assign from kind]
              nofun
            rintro _ after ⟨rfl, -, ahead, passed⟩
            exact yields_pure ⟨reads.later passed, ahead⟩
    | cons item left =>
        cases starting with
        | true =>
            unfold targetTurn
            dsimp only
            rw [if_pos rfl, pure_bind]
            rw [leftWords, if_pos rfl, TargetItem.commaList_words, List.append_assoc] at ahead
            refine (targetItem?_turn reads ahead room).mono ?_
            rintro _ after ⟨longer, rfl, reads, ahead⟩
            exact ⟨left, reads, ahead, fun same => absurd same Bool.false_ne_true⟩
        | false =>
            have ahead : current.Ahead
                (.comma :: (item.words true ++ (TargetItem.laterWords left ++ .assign :: words))) := by
              rw [← List.append_assoc]
              exact ahead
            refine (accept_word ahead fun _ _ kind => kind).bind ?_
            rintro _ taken ⟨rfl, -, ahead, passed⟩
            refine (targetItem?_turn (reads.later passed) ahead room).mono ?_
            rintro _ after ⟨longer, rfl, reads, ahead⟩
            exact ⟨left, reads, ahead, fun same => absurd same Bool.false_ne_true⟩
  · rintro list read ⟨reads, ahead⟩
    exact Yields.spanSince_bind (alloc_items reads ahead room _)

end Parse

end RubySyntax

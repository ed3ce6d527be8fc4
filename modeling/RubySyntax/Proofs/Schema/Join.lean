/-
Strings that are joined.

A string that is joined to another is dissolved: its node is given back, and
its texts are joined to their neighbours. Nothing that was settled before the
string is touched, as all this was made with it.
-/

import RubySyntax.Proofs.Schema.Piece

namespace RubySyntax

variable {outcome : Arena} {known gained : Prop} {loose wide own more : NodeId → Prop}
  {base state before middle after : State} {id part : NodeId} {shape : Shape NodeId}
  {ids : List NodeId}

/-! ### Strings of one's own -/

def State.Owns (state : State) (id part : NodeId) : Prop :=
  part = id ∨
    ∃ parts, state.Settled id (.list .string parts) ∧ part ∈ parts ∧ state.Plain part

structure Dissolves (base state : State) (id : NodeId) : Prop where
  form : state.Plain id ∨ ∃ parts, state.Settled id (.list .string parts) ∧ state.Pieces parts
  new : ∀ part, state.Owns id part → ∀ shape, ¬base.Settled part shape

namespace Dissolves

theorem owns (dissolves : Dissolves base before id) (lasts : Lasts before after)
    (owns : after.Owns id part) : before.Owns id part := by
  cases owns with
  | inl same => exact .inl same
  | inr inside =>
      obtain ⟨parts, settled, member, plain⟩ := inside
      cases dissolves.form with
      | inl text =>
          obtain ⟨bytes, stored⟩ := text.later lasts
          cases settled.unique stored
      | inr list =>
          obtain ⟨first, stored, pieces⟩ := list
          cases settled.unique (lasts.settled stored rfl)
          cases pieces.kinds part member with
          | inl coded => exact absurd plain (coded.later lasts).not_plain
          | inr before => exact .inr ⟨_, stored, member, before⟩

theorem later (dissolves : Dissolves base before id) (lasts : Lasts before after) :
    Dissolves base after id where
  form := by
    cases dissolves.form with
    | inl text => exact .inl (text.later lasts)
    | inr list =>
        obtain ⟨parts, settled, pieces⟩ := list
        exact .inr ⟨parts, lasts.settled settled rfl, pieces.later lasts⟩
  new part owned := dissolves.new part (dissolves.owns lasts owned)

theorem since (dissolves : Dissolves middle state id) (lasts : Lasts base middle) :
    Dissolves base state id where
  form := dissolves.form
  new part owned shape settled := by
    obtain ⟨later, still, -⟩ := lasts part shape settled
    exact dissolves.new part owned later still

theorem holds (dissolves : Dissolves base state id) : state.Holds (state.Owns id) := by
  have text {part : NodeId} (plain : state.Plain part) :
      ∃ shape, state.Settled part shape ∧ shape.isString = true := by
    obtain ⟨bytes, settled⟩ := plain
    exact ⟨_, settled, rfl⟩
  intro part owned
  cases owned with
  | inl same =>
      subst same
      cases dissolves.form with
      | inl plain => exact text plain
      | inr list =>
          obtain ⟨parts, settled, -⟩ := list
          exact ⟨_, settled, rfl⟩
  | inr inside =>
      obtain ⟨parts, -, -, plain⟩ := inside
      exact text plain

end Dissolves

/-! ### Changes of strings -/

structure Edits (own : NodeId → Prop) (before after : State) : Prop where
  same : after = { before with arena := after.arena }
  free : after.arena.FreeSound
  apart : ∀ id, ¬own id → after.arena.get? id = before.arena.get? id
  texts : ∀ id node, own id → after.arena.get? id = some node →
    (∃ bytes, node.shape = .text .string bytes) ∨ before.arena.get? id = some node

namespace Edits

theorem refl (free : state.arena.FreeSound) : Edits own state state :=
  ⟨rfl, free, fun _ _ => rfl, fun _ _ _ => .inr⟩

theorem trans (first : Edits own before middle) (second : Edits own middle after) :
    Edits own before after where
  same := by
    rw [second.same, first.same]
  free := second.free
  apart id other := (second.apart id other).trans (first.apart id other)
  texts id node owned found := by
    cases second.texts id node owned found with
    | inl text => exact .inl text
    | inr earlier => exact first.texts id node owned earlier

theorem mono (edits : Edits more before after) (fewer : ∀ id, more id → own id) :
    Edits own before after where
  same := edits.same
  free := edits.free
  apart id other := edits.apart id fun owned => other (fewer id owned)
  texts id node _ found := by
    by_cases owned : more id
    · exact edits.texts id node owned found
    · rw [edits.apart id owned] at found
      exact .inr found

theorem put {content : Option Node} {arena : Arena} (puts : state.arena.Puts id content arena)
    (free : arena.FreeSound)
    (text : ∀ node, content = some node → ∃ bytes, node.shape = .text .string bytes) :
    Edits (fun other => other = id) state { state with arena } where
  same := rfl
  free := free
  apart other different := puts.apart different
  texts other node same found := by
    subst same
    change arena.get? other = some node at found
    rw [puts.at_slot] at found
    exact .inl (text node found)

theorem recycled (free : state.arena.FreeSound) (id : NodeId) :
    Edits (fun other => other = id) state { state with arena := state.arena.recycle id } := by
  obtain ⟨free, puts⟩ := Arena.recycle_spec free id
  exact .put puts free nofun

theorem lexer (edits : Edits own before after) : after.lexer = before.lexer := by
  rw [edits.same]

theorem settled (edits : Edits own before after) (held : before.Settled id shape)
    (other : ¬own id) : after.Settled id shape where
  found := by
    rw [edits.apart id other]
    exact held.found
  kept := held.kept
  unawaited := edits.lexer ▸ held.unawaited

theorem plain (edits : Edits own before after) (plain : before.Plain id) (other : ¬own id) :
    after.Plain id := by
  obtain ⟨bytes, settled⟩ := plain
  exact ⟨bytes, edits.settled settled other⟩

theorem coded (edits : Edits own before after) (coded : before.Coded id) (other : ¬own id) :
    after.Coded id := by
  obtain ⟨shape, settled, code⟩ := coded
  exact ⟨shape, edits.settled settled other, code⟩

theorem orderly (edits : Edits own before after) (orderly : before.Orderly)
    (unawaited : ∀ id, own id → id ∉ before.lexer.awaited) : after.Orderly where
  reads := edits.same ▸ orderly.reads.withArena after.arena
  free := edits.free
  waiting := by
    intro id member
    rw [edits.lexer] at member
    rw [edits.apart id fun owned => unawaited id owned member]
    exact orderly.waiting id member
  distinct := edits.lexer ▸ orderly.distinct
  ahead := by
    rw [edits.same]
    exact orderly.ahead

/-- Changes of loose nodes that were made since the start are left out of
account. -/
theorem leads (edits : Edits own middle after)
    (leads : Leads outcome wide known before middle gained)
    (unawaited : ∀ id, own id → id ∉ middle.lexer.awaited)
    (new : ∀ id, own id → ∀ shape, ¬before.Settled id shape)
    (within : ∀ id, own id → wide id) : Leads outcome wide known before after gained where
  orderly := edits.orderly leads.orderly unawaited
  lasts := by
    intro id shape settled
    obtain ⟨later, still, remains⟩ := leads.lasts id shape settled
    exact ⟨later, edits.settled still fun owned => new id owned shape settled, remains⟩
  conforms := by
    intro given follows conforming
    have earlier : outcome.Follows wide middle := by
      intro id shape settled tight
      exact follows id shape (edits.settled settled fun owned => tight (within id owned)) tight
    obtain ⟨conforms, learnt⟩ := leads.conforms given earlier conforming
    refine ⟨?_, learnt⟩
    intro id node found
    by_cases owned : own id
    · cases edits.texts id node owned found with
      | inl text =>
          obtain ⟨bytes, shape⟩ := text
          rw [shape]
          exact Shape.Free.conforms outcome
      | inr same => exact conforms id node same
    · rw [edits.apart id owned] at found
      exact conforms id node found

end Edits

/-! ### Joining -/

structure Mixed (own : NodeId → Prop) (state : State) (ids : List NodeId) : Prop where
  kinds : ∀ id ∈ ids, state.Coded id ∨ (state.Plain id ∧ own id)
  apart : ids.Pairwise fun left right => left = right → state.Coded left

namespace Mixed

theorem edits (mixed : Mixed own before ids) (edits : Edits more before after)
    (coded : ∀ id, before.Coded id → ¬more id) (other : ∀ id, before.Plain id → own id → ¬more id) :
    Mixed own after ids where
  kinds id member := by
    cases mixed.kinds id member with
    | inl code => exact .inl (edits.coded code (coded id code))
    | inr text => exact .inr ⟨edits.plain text.1 (other id text.1 text.2), text.2⟩
  apart := mixed.apart.imp fun code same => edits.coded (code same) (coded _ (code same))

theorem append {left right : List NodeId} (first : Mixed own state left)
    (second : Mixed more state right) (other : ∀ id, own id → ¬more id) :
    Mixed (fun id => own id ∨ more id) state (left ++ right) where
  kinds id member := by
    cases List.mem_append.mp member with
    | inl member => exact (first.kinds id member).imp_right fun text => ⟨text.1, .inl text.2⟩
    | inr member => exact (second.kinds id member).imp_right fun text => ⟨text.1, .inr text.2⟩
  apart := by
    apply List.pairwise_append.mpr
    refine ⟨first.apart, second.apart, ?_⟩
    intro id member _ also same
    subst same
    cases first.kinds id member with
    | inl coded => exact coded
    | inr text =>
        cases second.kinds id also with
        | inl coded => exact coded
        | inr more => exact absurd more.2 (other id text.2)

theorem toHead {left right : List NodeId} (mixed : Mixed own state (left ++ part :: right)) :
    Mixed own state (part :: (left ++ right)) where
  kinds id member := mixed.kinds id (List.perm_middle.mem_iff.mpr member)
  apart := by
    apply (List.pairwise_middle ?_).mp mixed.apart
    intro first second coded same
    subst same
    exact coded rfl

theorem text (mixed : Mixed own state ids) (member : id ∈ ids) {node : Node}
    (found : state.arena.get? id = some node) {bytes : Bytes}
    (shape : node.shape = .text .string bytes) : state.Plain id ∧ own id := by
  cases mixed.kinds id member with
  | inl coded =>
      obtain ⟨other, settled, code⟩ := coded
      rw [← settled.eq_of_found found, shape] at code
      cases code
  | inr text => exact text

/-- A text is there once. -/
theorem once (mixed : Mixed own state (part :: ids)) (plain : state.Plain part) :
    ∀ id ∈ ids, id ≠ part := by
  intro id member same
  exact ((List.pairwise_cons.mp mixed.apart).1 id member same.symm).not_plain plain

theorem tail (mixed : Mixed own state (part :: ids)) : Mixed own state ids where
  kinds id member := mixed.kinds id (List.mem_cons_of_mem _ member)
  apart := (List.pairwise_cons.mp mixed.apart).2

theorem headEdit (mixed : Mixed own before (part :: ids)) (first : before.Plain part)
    (mine : own part) (edits : Edits more before after) (plain : after.Plain part)
    (coded : ∀ id, before.Coded id → ¬more id) (other : ∀ id ∈ ids, ¬more id) :
    Mixed own after (part :: ids) where
  kinds id member := by
    cases List.mem_cons.mp member with
    | inl same => exact same ▸ .inr ⟨plain, mine⟩
    | inr member =>
        cases mixed.tail.kinds id member with
        | inl code => exact .inl (edits.coded code (coded id code))
        | inr text => exact .inr ⟨edits.plain text.1 (other id member), text.2⟩
  apart := by
    apply List.pairwise_cons.mpr
    constructor
    · intro id member same
      exact absurd same.symm (mixed.once first id member)
    · exact mixed.tail.apart.imp fun code same => edits.coded (code same) (coded _ (code same))

end Mixed

structure Composed (own : NodeId → Prop) (state : State) (id : NodeId) (ids : List NodeId) :
    Prop where
  mine : own id
  form : (state.Plain id ∧ ids = [id]) ∨
    (state.Settled id (.list .string ids) ∧ Mixed own state ids)

theorem Dissolves.composed (dissolves : Dissolves base state id) :
    ∃ ids, Composed (state.Owns id) state id ids := by
  cases dissolves.form with
  | inl plain => exact ⟨[id], .inl rfl, .inl ⟨plain, rfl⟩⟩
  | inr list =>
      obtain ⟨parts, settled, pieces⟩ := list
      refine ⟨parts, .inl rfl, .inr ⟨settled, ?_, pieces.apart⟩⟩
      intro part member
      exact (pieces.kinds part member).imp_right fun plain =>
        ⟨plain, .inr ⟨parts, settled, member, plain⟩⟩

theorem Composed.not_coded (composed : Composed own state id ids) : ¬state.Coded id := by
  intro coded
  cases composed.form with
  | inl text => exact coded.not_plain text.1
  | inr list => cases coded.not_string list.1

theorem Composed.edits (composed : Composed own before id ids) (edits : Edits more before after)
    (coded : ∀ id, before.Coded id → ¬more id) (other : ∀ id, own id → ¬more id) :
    Composed own after id ids where
  mine := composed.mine
  form := by
    have apart := other id composed.mine
    cases composed.form with
    | inl text => exact .inl ⟨edits.plain text.1 apart, text.2⟩
    | inr list =>
        exact .inr ⟨edits.settled list.1 apart, list.2.edits edits coded fun id _ => other id⟩

structure Strung (outcome : Arena) (loose : NodeId → Prop) (known : Prop) (base state : State)
    (id : NodeId) : Prop where
  dissolves : Dissolves base state id
  leads : Leads outcome (fun part => loose part ∨ state.Owns id part) known base state True

namespace Strung

theorem since (strung : Strung outcome loose known middle state id)
    (leads : Leads outcome loose known base middle True) :
    Strung outcome loose known base state id where
  dissolves := strung.dissolves.since leads.lasts
  leads := by
    refine Leads.next (leads.relax ?_) strung.leads
    intro part shape wide settled
    apply wide.resolve_right
    exact fun owned => strung.dissolves.new part owned shape settled

theorem later (strung : Strung outcome loose known base before id)
    (leads : Leads outcome (fun part => loose part ∨ before.Owns id part) known before after True) :
    Strung outcome loose known base after id where
  dissolves := strung.dissolves.later leads.lasts
  leads := by
    refine (strung.leads.next leads).relax ?_
    intro part shape wide _
    exact wide.imp_right (strung.dissolves.owns leads.lasts)

theorem safely (strung : Strung outcome loose known base before id)
    (safely : Safely before after) : Strung outcome loose known base after id :=
  strung.later (safely.leads fun _ => trivial)

/-- In the end it is a node as any other. -/
theorem tight (strung : Strung outcome loose known base state id) :
    Leads outcome loose known base state True :=
  strung.leads.relax fun _ _ isLoose _ => .inl isLoose

theorem holds (strung : Strung outcome loose known base state id) (holds : base.Holds loose) :
    state.Holds fun part => loose part ∨ state.Owns id part := by
  intro part wide
  cases wide with
  | inl isLoose => exact holds.later strung.leads.lasts part isLoose
  | inr owned => exact strung.dissolves.holds part owned

end Strung

namespace Scan

theorem modifyNode_edits (free : state.arena.FreeSound) (id : NodeId) {f : Node → Node}
    (text : ∀ node, state.arena.get? id = some node →
      ∃ bytes, (f node).shape = .text .string bytes) :
    Returns (modifyNode id f) state fun _ after => Edits (fun other => other = id) state after ∧
      ∃ node, after.arena.get? id = some node ∧ ∃ bytes, node.shape = .text .string bytes := by
  apply (nodeAt_returns id state).bind
  intro node reached looked
  obtain ⟨rfl, found⟩ := looked
  have puts := Arena.modify_spec found f
  apply returns_modify
  refine ⟨.put puts (free.modify id f) ?_, f node, puts.at_slot, text node found⟩
  intro new same
  cases same
  exact text node found

theorem joinTexts_edits {last part : NodeId} (text : state.Plain last)
    (free : state.arena.FreeSound) (joined : List NodeId) (bytes : Bytes) :
    Returns (do
      let span ← spanOf part
      recycle part
      setShape last (.text .string bytes)
      widen last span
      return joined) state fun result after => result = joined ∧ after.Plain last ∧
        Edits (fun id => id = last ∨ id = part) state after := by
  apply (spanOf_returns part state).bind
  intro span reached same
  subst same
  apply Returns.modify_bind
  have freed : Edits (fun id => id = part) reached
      { reached with arena := reached.arena.recycle part } := .recycled free part
  apply (modifyNode_edits freed.free last fun _ _ => ⟨bytes, rfl⟩).bind
  intro _ shaped first
  apply (modifyNode_edits first.1.free last ?_).bind
  · intro _ after second
    apply returns_pure
    obtain ⟨node, found, bytes, shape⟩ := second.2
    have all : Edits (fun id => id = last ∨ id = part) reached after :=
      (freed.mono fun _ => .inr).trans ((first.1.trans second.1).mono fun _ => .inl)
    refine ⟨rfl, ⟨bytes, ⟨node, found, shape⟩, rfl, ?_⟩, all⟩
    obtain ⟨old, settled⟩ := text
    exact all.lexer ▸ settled.unawaited
  · intro node found
    obtain ⟨old, same, text⟩ := first.2
    rw [found] at same
    cases same
    exact text

theorem joinString_edits {rest joined : List NodeId} (free : state.arena.FreeSound)
    (mixed : Mixed own state (joined ++ part :: rest))
    (chain : joined.IsChain fun left right => state.Coded left ∨ state.Coded right) :
    Returns (joinString joined part) state fun result after => Edits own state after ∧
      Mixed own after (result ++ rest) ∧
      result.IsChain fun left right => after.Coded left ∨ after.Coded right := by
  have whole := mixed.toHead
  cases joined with
  | nil => exact returns_pure ⟨.refl free, mixed, .singleton part⟩
  | cons last joined =>
      apply (shapeOf_returns last state).bind
      intro lastShape reached looked
      obtain ⟨rfl, lastNode, lastFound, rfl⟩ := looked
      apply (shapeOf_returns part reached).bind
      intro partShape reached looked
      obtain ⟨rfl, partNode, partFound, rfl⟩ := looked
      split
      · next bytes more lastShape partShape =>
          have lastText := whole.tail.text List.mem_cons_self lastFound lastShape
          have partText := whole.text List.mem_cons_self partFound partShape
          have apart (id : NodeId) (coded : reached.Coded id) : ¬(id = last ∨ id = part) := by
            intro changed
            cases changed with
            | inl same => exact (same ▸ coded).not_plain lastText.1
            | inr same => exact (same ▸ coded).not_plain partText.1
          apply (joinTexts_edits lastText.1 free _ _).mono
          intro result after joins
          obtain ⟨rfl, plain, edits⟩ := joins
          have all : Edits own reached after := by
            apply edits.mono
            intro id changed
            cases changed with
            | inl same => exact same ▸ lastText.2
            | inr same => exact same ▸ partText.2
          refine ⟨all, whole.tail.headEdit lastText.1 lastText.2 edits plain apart ?_, ?_⟩
          · intro id member changed
            cases changed with
            | inl same => exact whole.tail.once lastText.1 id member same
            | inr same => exact whole.once partText.1 id (List.mem_cons_of_mem _ member) same
          · apply chain.imp
            intro left right coded
            exact coded.imp (fun code => edits.coded code (apart _ code))
              fun code => edits.coded code (apart _ code)
      · next noTexts =>
          apply returns_pure
          refine ⟨.refl free, whole, List.isChain_cons.mpr ⟨?_, chain⟩⟩
          intro other member
          cases member
          cases whole.kinds part List.mem_cons_self with
          | inl coded => exact .inl coded
          | inr partText =>
              cases whole.tail.kinds last List.mem_cons_self with
              | inl coded => exact .inr coded
              | inr lastText =>
                  obtain ⟨bytes, lastSettled⟩ := lastText.1
                  obtain ⟨more, partSettled⟩ := partText.1
                  exact absurd (partSettled.eq_of_found partFound)
                    (noTexts bytes more (lastSettled.eq_of_found lastFound))

theorem foldlM_joinString_edits {rest joined : List NodeId} (free : state.arena.FreeSound)
    (mixed : Mixed own state (joined ++ rest))
    (chain : joined.IsChain fun left right => state.Coded left ∨ state.Coded right) :
    Returns (rest.foldlM joinString joined) state fun result after => Edits own state after ∧
      Mixed own after result ∧
      result.IsChain fun left right => after.Coded left ∨ after.Coded right := by
  induction rest generalizing state joined with
  | nil =>
      rw [List.append_nil] at mixed
      exact returns_pure ⟨.refl free, mixed, chain⟩
  | cons part rest ih =>
      rw [List.foldlM_cons]
      apply (joinString_edits free mixed chain).bind
      intro joined reached step
      obtain ⟨first, mixed, chain⟩ := step
      apply (ih first.free mixed chain).mono
      intro result after last
      exact ⟨first.trans last.1, last.2⟩

theorem stringParts_edits (free : state.arena.FreeSound) (composed : Composed own state id ids) :
    Returns (stringParts id) state fun parts after => parts = ids ∧
      Edits (fun other => other = id) state after ∧ Mixed own after ids := by
  apply (shapeOf_returns id state).bind
  intro shape reached looked
  obtain ⟨rfl, node, found, rfl⟩ := looked
  split
  · next parts shape =>
      cases composed.form with
      | inl text =>
          obtain ⟨bytes, settled⟩ := text.1
          rw [settled.eq_of_found found] at shape
          cases shape
      | inr list =>
          rw [list.1.eq_of_found found] at shape
          cases shape
          have edits : Edits (fun other => other = id) reached
              { reached with arena := reached.arena.recycle id } := .recycled free id
          apply Returns.modify_bind
          refine returns_pure ⟨rfl, edits, list.2.edits edits ?_ ?_⟩
          · intro other coded same
            subst same
            cases coded.not_string list.1
          · intro other plain _ same
            subst same
            obtain ⟨bytes, settled⟩ := plain
            cases settled.unique list.1
  · next noList =>
      cases composed.form with
      | inl text =>
          obtain ⟨plain, rfl⟩ := text
          refine returns_pure ⟨rfl, .refl free, ?_, List.pairwise_singleton _ _⟩
          intro other member
          cases List.mem_singleton.mp member
          exact .inr ⟨plain, composed.mine⟩
      | inr list => exact absurd (list.1.eq_of_found found) (noList ids)

theorem Adds.owns (adds : Adds middle shape id after)
    (made : LiteralMade base middle .string shape) (owned : after.Owns id part) :
    part = id ∨ part ∈ shape.pieces ∧ middle.Plain part := by
  cases owned with
  | inl same => exact .inl same
  | inr inside =>
      obtain ⟨parts, stored, member, plain⟩ := inside
      cases (adds.settled made.kept).unique stored
      cases made.pieces.kinds part member with
      | inl coded => exact absurd plain (coded.later adds.lasts).not_plain
      | inr before => exact .inr ⟨member, before⟩

theorem Adds.strung (adds : Adds middle shape id after)
    (made : LiteralMade base middle .string shape)
    (leads : Leads outcome wide known base middle True) (holds : base.Holds loose)
    (within : ∀ part shape, loose part ∨ after.Owns id part → middle.Settled part shape → wide part) :
    Strung outcome loose known base after id := by
  have settled := adds.settled made.kept
  constructor
  · constructor
    · cases made.string rfl with
      | inl text =>
          obtain ⟨bytes, rfl⟩ := text
          exact .inl ⟨bytes, settled⟩
      | inr list =>
          obtain ⟨parts, rfl⟩ := list
          exact .inr ⟨parts, settled, made.pieces.later adds.lasts⟩
    · intro part owned
      cases adds.owns made owned with
      | inl same =>
          subst same
          intro shape old
          obtain ⟨later, still, -⟩ := leads.lasts part shape old
          exact middle.not_settled_of_empty adds.empty later still
      | inr inside => exact made.new part inside.1 inside.2
  · apply (leads.relax within).next
    apply adds.leads
    intro _ follows _
    apply made.conforms follows
    intro part coded owned
    cases owned with
    | inl isLoose => exact coded.tight (holds.later leads.lasts) isLoose
    | inr owned =>
        cases adds.owns made owned with
        | inl same =>
            subst same
            obtain ⟨old, before, -⟩ := coded
            exact middle.not_settled_of_empty adds.empty old before
        | inr inside => exact coded.not_plain inside.2

/-- What has become of pieces that were joined is one string. -/
theorem joined_leads {joined : List NodeId} (mixed : Mixed own state joined)
    (chain : joined.IsChain fun left right => state.Coded left ∨ state.Coded right)
    (new : ∀ part, own part → ∀ shape, ¬base.Settled part shape) (holds : base.Holds loose)
    (leads : Leads outcome (fun part => loose part ∨ own part) known base state True)
    (span : Span) :
    Returns (do
      match joined with
      | [only] =>
          match ← shapeOf only with
          | .text .string _ =>
              modifyNode only fun node => { node with span }
              return only
          | _ => alloc (.list .string joined.reverse) span
      | _ => alloc (.list .string joined.reverse) span) state
        fun id after => Strung outcome loose known base after id := by
  have pieces : state.Pieces joined.reverse := by
    constructor
    · intro id member
      exact (mixed.kinds id (List.mem_reverse.mp member)).imp_right And.left
    · apply List.pairwise_reverse.mpr
      apply mixed.apart.imp
      intro left right coded same
      exact same ▸ coded same.symm
    · apply List.isChain_reverse.mpr
      exact chain.imp fun _ _ => Or.symm
  have mine (part : NodeId) (member : part ∈ joined.reverse) (plain : state.Plain part) :
      own part := by
    cases mixed.kinds part (List.mem_reverse.mp member) with
    | inl coded => exact absurd plain coded.not_plain
    | inr text => exact text.2
  have dynamic : Returns (alloc (.list .string joined.reverse) span) state
      fun id after => Strung outcome loose known base after id := by
    apply (alloc_leads _ span leads.orderly).mono
    intro id after adds
    have made : LiteralMade base state .string (.list .string joined.reverse) :=
      partsShape_made pieces (fun part member plain => new part (mine part member plain)) .string ""
    apply adds.strung made leads holds
    intro part shape wide settled
    apply wide.imp_right
    intro owned
    cases adds.owns made owned with
    | inl same =>
        subst same
        exact absurd settled (state.not_settled_of_empty adds.empty shape)
    | inr inside => exact mine part inside.1 inside.2
  split
  · next only =>
      apply (shapeOf_returns only state).bind
      intro shape reached looked
      obtain ⟨rfl, node, found, rfl⟩ := looked
      split
      · next bytes shape =>
          obtain ⟨plain, owned⟩ := mixed.text (List.mem_singleton_self only) found shape
          obtain ⟨old, stored⟩ := plain
          apply (modifyNode_edits leads.orderly.free only ?_).bind
          · intro _ after edited
            obtain ⟨edits, last, still, text⟩ := edited
            obtain ⟨bytes, text⟩ := text
            have settled : after.Settled only (.text .string bytes) :=
              ⟨⟨last, still, text⟩, rfl, edits.lexer ▸ stored.unawaited⟩
            have alone (part : NodeId) (owned : after.Owns only part) : part = only := by
              cases owned with
              | inl same => exact same
              | inr inside =>
                  obtain ⟨parts, other, -⟩ := inside
                  cases settled.unique other
            apply returns_pure
            refine ⟨⟨.inl ⟨bytes, settled⟩, ?_⟩, ?_⟩
            · intro part owns
              exact alone part owns ▸ new only owned
            · have all := edits.leads leads (fun _ same => same ▸ stored.unawaited)
                (fun _ same => same ▸ new only owned) fun _ same => .inr (same ▸ owned)
              apply all.relax
              intro part _ wide _
              exact wide.imp_right fun owns => alone part owns ▸ owned
          · intro other same
            rw [found] at same
            cases same
            exact ⟨bytes, shape⟩
      · exact dynamic
  · exact dynamic

/-- What is left of two strings becomes one. -/
theorem joinStrings_leads {left right : NodeId} (leftOwn : Dissolves base state left)
    (rightOwn : Dissolves base state right)
    (apart : ∀ part, state.Owns left part → ¬state.Owns right part) (holds : base.Holds loose)
    (leads : Leads outcome
      (fun part => loose part ∨ state.Owns left part ∨ state.Owns right part) known base state True) :
    Returns (joinStrings left right) state fun id after =>
      Strung outcome loose known base after id := by
  obtain ⟨leftParts, leftComposed⟩ := leftOwn.composed
  obtain ⟨rightParts, rightComposed⟩ := rightOwn.composed
  let own (part : NodeId) : Prop := state.Owns left part ∨ state.Owns right part
  have new (part : NodeId) (owned : own part) : ∀ shape, ¬base.Settled part shape :=
    owned.elim (leftOwn.new part) (rightOwn.new part)
  have strings : state.Holds own := fun part owned =>
    owned.elim (leftOwn.holds part) (rightOwn.holds part)
  have unawaited (part : NodeId) (owned : own part) : part ∉ state.lexer.awaited := by
    obtain ⟨shape, settled, -⟩ := strings part owned
    exact settled.unawaited
  have code (part : NodeId) (coded : state.Coded part) : ¬own part := coded.tight strings
  unfold joinStrings spanOfBoth
  rw [bind_assoc]
  apply (spanOf_returns left state).bind
  intro leftSpan reached same
  subst same
  rw [bind_assoc]
  apply (spanOf_returns right reached).bind
  intro rightSpan reached same
  subst same
  rw [pure_bind]
  apply (stringParts_edits leads.orderly.free leftComposed).bind
  intro leftTorn first torn
  obtain ⟨same, firstEdits, firstMixed⟩ := torn
  rw [same]
  have rightStill : Composed (reached.Owns right) first right rightParts := by
    apply rightComposed.edits firstEdits
    · intro part coded same
      exact code part coded (.inl (.inl same))
    · intro part owned same
      exact apart part (.inl same) owned
  apply (stringParts_edits firstEdits.free rightStill).bind
  intro rightTorn second torn
  obtain ⟨same, secondEdits, secondMixed⟩ := torn
  rw [same]
  have leftMixed : Mixed (reached.Owns left) second leftParts := by
    apply firstMixed.edits secondEdits
    · intro part coded same
      exact rightStill.not_coded (same ▸ coded)
    · intro part _ owned same
      exact apart part owned (.inl same)
  have mixed : Mixed own second ([] ++ (leftParts ++ rightParts)) := leftMixed.append secondMixed apart
  apply (foldlM_joinString_edits secondEdits.free mixed .nil).bind
  intro joined after folded
  obtain ⟨foldEdits, joinedMixed, chain⟩ := folded
  have all : Edits own reached after :=
    ((firstEdits.mono fun _ same => .inl (.inl same)).trans
      (secondEdits.mono fun _ same => .inr (.inl same))).trans foldEdits
  exact joined_leads joinedMixed chain new holds
    (all.leads leads unawaited new fun _ => .inr) _

end Scan

end RubySyntax

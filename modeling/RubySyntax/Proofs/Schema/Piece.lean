/-
The pieces of literals, and strings that are joined.

No two texts come next to each other, as one of two neighbours is code, and
code is never joined. What may still be changed about a string is itself and
its texts: these are the nodes that are loose while strings are joined.
-/

import RubySyntax.Proofs.Grammar.Piece
import RubySyntax.Proofs.Schema.Token

namespace RubySyntax

variable {α : Type} {outcome : Arena} {known gained : Prop} {loose wider own : NodeId → Prop}
  {base state before middle after : State} {id : NodeId} {shape : Shape NodeId}

/-! ### Code and text -/

def Shape.isCode : Shape α → Bool
  | .optional .group _ => true
  | .named .instanceVariable _ => true
  | .named .classVariable _ => true
  | .named .globalVariable _ => true
  | .numberedReference _ => true
  | .backReference _ => true
  | _ => false

theorem Shape.lasts_of_isCode {shape : Shape α} (code : shape.isCode = true) :
    shape.lasts = true ∧ shape.isBinary = false ∧ shape.isString = false ∧
      shape.tag ≠ "str" := by
  unfold isCode at code
  split at code
  · exact ⟨rfl, rfl, rfl, by simp [tag, OptionalForm.tag]⟩
  · exact ⟨rfl, rfl, rfl, by simp [tag, NameForm.tag]⟩
  · exact ⟨rfl, rfl, rfl, by simp [tag, NameForm.tag]⟩
  · exact ⟨rfl, rfl, rfl, by simp [tag, NameForm.tag]⟩
  · exact ⟨rfl, rfl, rfl, by simp [tag]⟩
  · exact ⟨rfl, rfl, rfl, by simp [tag]⟩
  · cases code

theorem Shape.free_of_isCode {shape : Shape NodeId} (code : shape.isCode = true) :
    shape.Free := by
  unfold isCode at code
  split at code
  · infer_instance
  · infer_instance
  · infer_instance
  · infer_instance
  · infer_instance
  · infer_instance
  · cases code

namespace State

def Coded (state : State) (id : NodeId) : Prop :=
  ∃ shape, state.Settled id shape ∧ shape.isCode = true

def Plain (state : State) (id : NodeId) : Prop :=
  ∃ bytes, state.Settled id (.text .string bytes)

theorem Coded.later (coded : before.Coded id) (lasts : Lasts before after) : after.Coded id := by
  obtain ⟨shape, settled, code⟩ := coded
  exact ⟨shape, lasts.settled settled (Shape.lasts_of_isCode code).2.1, code⟩

theorem Plain.later (plain : before.Plain id) (lasts : Lasts before after) : after.Plain id := by
  obtain ⟨bytes, settled⟩ := plain
  exact ⟨bytes, lasts.settled settled rfl⟩

theorem Coded.not_string (coded : state.Coded id) (settled : state.Settled id shape) :
    shape.isString = false := by
  obtain ⟨other, stored, code⟩ := coded
  rw [settled.unique stored]
  exact (Shape.lasts_of_isCode code).2.2.1

theorem Coded.not_plain (coded : state.Coded id) : ¬state.Plain id := by
  intro plain
  obtain ⟨bytes, settled⟩ := plain
  cases coded.not_string settled

theorem Coded.tight (coded : state.Coded id) (holds : state.Holds loose) : ¬loose id := by
  intro isLoose
  obtain ⟨shape, settled, string⟩ := holds id isLoose
  rw [coded.not_string settled] at string
  cases string

theorem Coded.untagged (coded : state.Coded id) (follows : outcome.Follows loose state)
    (tight : ¬loose id) : ¬outcome.Tagged ["str"] id := by
  intro tagged
  obtain ⟨node, found, text⟩ := tagged
  obtain ⟨shape, settled, code⟩ := coded
  obtain ⟨last, same, remains⟩ := follows id shape settled tight
  rw [found] at same
  cases same
  obtain ⟨-, single, -, other⟩ := Shape.lasts_of_isCode code
  rw [← remains.eq single] at other
  exact other (List.mem_singleton.mp text)

structure Pieces (state : State) (ids : List NodeId) : Prop where
  kinds : ∀ id ∈ ids, state.Coded id ∨ state.Plain id
  apart : ids.Pairwise fun left right => left = right → state.Coded left
  chain : ids.IsChain fun left right => state.Coded left ∨ state.Coded right

namespace Pieces

variable {ids : List NodeId}

theorem nil : state.Pieces [] :=
  ⟨nofun, .nil, .nil⟩

theorem later (pieces : before.Pieces ids) (lasts : Lasts before after) : after.Pieces ids where
  kinds id member := (pieces.kinds id member).imp (·.later lasts) (·.later lasts)
  apart := pieces.apart.imp fun coded same => (coded same).later lasts
  chain := pieces.chain.imp fun _ _ coded => coded.imp (·.later lasts) (·.later lasts)

theorem joined (pieces : state.Pieces ids) (follows : outcome.Follows loose state)
    (tight : ∀ id, state.Coded id → ¬loose id) :
    ids.IsChain fun left right =>
      ¬(outcome.Tagged ["str"] left ∧ outcome.Tagged ["str"] right) := by
  apply pieces.chain.imp
  intro left right coded texts
  cases coded with
  | inl coded => exact coded.untagged follows (tight left coded) texts.1
  | inr coded => exact coded.untagged follows (tight right coded) texts.2

end Pieces

end State

/-! ### Pieces that were read -/

namespace Part

def isCode : Part → Bool
  | .code _ => true
  | .text .. => false

def Joined (parts : List Part) : Prop :=
  parts.IsChain fun left right => left.isCode = true ∨ right.isCode = true

theorem joined_join {joined : List Part} (apart : Joined joined) (part : Part) :
    Joined (join joined part) := by
  unfold join
  split
  · exact apart
  · next bytes span lineHead rest =>
      unfold Joined at apart ⊢
      rw [List.isChain_cons] at apart ⊢
      exact ⟨apart.1, apart.2⟩
  · next unjoined =>
      unfold Joined
      apply List.isChain_cons.mpr
      refine ⟨?_, apart⟩
      intro next member
      cases part with
      | code node => exact .inl rfl
      | text more moreSpan moreHead =>
          cases next with
          | code node => exact .inr rfl
          | text bytes span lineHead =>
              cases joined with
              | nil => cases member
              | cons first rest =>
                  cases member
                  exact absurd rfl (unjoined more moreSpan moreHead bytes span lineHead rest rfl)

theorem joined_joinAll (parts : List Part) : Joined (joinAll parts) := by
  have folded (joined : List Part) (apart : Joined joined) : Joined (parts.foldl join joined) := by
    induction parts generalizing joined with
    | nil => exact apart
    | cons part parts ih => exact ih (join joined part) (joined_join apart part)
  unfold Joined joinAll
  rw [List.isChain_reverse]
  exact (folded [] .nil).imp fun _ _ coded => coded.symm

end Part

namespace Scan

/-! ### Shapes of literals -/

structure Noded (before : State) (parts : List Part) (ids : List NodeId) (after : State) :
    Prop where
  safely : Safely before after
  pieces : after.Pieces ids
  first : ∀ id ∈ ids.head?, ∃ part ∈ parts.head?, part.isCode = true → after.Coded id
  new : ∀ id ∈ ids, after.Plain id → ∀ shape, ¬before.Settled id shape

theorem partNodes_returns {parts : List Part} (orderly : state.Orderly)
    (joined : Part.Joined parts) (coded : ∀ id ∈ Part.codes parts, state.Coded id) :
    Returns (parts.mapM partNode) state (Noded state parts) := by
  induction parts generalizing state with
  | nil =>
      apply returns_pure
      exact ⟨.refl orderly, .nil, nofun, nofun⟩
  | cons part parts ih =>
      obtain ⟨beside, rest⟩ := List.isChain_cons.mp joined
      rw [List.mapM_cons]
      cases part with
      | code node =>
          have isCode : state.Coded node := coded node List.mem_cons_self
          have step : Returns (partNode (.code node)) state fun id after =>
              id = node ∧ after = state := returns_pure ⟨rfl, rfl⟩
          apply step.bind
          intro id reached same
          obtain ⟨rfl, rfl⟩ := same
          apply (ih orderly rest fun id member => coded id (List.mem_cons_of_mem _ member)).bind
          intro ids after noded
          have still := isCode.later noded.safely.lasts
          apply returns_pure
          refine ⟨noded.safely, ⟨?_, ?_, ?_⟩, ?_, ?_⟩
          · intro other member
            cases List.mem_cons.mp member with
            | inl same => exact same ▸ .inl still
            | inr member => exact noded.pieces.kinds other member
          · exact List.pairwise_cons.mpr ⟨fun _ _ _ => still, noded.pieces.apart⟩
          · exact List.isChain_cons.mpr ⟨fun _ _ => .inl still, noded.pieces.chain⟩
          · intro other member
            cases member
            exact ⟨_, rfl, fun _ => still⟩
          · intro other member plain
            cases List.mem_cons.mp member with
            | inl same => exact absurd (same ▸ plain) still.not_plain
            | inr member => exact noded.new other member plain
      | text bytes span lineHead =>
          have step : Returns (partNode (.text bytes span lineHead)) state
              (Adds state (.text .string bytes)) := alloc_leads _ span orderly
          apply step.bind
          intro text reached adds
          have safely := adds.safely inferInstance
          have stored := adds.settled rfl
          have plain : reached.Plain text := ⟨bytes, stored⟩
          have fresh := state.not_settled_of_empty adds.empty
          apply (ih safely.orderly rest fun id member => (coded id member).later safely.lasts).bind
          intro ids after noded
          apply returns_pure
          refine ⟨safely.trans noded.safely, ⟨?_, ?_, ?_⟩, ?_, ?_⟩
          · intro other member
            cases List.mem_cons.mp member with
            | inl same => exact same ▸ .inr (plain.later noded.safely.lasts)
            | inr member => exact noded.pieces.kinds other member
          · apply List.pairwise_cons.mpr
            refine ⟨?_, noded.pieces.apart⟩
            intro other member same
            subst same
            cases noded.pieces.kinds text member with
            | inl coded => exact coded
            | inr plain => exact absurd stored (noded.new text member plain _)
          · apply List.isChain_cons.mpr
            refine ⟨?_, noded.pieces.chain⟩
            intro other member
            obtain ⟨next, follows, code⟩ := noded.first other member
            cases beside next follows with
            | inl isCode => cases isCode
            | inr isCode => exact .inr (code isCode)
          · exact fun _ _ => ⟨_, rfl, nofun⟩
          · intro other member isPlain
            cases List.mem_cons.mp member with
            | inl same => exact same ▸ fresh
            | inr member =>
                intro shape settled
                obtain ⟨later, still, -⟩ := safely.lasts other shape settled
                exact noded.new other member isPlain later still

def literalTags : LiteralKind → List String
  | .string | .words => ["str", "dstr"]
  | .shell => ["xstr", "dxstr"]
  | .regexp => ["regx", "dregx"]
  | .symbol | .symbols => ["sym", "dsym"]

structure LiteralMade (base state : State) (kind : LiteralKind) (shape : Shape NodeId) :
    Prop where
  tagged : shape.tag ∈ literalTags kind
  kept : shape.lasts = true
  single : shape.isBinary = false
  wishless : shape.places = []
  filled : shape.Filled
  pieces : state.Pieces shape.pieces
  new : ∀ id ∈ shape.pieces, state.Plain id → ∀ shape, ¬base.Settled id shape
  string : kind = .string → (∃ bytes, shape = .text .string bytes) ∨
    ∃ parts, shape = .list .string parts

namespace LiteralMade

variable {kind : LiteralKind}

theorem later (made : LiteralMade base before kind shape) (lasts : Lasts before after) :
    LiteralMade base after kind shape where
  tagged := made.tagged
  kept := made.kept
  single := made.single
  wishless := made.wishless
  filled := made.filled
  pieces := made.pieces.later lasts
  new id member plain := by
    cases made.pieces.kinds id member with
    | inl coded => exact absurd plain (coded.later lasts).not_plain
    | inr before => exact made.new id member before
  string := made.string

theorem of_text (tagged : shape.tag ∈ literalTags kind) (kept : shape.lasts = true)
    (single : shape.isBinary = false) (wishless : shape.places = []) (filled : shape.Filled)
    (whole : shape.pieces = []) (string : kind = .string → ∃ bytes, shape = .text .string bytes) :
    LiteralMade base state kind shape where
  tagged := tagged
  kept := kept
  single := single
  wishless := wishless
  filled := filled
  pieces := whole ▸ .nil
  new := whole ▸ nofun
  string isString := .inl (string isString)

theorem conforms (made : LiteralMade base state kind shape) (follows : outcome.Follows loose state)
    (tight : ∀ id, state.Coded id → ¬loose id) : shape.Conforms outcome where
  kinds := by
    rw [made.wishless]
    exact nofun
  filled := made.filled
  joined := made.pieces.joined follows tight

end LiteralMade

theorem textShape_makes (orderly : state.Orderly) (kind : LiteralKind) (bytes : Bytes)
    (flags : String) :
    Returns (textShape kind bytes flags) state fun shape after =>
      Safely state after ∧ LiteralMade base after kind shape := by
  have symbol (symbolic : "sym" ∈ literalTags kind) (other : kind ≠ .string) :
      Returns (do return .named .symbol (← intern bytes)) state fun shape after =>
        Safely state after ∧ LiteralMade base after kind shape := by
    apply (Idle.returns state).bind
    intro name reached idles
    apply returns_pure
    refine ⟨idles.safely orderly, .of_text symbolic rfl rfl rfl trivial rfl ?_⟩
    exact fun string => absurd string other
  have text {shape : Shape NodeId} (made : LiteralMade base state kind shape) :
      Returns (pure shape) state fun shape after =>
        Safely state after ∧ LiteralMade base after kind shape :=
    returns_pure ⟨.refl orderly, made⟩
  cases kind with
  | string => exact text (.of_text List.mem_cons_self rfl rfl rfl trivial rfl fun _ => ⟨bytes, rfl⟩)
  | words => exact text (.of_text List.mem_cons_self rfl rfl rfl trivial rfl nofun)
  | shell => exact text (.of_text List.mem_cons_self rfl rfl rfl trivial rfl nofun)
  | regexp => exact text (.of_text List.mem_cons_self rfl rfl rfl trivial rfl nofun)
  | symbol => exact symbol (by decide) nofun
  | symbols => exact symbol (by decide) nofun

theorem partsShape_made {ids : List NodeId} (pieces : state.Pieces ids)
    (new : ∀ id ∈ ids, state.Plain id → ∀ shape, ¬base.Settled id shape) (kind : LiteralKind)
    (flags : String) : LiteralMade base state kind (partsShape kind ids flags) := by
  have second {first second : String} : second ∈ [first, second] :=
    List.mem_cons_of_mem _ List.mem_cons_self
  cases kind with
  | string => exact ⟨second, rfl, rfl, rfl, trivial, pieces, new, fun _ => .inr ⟨ids, rfl⟩⟩
  | words => exact ⟨second, rfl, rfl, rfl, trivial, pieces, new, nofun⟩
  | shell => exact ⟨second, rfl, rfl, rfl, trivial, pieces, new, nofun⟩
  | regexp => exact ⟨second, rfl, rfl, rfl, trivial, pieces, new, nofun⟩
  | symbol => exact ⟨second, rfl, rfl, rfl, trivial, pieces, new, nofun⟩
  | symbols => exact ⟨second, rfl, rfl, rfl, trivial, pieces, new, nofun⟩

theorem literalShape_makes {parts : List Part} (orderly : state.Orderly)
    (coded : ∀ id ∈ Part.codes parts, state.Coded id) (kind : LiteralKind) (flags : String) :
    Returns (literalShape kind parts flags) state fun shape after =>
      Safely state after ∧ LiteralMade state after kind shape := by
  rw [← Part.codes_joinAll] at coded
  have joined := Part.joined_joinAll parts
  unfold literalShape
  split
  · exact textShape_makes orderly kind [] flags
  · exact textShape_makes orderly kind _ flags
  · apply (partNodes_returns orderly joined coded).bind
    intro ids after noded
    exact returns_pure ⟨noded.safely, partsShape_made noded.pieces noded.new kind flags⟩

end Scan

end RubySyntax

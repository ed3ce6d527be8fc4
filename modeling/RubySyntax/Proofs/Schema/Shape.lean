/-
The schema of the tree: what may stand below a node in each of its places.

The children of a node are slots of one store, so their kinds are not in its
type. What the kinds are is said here by their tags, relative to a store.
-/

import Mathlib.Data.List.Chain
import RubySyntax.Grammar.Call
import RubySyntax.Grammar.Literal
import RubySyntax.Proofs.Store

namespace RubySyntax

def Arena.Tagged (arena : Arena) (tags : List String) (id : NodeId) : Prop :=
  ∃ node, arena.get? id = some node ∧ node.shape.tag ∈ tags

namespace Arena

variable {arena : Arena} {tags more : List String} {id : NodeId} {items : Array NodeId}

theorem Tagged.mono (tagged : arena.Tagged tags id) (fewer : tags ⊆ more) :
    arena.Tagged more id := by
  obtain ⟨node, found, listed⟩ := tagged
  exact ⟨node, found, fewer listed⟩

theorem Tagged.singleton (tagged : arena.Tagged tags id) :
    ∀ item ∈ [id], arena.Tagged tags item := by
  intro item member
  cases List.mem_singleton.mp member
  exact tagged

def Tagged? (arena : Arena) (tags : List String) (id? : Option NodeId) : Prop :=
  ∀ id ∈ id?, arena.Tagged tags id

theorem Tagged?.toList {id? : Option NodeId} (tagged : arena.Tagged? tags id?) :
    ∀ id ∈ id?.toList, arena.Tagged tags id :=
  fun id member => tagged id (Option.mem_toList.mp member)

def AllTagged (arena : Arena) (tags : List String) (items : Array NodeId) : Prop :=
  ∀ item ∈ items, arena.Tagged tags item

theorem AllTagged.empty : arena.AllTagged tags #[] :=
  nofun

theorem AllTagged.push (all : arena.AllTagged tags items) (tagged : arena.Tagged tags id) :
    arena.AllTagged tags (items.push id) := by
  intro item member
  cases Array.mem_push.mp member with
  | inl old => exact all item old
  | inr same => exact same ▸ tagged

theorem AllTagged.toList (all : arena.AllTagged tags items) :
    ∀ item ∈ items.toList, arena.Tagged tags item :=
  fun item member => all item (Array.mem_toList_iff.mp member)

end Arena

namespace Shape

/-! ### The schema -/

/-- Children of a node that stand in a place for certain kinds only, and the
tags of these kinds. -/
def places {α : Type} : Shape α → List (List α × List String)
  | .binary .multipleAssign left _ => [([left], ["mlhs"])]
  | .targets _ rest _ => [(rest.toList, ["splat", "restarg"])]
  | .call _ _ _ _ block => [(block.toList, ["iter", "block-pass"])]
  | .functionCall _ _ block => [(block.toList, ["iter", "block-pass"])]
  | .superCall _ block => [(block.toList, ["iter", "block-pass"])]
  | .bareSuper block => [(block.toList, ["iter", "block-pass"])]
  | .rescue _ clauses _ => [(clauses, ["resbody"])]
  | .caseOf _ clauses _ => [(clauses, ["when"])]
  | .closure _ parameters body => [(parameters.toList, ["args"]), ([body], ["scope"])]
  | .method _ parameters body => [(parameters.toList, ["args"]), ([body], ["scope"])]
  | .singletonMethod _ _ parameters body => [(parameters.toList, ["args"]), ([body], ["scope"])]
  | .classDefinition _ _ body => [([body], ["scope"])]
  | .opening _ _ body => [([body], ["scope"])]
  | .unary .atExit body => [([body], ["scope"])]
  | .unary .lineMatch pattern => [([pattern], ["regx", "dregx"])]
  | .formals group =>
      [(group.required, ["arg", "mlhs"]), (group.optional, ["optarg"]),
        (group.rest.toList, ["restarg"]), (group.post, ["arg", "mlhs"]),
        (group.keywords, ["kwarg"]), (group.keywordRest.toList, ["kwrest"]),
        (group.block.toList, ["blockarg"])]
  | .list .words items => [(items, ["str", "dstr"])]
  | .list .symbols items => [(items, ["sym", "dsym"])]
  | _ => []

def pieces {α : Type} : Shape α → List α
  | .list .string parts => parts
  | .list .shell parts => parts
  | .list .symbol parts => parts
  | .dynamicRegexp parts _ => parts
  | _ => []

/-- A list of statements has at least two of them, and a body that handles
something a clause. -/
def Filled {α : Type} : Shape α → Prop
  | .list .statements items => 2 ≤ items.length
  | .rescue _ clauses _ => clauses ≠ []
  | _ => True

structure Conforms (arena : Arena) (shape : Shape NodeId) : Prop where
  kinds : ∀ place ∈ shape.places, ∀ child ∈ place.1, arena.Tagged place.2 child
  filled : shape.Filled
  joined : shape.pieces.IsChain fun left right =>
    ¬(arena.Tagged ["str"] left ∧ arena.Tagged ["str"] right)

section

variable {arena : Arena} {shape : Shape NodeId} {items others : List NodeId}
  {tags more : List String}

theorem Conforms.of_place (place : shape.places = [(items, tags)]) (filled : shape.Filled)
    (whole : shape.pieces = []) (listed : ∀ item ∈ items, arena.Tagged tags item) :
    shape.Conforms arena where
  kinds := by
    rw [place]
    intro place member child inside
    cases List.mem_singleton.mp member
    exact listed child inside
  filled := filled
  joined := by
    rw [whole]
    exact .nil

theorem Conforms.of_places (places : shape.places = [(items, tags), (others, more)])
    (filled : shape.Filled) (whole : shape.pieces = [])
    (listed : ∀ item ∈ items, arena.Tagged tags item)
    (alsoListed : ∀ item ∈ others, arena.Tagged more item) : shape.Conforms arena where
  kinds := by
    rw [places]
    intro place member child inside
    cases List.mem_pair.mp member with
    | inl same =>
        subst same
        exact listed child inside
    | inr same =>
        subst same
        exact alsoListed child inside
  filled := filled
  joined := by
    rw [whole]
    exact .nil

end

class Free (shape : Shape NodeId) : Prop where
  conforms : ∀ arena, shape.Conforms arena

/-! ### Nodes without wishes -/

section Free

variable {α : Type}

theorem Free.of_none {shape : Shape NodeId} (places : shape.places = [])
    (filled : shape.Filled) (pieces : shape.pieces = []) : Free shape where
  conforms arena := by
    constructor
    · rw [places]
      exact nofun
    · exact filled
    · rw [pieces]
      exact .nil

instance (locals : List Symbol) (body : Option NodeId) : Free (.scope locals body) :=
  .of_none rfl trivial rfl
instance (items : List NodeId) : Free (.list .yield items) := .of_none rfl trivial rfl
instance (items : List NodeId) : Free (.list .array items) := .of_none rfl trivial rfl
instance (form : OptionalForm) (item : Option NodeId) : Free (.optional form item) :=
  .of_none rfl trivial rfl
instance (exceptions : List NodeId) (target body : Option NodeId) :
    Free (.rescueClause exceptions target body) := .of_none rfl trivial rfl
instance (body cleanup : Option NodeId) : Free (.ensure body cleanup) := .of_none rfl trivial rfl
instance (condition : NodeId) (whenTrue whenFalse : Option NodeId) :
    Free (.conditional condition whenTrue whenFalse) := .of_none rfl trivial rfl
instance (form : LoopForm) (condition : NodeId) (body : Option NodeId) (bodyFirst : Bool) :
    Free (.loop form condition body bodyFirst) := .of_none rfl trivial rfl
instance (target iterated : NodeId) (body : Option NodeId) :
    Free (.forLoop target iterated body) := .of_none rfl trivial rfl
instance (conditions : List NodeId) (body : Option NodeId) : Free (.whenClause conditions body) :=
  .of_none rfl trivial rfl
instance (operand : NodeId) : Free (.unary .negation operand) := .of_none rfl trivial rfl
instance (operand : NodeId) : Free (.unary .defined operand) := .of_none rfl trivial rfl
instance (operand : NodeId) : Free (.unary .blockPass operand) := .of_none rfl trivial rfl
instance (operand : NodeId) : Free (.unary .atStart operand) := .of_none rfl trivial rfl
instance (left right : NodeId) : Free (.binary .and left right) := .of_none rfl trivial rfl
instance (left right : NodeId) : Free (.binary .or left right) := .of_none rfl trivial rfl
instance (left right : NodeId) : Free (.binary .range left right) := .of_none rfl trivial rfl
instance (left right : NodeId) : Free (.binary .openRange left right) := .of_none rfl trivial rfl
instance (left right : NodeId) : Free (.binary .flipFlop left right) := .of_none rfl trivial rfl
instance (left right : NodeId) : Free (.binary .openFlipFlop left right) :=
  .of_none rfl trivial rfl
instance (left right : NodeId) : Free (.binary .assign left right) := .of_none rfl trivial rfl
instance (target : NodeId) (operator : Symbol) (value : NodeId) :
    Free (.operatorAssign target operator value) := .of_none rfl trivial rfl
instance (entries : List (HashEntry NodeId)) : Free (.hash entries) := .of_none rfl trivial rfl
instance (form : NameForm) (name : Symbol) : Free (.named form name) := .of_none rfl trivial rfl
instance (form : RestForm) (name : Option Symbol) : Free (.restParameter form name) :=
  .of_none rfl trivial rfl
instance (owner : NodeId) (name : Symbol) : Free (.scopedConstant owner name) :=
  .of_none rfl trivial rfl
instance (number : Nat) : Free (.numberedReference number) := .of_none rfl trivial rfl
instance (byte : Byte) : Free (.backReference byte) := .of_none rfl trivial rfl
instance (form : LeafForm) : Free (.leaf form) := .of_none rfl trivial rfl
instance (value : Int) : Free (.integer value) := .of_none rfl trivial rfl
instance (value : Binary64) : Free (.float value) := .of_none rfl trivial rfl
instance (form : TextForm) (bytes : Bytes) : Free (.text form bytes) := .of_none rfl trivial rfl
instance (name : Symbol) (default : NodeId) : Free (.optionalParameter name default) :=
  .of_none rfl trivial rfl
instance (name : Symbol) (default : Option NodeId) : Free (.keywordParameter name default) :=
  .of_none rfl trivial rfl
instance (form : AliasForm) (newName oldName : Symbol) : Free (.alias form newName oldName) :=
  .of_none rfl trivial rfl
instance (names : List Symbol) : Free (.undef names) := .of_none rfl trivial rfl

end Free

end Shape

end RubySyntax

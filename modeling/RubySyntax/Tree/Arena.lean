/-
The store of syntax nodes of one parse.

Nodes live in numbered slots. A node that is given back leaves its slot empty,
and the slot given back last is handed out first. The limit counts the nodes
that are alive, so giving nodes back makes room.

The numbers of slots have no bound here; as 32-bit numbers they are the same
for up to 2^32 slots.
-/

import RubySyntax.Span
import RubySyntax.Tree.Shape

namespace RubySyntax

structure NodeId where
  slot : Nat
deriving DecidableEq, Repr, Inhabited

structure Node where
  shape : Shape NodeId
  span : Span
  line : Nat
  file : Nat
deriving DecidableEq, Repr, Inhabited

/-- The slots handed out so far, and the empty ones, last emptied first. -/
structure Arena where
  slots : Array (Option Node) := #[]
  free : List NodeId := []
  live : Nat := 0
  limit : Nat := UInt64.size - 1
deriving DecidableEq, Repr, Inhabited

namespace Arena

def withLimit (limit : Nat) : Arena :=
  { limit }

def get? (arena : Arena) (id : NodeId) : Option Node :=
  (arena.slots[id.slot]?).join

/-- Stores a node in the slot emptied last, or in a new one. There is no
answer when the limit is reached. -/
def alloc (arena : Arena) (node : Node) : Option (NodeId × Arena) :=
  if arena.limit ≤ arena.live then none
  else
    match arena.free with
    | id :: free =>
        some (id,
          { arena with
            slots := arena.slots.setIfInBounds id.slot (some node)
            free
            live := arena.live + 1 })
    | [] =>
        some (⟨arena.slots.size⟩,
          { arena with
            slots := arena.slots.push (some node)
            live := arena.live + 1 })

/-- Empties a slot. Nothing happens if it holds no node; the children of the
node stay where they are. -/
def recycle (arena : Arena) (id : NodeId) : Arena :=
  match arena.get? id with
  | none => arena
  | some _ =>
      { arena with
        slots := arena.slots.setIfInBounds id.slot none
        free := id :: arena.free
        live := arena.live - 1 }

def modify (arena : Arena) (id : NodeId) (f : Node → Node) : Arena :=
  match arena.get? id with
  | none => arena
  | some node =>
      { arena with slots := arena.slots.setIfInBounds id.slot (some (f node)) }

def slotCount (arena : Arena) : Nat :=
  arena.slots.size

def nodes (arena : Arena) : List (NodeId × Node) :=
  (arena.slots.toList.zipIdx).filterMap fun (slot, index) =>
    slot.map fun node => (⟨index⟩, node)

/-- The narrowest node whose range covers a position, ends included. Of
equally narrow ones the lowest slot is taken; dummies cover nothing. -/
def nodeAt? (arena : Arena) (position : Nat) : Option NodeId :=
  let covering := arena.nodes.filter fun (_, node) =>
    !node.span.isDummy && node.span.contains position
  let narrower (best : Option (NodeId × Node)) (entry : NodeId × Node) :=
    match best with
    | none => some entry
    | some found =>
        if entry.2.span.width < found.2.span.width then some entry else some found
  let narrowest := covering.foldl narrower none
  narrowest.map Prod.fst

end Arena

end RubySyntax

/-
Stacks of flags. The flag on top is the current one, and below the stack lie
flags that are not set.
-/

namespace RubySyntax

structure BitStack where
  bits : List Bool := []
deriving DecidableEq, Repr, Inhabited

namespace BitStack

def push (stack : BitStack) (bit : Bool) : BitStack :=
  ⟨bit :: stack.bits⟩

def pop (stack : BitStack) : BitStack :=
  ⟨stack.bits.tail⟩

/-- Drops the top and sets the new top if the dropped flag was set. -/
def merge (stack : BitStack) : BitStack :=
  match stack.bits with
  | true :: _ :: rest => ⟨true :: rest⟩
  | true :: [] => ⟨[true]⟩
  | _ :: rest => ⟨rest⟩
  | [] => ⟨[]⟩

def isSet (stack : BitStack) : Bool :=
  stack.bits.headD false

end BitStack

end RubySyntax

/-
Stacks of flags as numbers.

The flag on top is the lowest binary digit, so a stack is a number and what lies below the stack
is nought. Each request to a stack is arithmetic on the number, whether or not there is a flag to
take away.
-/

import Mathlib.Data.Nat.Bitwise
import Mathlib.Data.Nat.Digits.Lemmas
import RubySyntax.BitStack

namespace RubySyntax

inductive BitRequest where
  | push (bit : Bool)
  | pop
  | merge
deriving DecidableEq, Repr, Inhabited

def BitRequest.onNumber (number : Nat) : BitRequest → Nat
  | .push bit => 2 * number + bit.toNat
  | .pop => number / 2
  | .merge => number / 2 ||| number % 2

namespace BitStack

def serve (stack : BitStack) : BitRequest → BitStack
  | .push bit => stack.push bit
  | .pop => stack.pop
  | .merge => stack.merge

def serveAll (stack : BitStack) (requests : List BitRequest) : BitStack :=
  requests.foldl serve stack

/-- The number whose binary digits are the flags, the lowest one on top. -/
def number (stack : BitStack) : Nat :=
  ((stack.bits.map Bool.toNat).mapIdx fun place digit => digit * 2 ^ place).sum

theorem number_cons (bit : Bool) (bits : List Bool) :
    number ⟨bit :: bits⟩ = Nat.bit bit (number ⟨bits⟩) := by
  have digits (bits : List Bool) : number ⟨bits⟩ = Nat.ofDigits 2 (bits.map Bool.toNat) :=
    (Nat.ofDigits_eq_sum_mapIdx 2 _).symm
  rw [digits, digits, List.map_cons, Nat.ofDigits_cons, Nat.bit_val, Nat.add_comm]

theorem isSet_iff (stack : BitStack) : stack.isSet = true ↔ stack.number % 2 = 1 := by
  obtain ⟨bits⟩ := stack
  cases bits with
  | nil => decide
  | cons bit bits =>
      rw [number_cons, Nat.bit_mod_two]
      cases bit with
      | false => exact iff_of_false nofun nofun
      | true => exact iff_of_true rfl rfl

theorem number_pop (stack : BitStack) : stack.pop.number = stack.number / 2 := by
  obtain ⟨bits⟩ := stack
  cases bits with
  | nil => rfl
  | cons bit bits =>
      rw [number_cons, Nat.bit_div_two]
      rfl

theorem number_merge (stack : BitStack) :
    stack.merge.number = stack.number / 2 ||| stack.number % 2 := by
  obtain ⟨bits⟩ := stack
  match bits with
  | [] => rfl
  | false :: bits =>
      rw [number_cons, Nat.bit_div_two, Nat.bit_mod_two]
      exact (Nat.or_zero _).symm
  | [true] => rfl
  | true :: bit :: bits =>
      change number ⟨true :: bits⟩ = _
      rw [number_cons, number_cons, number_cons, Nat.bit_div_two, Nat.bit_mod_two]
      have one : true.toNat = Nat.bit true 0 := rfl
      rw [one, Nat.lor_bit, Nat.or_zero, Bool.or_true]

theorem number_serve (stack : BitStack) (request : BitRequest) :
    (stack.serve request).number = request.onNumber stack.number := by
  cases request with
  | push bit => exact (number_cons bit stack.bits).trans (Nat.bit_val bit _)
  | pop => exact number_pop stack
  | merge => exact number_merge stack

theorem number_serveAll (stack : BitStack) (requests : List BitRequest) :
    (stack.serveAll requests).number = requests.foldl BitRequest.onNumber stack.number := by
  induction requests generalizing stack with
  | nil => rfl
  | cons request requests ih =>
      rw [List.foldl_cons, ← number_serve]
      exact ih (stack.serve request)

/-- Whatever is asked of a stack that is empty at first, however often flags are taken away that
are not there, its number follows as arithmetic has it, and the current flag is set exactly when
the number is odd. -/
theorem number_of_history (requests : List BitRequest) :
    let stack := ({} : BitStack).serveAll requests
    stack.number = requests.foldl BitRequest.onNumber 0 ∧
      (stack.isSet = true ↔ requests.foldl BitRequest.onNumber 0 % 2 = 1) := by
  intro stack
  have followed : stack.number = requests.foldl BitRequest.onNumber 0 :=
    number_serveAll {} requests
  refine ⟨followed, ?_⟩
  rw [isSet_iff, followed]

end BitStack

end RubySyntax

/-
What has been received of the input.

The input of a run consists of the source and of what has been asked for since,
one answer after the other. Whatever has been received is the start of what could
be, so a byte that is found once at a position is found there ever after.
-/

import RubySyntax.Source.Map
import RubySyntax.Source.Input

namespace RubySyntax

def supplied (source : Bytes) (answers : List (Option Chunk)) : Bytes :=
  source ++ answers.flatMap fun answer => (answer.map Chunk.bytes).getD []

/-- A piece of the input ends at the position: the source, or an answer. -/
def PieceEnd (source : Bytes) (answers : List (Option Chunk)) (position : Nat) : Prop :=
  ∃ count, position = (supplied source (answers.take count)).length

variable {source : Bytes} {answers : List (Option Chunk)}

theorem supplied_take_succ (count : Nat) :
    supplied source (answers.take (count + 1)) =
      supplied source (answers.take count) ++
        ((answers[count]?.join).map Chunk.bytes).getD [] := by
  unfold supplied
  rw [List.take_add_one, List.flatMap_append, List.append_assoc]
  congr 2
  cases answers[count]? with
  | none => rfl
  | some answer => simp

namespace Input

/-- The input holds the source and the answers that have been used, and the
unread bytes are those after the position. -/
structure Received (source : Bytes) (answers : List (Option Chunk)) (input : Input) : Prop where
  rest : input.rest = input.bytes.toList.drop input.position
  pieces : ∃ count, input.answers = answers.drop count ∧
    input.bytes.toList = supplied source (answers.take count)

theorem received_ofBytes (source : Bytes) (answers : List (Option Chunk)) :
    (ofBytes source answers).Received source answers where
  rest := rfl
  pieces := ⟨0, rfl, by simp [ofBytes, supplied]⟩

namespace Received

variable {input : Input}

theorem advance (received : input.Received source answers) (distance : Nat) :
    (input.advance distance).Received source answers where
  rest := by
    change input.rest.drop distance = input.bytes.toList.drop (input.position + distance)
    rw [received.rest, List.drop_drop]
  pieces := received.pieces

theorem answered (received : input.Received source answers) :
    ∃ count, input.ask.answers = answers.drop count ∧
      input.bytes.toList ++ ((input.answers.head?.join).map Chunk.bytes).getD [] =
        supplied source (answers.take count) := by
  obtain ⟨count, left, used⟩ := received.pieces
  refine ⟨count + 1, ?_, ?_⟩
  · change input.answers.tail = _
    rw [left, List.tail_drop]
  · rw [used, left, List.head?_drop, supplied_take_succ]

theorem ask (received : input.Received source answers)
    (empty : ((input.answers.head?.join).map Chunk.bytes).getD [] = []) :
    input.ask.Received source answers where
  rest := received.rest
  pieces := by
    obtain ⟨count, left, used⟩ := received.answered
    rw [empty, List.append_nil] at used
    exact ⟨count, left, used⟩

theorem append (received : input.Received source answers) {chunk : Chunk}
    (answer : input.answers.head?.join = some chunk) :
    (input.ask.append chunk.bytes).Received source answers where
  rest := by
    change (if input.position ≤ input.bytes.size then input.rest ++ chunk.bytes
      else chunk.bytes.drop (input.position - input.bytes.size)) =
        (input.bytes ++ chunk.bytes).toList.drop input.position
    rw [Array.toList_appendList, received.rest, List.drop_append, Array.length_toList]
    split
    · next inside => rw [Nat.sub_eq_zero_of_le inside, List.drop_zero]
    · next past =>
        have passed : input.bytes.toList.drop input.position = [] := by
          rw [List.drop_eq_nil_iff, Array.length_toList]
          omega
        rw [passed, List.nil_append]
  pieces := by
    obtain ⟨count, left, used⟩ := received.answered
    rw [answer] at used
    refine ⟨count, left, ?_⟩
    change (input.bytes ++ chunk.bytes).toList = _
    rw [Array.toList_appendList]
    exact used

theorem isPrefix (received : input.Received source answers) :
    input.bytes.toList <+: supplied source answers := by
  obtain ⟨count, -, used⟩ := received.pieces
  rw [used]
  unfold supplied
  refine (List.prefix_append_right_inj source).mpr ?_
  conv => rhs; rw [← List.take_append_drop count answers, List.flatMap_append]
  exact List.prefix_append _ _

theorem getElem?_bytes (received : input.Received source answers) {index : Nat} {byte : Byte}
    (found : input.bytes[index]? = some byte) : (supplied source answers)[index]? = some byte := by
  rw [← Array.getElem?_toList] at found
  obtain ⟨more, whole⟩ := received.isPrefix
  obtain ⟨inside, -⟩ := List.getElem?_eq_some_iff.mp found
  rw [← whole, List.getElem?_append_left inside]
  exact found

theorem getElem?_rest (received : input.Received source answers) {distance : Nat} {byte : Byte}
    (found : input.rest[distance]? = some byte) :
    (supplied source answers)[input.position + distance]? = some byte := by
  rw [received.rest, List.getElem?_drop, Array.getElem?_toList] at found
  exact received.getElem?_bytes found

theorem pieceEnd (received : input.Received source answers) :
    PieceEnd source answers input.bytes.size := by
  obtain ⟨count, -, used⟩ := received.pieces
  refine ⟨count, ?_⟩
  rw [← used, Array.length_toList]

theorem position_add_length (received : input.Received source answers)
    (unread : input.rest ≠ []) : input.position + input.rest.length = input.bytes.size := by
  have size : input.rest.length = input.bytes.size - input.position := by
    rw [received.rest, List.length_drop, Array.length_toList]
  have some := List.length_pos_iff.mpr unread
  omega

end Received

end Input

end RubySyntax

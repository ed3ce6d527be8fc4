/-
The ranges that an editor is shown.

Positions and places agree in a text of fewer than 2^32 bytes: a place leads back to the position
that it came of, up to the start of a character, and their order is the same. So a range that is
shown never ends before it starts, and it lies inside the document. In a longer text the numbers
of a place may wrap, and then it leads elsewhere.
-/

import RubySyntax.Proofs.Documents
import RubySyntax.Proofs.Editor.Line

namespace RubySyntax

open LineIndex (ofText)

variable {Name : Type} [DecidableEq Name]

/-- What is shown of a text is the problems of just the text that is kept. -/
theorem Server.handle_notices {server next : Server Name} {message : EditorMessage Name}
    {replies : List (EditorReply Name)} {name : Name} {list : List Notice}
    (handled : server.handle message = .ok (next, replies))
    (shown : .notices name list ∈ replies) :
    ∃ text, next.get? name = some text ∧ list = noticesOf text := by
  have put (document : Name) (text : String)
      (same : EditorReply.notices name list ∈ [EditorReply.notices document (noticesOf text)]) :
      ∃ other, (server.put document text).get? name = some other ∧ list = noticesOf other := by
    obtain ⟨rfl, rfl⟩ := EditorReply.notices.inj (List.mem_singleton.mp same)
    exact ⟨text, by rw [Server.get?_put, if_pos rfl], rfl⟩
  cases message with
  | opened document text =>
      obtain ⟨rfl, rfl⟩ := Prod.mk.inj (Except.ok.inj handled)
      exact put document text shown
  | changed document changes =>
      rw [Server.handle_changed] at handled
      split at handled
      · next text given =>
          obtain ⟨rfl, rfl⟩ := Prod.mk.inj (Except.ok.inj handled)
          exact put document text shown
      · obtain ⟨rfl, rfl⟩ := Prod.mk.inj (Except.ok.inj handled)
        cases shown
  | hover document position =>
      simp only [Server.handle] at handled
      cases found : server.hover document position with
      | error error =>
          rw [found] at handled
          cases handled
      | ok hover =>
          rw [found] at handled
          obtain ⟨rfl, rfl⟩ := Prod.mk.inj (Except.ok.inj handled)
          cases List.mem_singleton.mp shown
  | shutdown =>
      obtain ⟨rfl, rfl⟩ := Prod.mk.inj (Except.ok.inj handled)
      cases List.mem_singleton.mp shown
  | closed document =>
      obtain ⟨rfl, rfl⟩ := Prod.mk.inj (Except.ok.inj handled)
      cases shown
  | unknown =>
      obtain ⟨rfl, rfl⟩ := Prod.mk.inj (Except.ok.inj handled)
      cases shown

theorem noticesOf_range {text : String} (small : text.utf8ByteSize < UInt32.size)
    {notice : Notice} (listed : notice ∈ noticesOf text) :
    notice.range.start ≤ notice.range.stop ∧ notice.range.start.Within text ∧
      notice.range.stop.Within text := by
  obtain ⟨diagnostic, -, rfl⟩ := List.mem_map.mp listed
  exact ⟨LineIndex.position_mono small (Nat.le_max_right _ _),
    LineIndex.position_within small _, LineIndex.position_within small _⟩

/-- In a text of fewer than 2^32 bytes the place of a position leads back to the end of the last
character that is whole before it, and later positions have later places. So all that is shown of
such a document starts before it ends, on lines of the document and within them. -/
theorem notices_in_document :
    (∀ text : String, text.utf8ByteSize < UInt32.size → ∀ offset, ∃ boundary,
      IsGreatest {bytes | bytes ≤ min offset text.utf8ByteSize ∧
        (⟨bytes⟩ : String.Pos.Raw).IsValid text} boundary ∧
      (ofText text).offset? ((ofText text).position offset) = some boundary) ∧
    (∀ text : String, text.utf8ByteSize < UInt32.size → ∀ offset later, offset ≤ later →
      (ofText text).position offset ≤ (ofText text).position later) ∧
    ∀ (server next : Server Name) (message : EditorMessage Name)
      (replies : List (EditorReply Name)) (name : Name) (list : List Notice),
      server.handle message = .ok (next, replies) → .notices name list ∈ replies →
      ∃ text, next.get? name = some text ∧
        (text.utf8ByteSize < UInt32.size → ∀ notice ∈ list,
          notice.range.start ≤ notice.range.stop ∧ notice.range.start.Within text ∧
            notice.range.stop.Within text) := by
  refine ⟨fun text small => LineIndex.offset?_position small,
    fun text small offset later ordered => LineIndex.position_mono small ordered, ?_⟩
  intro server next message replies name list handled shown
  obtain ⟨text, kept, rfl⟩ := Server.handle_notices handled shown
  exact ⟨text, kept, fun small notice listed => noticesOf_range small listed⟩

/-- The name that is out of place here takes four bytes and two units. -/
theorem notices_in_document_wide_name :
    ∃ notice ∈ noticesOf "1 😀", notice.range = ⟨⟨0, 2⟩, ⟨0, 4⟩⟩ ∧
      notice.range.start ≤ notice.range.stop ∧ notice.range.start.Within "1 😀" ∧
        notice.range.stop.Within "1 😀" ∧
        (ofText "1 😀").position 5 ≤ (ofText "1 😀").position 6 := by
  have small : "1 😀".utf8ByteSize < UInt32.size := by decide
  have shown : noticesOf "1 😀" = [⟨⟨⟨0, 2⟩, ⟨0, 4⟩⟩, .error,
      "syntax error, unexpected local variable or method"⟩] := by
    decide +kernel
  obtain ⟨-, ordered, published⟩ := @notices_in_document String _
  obtain ⟨text, kept, inside⟩ := published {} _ (.opened default "1 😀") _ default _ rfl
    List.mem_cons_self
  rw [Server.get?_put, if_pos rfl, Option.some.injEq] at kept
  subst kept
  have listed : _ ∈ noticesOf "1 😀" := shown ▸ List.mem_cons_self
  obtain ⟨begins, starts, stops⟩ := inside small _ listed
  exact ⟨_, listed, rfl, begins, starts, stops, ordered "1 😀" small 5 6 (by decide)⟩

section

variable (count : Nat)

theorem utf8Len_lineFeeds : String.utf8Len (List.replicate count '\n') = count := by
  induction count with
  | zero => rfl
  | succ count ih => rw [List.replicate_succ, String.utf8Len_cons, ih]; rfl

theorem TextExtent.ofChars_lineFeeds :
    TextExtent.ofChars (List.replicate count '\n') = ⟨count, 0⟩ := by
  induction count with
  | zero => rfl
  | succ count ih => rw [List.replicate_succ, ofChars_cons_lineFeed, ih]

theorem LineIndex.position_lineFeeds :
    (ofText (.ofList (List.replicate count '\n'))).position count = ⟨.ofNat count, 0⟩ := by
  have whole := fitting_utf8Len (List.prefix_refl (List.replicate count '\n'))
  rw [utf8Len_lineFeeds] at whole
  rw [position_eq, String.toList_ofList, whole, TextExtent.ofChars_lineFeeds]
  rfl

theorem LineIndex.lineFeeds_isGreatest :
    IsGreatest {bytes | bytes ≤ min count (String.ofList (List.replicate count '\n')).utf8ByteSize ∧
      (⟨bytes⟩ : String.Pos.Raw).IsValid (.ofList (List.replicate count '\n'))} count := by
  have greatest := fitting_isGreatest (.ofList (List.replicate count '\n')) count
  have whole := fitting_utf8Len (List.prefix_refl (List.replicate count '\n'))
  rw [utf8Len_lineFeeds] at whole
  rw [String.toList_ofList, whole, utf8Len_lineFeeds] at greatest
  exact greatest

theorem LineIndex.lineFeeds_lead_back (wrapped : UInt32.ofNat count = 0) :
    (ofText (.ofList (List.replicate count '\n'))).position count = ⟨0, 0⟩ ∧
      (ofText (.ofList (List.replicate count '\n'))).offset? ⟨0, 0⟩ = some 0 := by
  refine ⟨wrapped ▸ position_lineFeeds count, ?_⟩
  rw [offset?_eq, UInt32.toNat_zero, offsetFrom?_zero, String.toList_ofList]
  cases count with
  | zero => rfl
  | succ count => rfl

end

/-- With 2^32 line feeds the number of the last line wraps, and its place leads to the start. -/
theorem lineFeeds_wrap :
    ∃ text : String, text = .ofList (List.replicate (2 ^ 32) '\n') ∧
      (ofText text).position (2 ^ 32) = ⟨0, 0⟩ ∧
      ¬∃ boundary, IsGreatest {bytes | bytes ≤ min (2 ^ 32) text.utf8ByteSize ∧
          (⟨bytes⟩ : String.Pos.Raw).IsValid text} boundary ∧
        (ofText text).offset? ((ofText text).position (2 ^ 32)) = some boundary := by
  obtain ⟨place, led⟩ := LineIndex.lineFeeds_lead_back (2 ^ 32) rfl
  refine ⟨_, rfl, place, ?_⟩
  rintro ⟨boundary, greatest, found⟩
  rw [greatest.unique (LineIndex.lineFeeds_isGreatest (2 ^ 32)), place, led] at found
  cases found

end RubySyntax

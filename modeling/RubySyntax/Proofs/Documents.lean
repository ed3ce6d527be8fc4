/-
The documents of an editor.

What the server keeps of a document, and what it replies about it, is decided by the
messages about that document. A message about another one changes nothing there.
-/

import RubySyntax.Editor.Server
import RubySyntax.Proofs.Dump

namespace RubySyntax

variable {Name : Type}

/-! ### What a message says -/

namespace EditorMessage

def about? : EditorMessage Name → Option Name
  | .opened name _ | .changed name _ | .closed name | .hover name _ => some name
  | .shutdown | .unknown => none

def text? : EditorMessage Name → Option String
  | .opened _ text => some text
  | .changed _ changes =>
      match changes.getLast? with
      | some { text, range := none } => some text
      | _ => none
  | _ => none

/-- What a message leaves of its document: a text, or nothing. A message that leaves the
document as it is says nothing. -/
def leaves? (message : EditorMessage Name) : Option (Option String) :=
  match message with
  | .closed _ => some none
  | _ => message.text?.map some

theorem text?_of_leaves? {message : EditorMessage Name} {text : String}
    (said : message.leaves? = some (some text)) : message.text? = some text := by
  cases message <;> simp_all [leaves?, text?]

def reply (message : EditorMessage Name) (text : Option String) :
    Except DumpError (List (EditorReply Name)) :=
  match message with
  | .opened name _ | .changed name _ =>
      .ok (message.text?.map fun text => EditorReply.notices name (noticesOf text)).toList
  | .hover _ position =>
      match text with
      | none => .ok [.hover none]
      | some text => (hoverAt text position).map fun found => [.hover found]
  | .closed _ | .unknown => .ok []
  | .shutdown => .ok [.stopping]

end EditorMessage

/-- The text of a document after some messages: what the last of them left that was about
the document and said something of it. -/
def textAfter [DecidableEq Name] (name : Name) (messages : List (EditorMessage Name)) :
    Option String :=
  ((messages.filter (·.about? = some name)).filterMap EditorMessage.leaves?).getLast?.join

variable [DecidableEq Name]

section

variable {name : Name} {message : EditorMessage Name} {before : List (EditorMessage Name)}

theorem textAfter_other (other : message.about? ≠ some name) :
    textAfter name (before ++ [message]) = textAfter name before := by
  simp [textAfter, other]

theorem textAfter_same (same : message.about? = some name) :
    textAfter name (before ++ [message]) = message.leaves?.getD (textAfter name before) := by
  cases said : message.leaves? with
  | none => simp [textAfter, same, said]
  | some left => simp [textAfter, same, said]

theorem textAfter_given {text : String} (left : textAfter name before = some text) :
    ∃ message ∈ before, message.text? = some text := by
  have last := List.mem_of_getLast? (Option.join_eq_some_iff.mp left)
  obtain ⟨message, about, said⟩ := List.mem_filterMap.mp last
  refine ⟨message, (List.mem_filter.mp about).1, ?_⟩
  exact EditorMessage.text?_of_leaves? said

end

/-! ### What the server keeps -/

namespace Server

variable {server next : Server Name} {name : Name} {message : EditorMessage Name}
  {before : List (EditorMessage Name)}

theorem get?_close (server : Server Name) (name other : Name) :
    (server.close name).get? other = if other = name then none else server.get? other := by
  obtain ⟨documents⟩ := server
  unfold close get?
  induction documents with
  | nil => simp
  | cons entry documents ih =>
      obtain ⟨key, text⟩ := entry
      by_cases same : key = name
      · subst same
        simp only [List.filter_cons, bne_self_eq_false, Bool.false_eq_true, if_false, ih,
          List.lookup_cons]
        split
        · rfl
        · next different => simp [beq_false_of_ne different]
      · simp only [List.filter_cons, bne_iff_ne, ne_eq, same, not_false_eq_true, if_true,
          List.lookup_cons, ih]
        split
        · next found =>
            obtain rfl := eq_of_beq found
            simp [same]
        · rfl

theorem get?_put (server : Server Name) (name : Name) (text : String)
    (other : Name) :
    (server.put name text).get? other = if other = name then some text else server.get? other := by
  change List.lookup other ((name, text) :: (server.close name).documents) = _
  rw [List.lookup_cons]
  by_cases same : other = name
  · simp [same]
  · rw [beq_false_of_ne same]
    change (server.close name).get? other = _
    rw [get?_close]
    simp [same]

def Keeps (server : Server Name) (before : List (EditorMessage Name)) : Prop :=
  ∀ name, server.get? name = textAfter name before

theorem Keeps.silent (kept : server.Keeps before) (leaves : message.leaves? = none) :
    server.Keeps (before ++ [message]) := by
  intro name
  by_cases about : message.about? = some name
  · rw [textAfter_same about, leaves]
    exact kept name
  · rw [textAfter_other about]
    exact kept name

theorem Keeps.changed {left : Option String} (kept : server.Keeps before)
    (about : message.about? = some name) (leaves : message.leaves? = some left)
    (sets : ∀ other, next.get? other = if other = name then left else server.get? other) :
    next.Keeps (before ++ [message]) := by
  intro other
  rw [sets]
  split
  · next same => rw [same, textAfter_same about, leaves, Option.getD_some]
  · next different =>
      have apart : message.about? ≠ some other := by simpa [about] using Ne.symm different
      rw [textAfter_other apart, kept other]

theorem handle_changed (server : Server Name) (name : Name) (changes : List TextChange) :
    server.handle (.changed name changes) =
      match (EditorMessage.changed name changes).text? with
      | some text => .ok (server.put name text, [.notices name (noticesOf text)])
      | none => .ok (server, []) := by
  cases last : changes.getLast? with
  | none => simp only [handle, EditorMessage.text?, last]
  | some change =>
      obtain ⟨text, range⟩ := change
      cases range <;> simp only [handle, EditorMessage.text?, last]

/-- What a message about a document does depends on its text alone, and the server keeps
what the message leaves of it. -/
theorem handle_replies (kept : server.Keeps before) (message : EditorMessage Name) :
    let reply := message.reply (message.about?.bind fun name => textAfter name before)
    (∃ next replies, server.handle message = .ok (next, replies) ∧ reply = .ok replies ∧
        next.Keeps (before ++ [message])) ∨
      ∃ error, server.handle message = .error error ∧ reply = .error error := by
  intro reply
  cases message with
  | opened name text =>
      exact .inl ⟨_, _, rfl, rfl, kept.changed rfl rfl (server.get?_put name text)⟩
  | changed name changes =>
      left
      rw [handle_changed]
      unfold reply EditorMessage.reply
      cases said : (EditorMessage.changed name changes).text? with
      | some text =>
          have leaves := congrArg (Option.map some) said
          exact ⟨_, _, rfl, rfl, kept.changed rfl leaves (server.get?_put name text)⟩
      | none => exact ⟨_, _, rfl, rfl, kept.silent (congrArg (Option.map some) said)⟩
  | closed name => exact .inl ⟨_, _, rfl, rfl, kept.changed rfl rfl (server.get?_close name)⟩
  | hover name position =>
      simp only [reply, EditorMessage.reply, EditorMessage.about?, Option.bind_some, handle,
        hover, kept name]
      cases textAfter name before with
      | none => exact .inl ⟨_, _, rfl, rfl, kept.silent rfl⟩
      | some text =>
          dsimp only
          cases hoverAt text position with
          | ok found => exact .inl ⟨_, _, rfl, rfl, kept.silent rfl⟩
          | error error => exact .inr ⟨error, rfl, rfl⟩
  | shutdown => exact .inl ⟨_, _, rfl, rfl, kept.silent rfl⟩
  | unknown => exact .inl ⟨_, _, rfl, rfl, kept.silent rfl⟩

end Server

/-! ### Hovers that are answered -/

/-- In the text of a document no label waits where the body of a heredoc begins, so that its
tree does not go round. -/
def TextAlone (text : String) : Prop :=
  LabelsAlone (Utf8.ofText text) { mode := .capture 100 100 } {}

theorem nodeUnder?_found {text : String} {position : TextPosition} {id : NodeId} {node : Node}
    (under : nodeUnder? text position = some (id, node)) :
    ∃ root, (parseDocument text).tree = some root ∧
      (parseDocument text).arena.get? id = some node := by
  simp only [nodeUnder?, Option.bind_eq_bind, Option.bind_eq_some_iff, Option.pure_def,
    Option.some.injEq, Prod.mk.injEq] at under
  obtain ⟨offset, -, narrowest, covers, stored, found, rfl, rfl⟩ := under
  obtain ⟨root, given, -⟩ := Option.bind_eq_some_iff.mp covers
  exact ⟨root, given, found⟩

/-- What stands at a place of a text can be shown, unless the tree of the text goes round. -/
theorem hoverAt_answers (text : String) (position : TextPosition) :
    (∃ found, hoverAt text position = .ok found) ∨
      hoverAt text position = .error .cyclic ∧ ¬TextAlone text := by
  unfold hoverAt
  cases under : nodeUnder? text position with
  | none => exact .inl ⟨_, rfl⟩
  | some place =>
      obtain ⟨id, node⟩ := place
      obtain ⟨root, given, found⟩ := nodeUnder?_found under
      obtain ⟨-, sound⟩ := parse_store given
      dsimp only
      cases written : (parseDocument text).dumpAt id with
      | ok contents => exact .inl ⟨_, rfl⟩
      | error error =>
          obtain ⟨rfl, together⟩ := sound.dump_error ⟨node, found⟩ written
          exact .inr ⟨rfl, together⟩

/-- The call at the start of this text holds itself. -/
example :
    let text := "foo <<A\n#\x7bx if \"a#\x7b<<B\x7d\":\x7d\nA\nz #\x7bf 1 2\x7d\nB\n"
    hoverAt text ⟨0, 0⟩ = .error .cyclic := by
  decide +kernel

/-! ### Sequences of messages -/

namespace Server

variable {server : Server Name} {before messages : List (EditorMessage Name)}

/-- A message is replied to if no text that was given goes round. -/
theorem reply_answers
    (alone : ∀ message ∈ before, ∀ text, message.text? = some text → TextAlone text)
    (message : EditorMessage Name) :
    ∃ replies, message.reply (message.about?.bind fun name => textAfter name before) =
      .ok replies := by
  cases message with
  | hover name position =>
      simp only [EditorMessage.reply, EditorMessage.about?, Option.bind_some]
      cases left : textAfter name before with
      | none => exact ⟨_, rfl⟩
      | some text =>
          obtain ⟨message, member, given⟩ := textAfter_given left
          rcases hoverAt_answers text position with ⟨found, shown⟩ | ⟨-, together⟩
          · exact ⟨[.hover found],
              congrArg (Except.map fun found => [(.hover found : EditorReply Name)]) shown⟩
          · exact absurd (alone message member text given) together
  | _ => exact ⟨_, rfl⟩

/-- Each message of a sequence is replied to by what the messages before it left of its
document. -/
theorem replies_eq (kept : server.Keeps before) (running : .shutdown ∉ messages)
    (alone : ∀ message ∈ before ++ messages, ∀ text, message.text? = some text →
      TextAlone text) :
    server.replies messages = messages.mapIdx fun index message =>
      message.reply (message.about?.bind fun name =>
        textAfter name (before ++ messages.take index)) := by
  induction messages generalizing server before with
  | nil => rfl
  | cons message messages ih =>
      obtain ⟨goes, running⟩ := not_or.mp (mt List.mem_cons.mpr running)
      obtain ⟨answers, answered⟩ := reply_answers
        (fun other member => alone other (List.mem_append_left _ member)) message
      rcases handle_replies kept message with ⟨next, replies, handled, replied, kept⟩ |
        ⟨error, -, lost⟩
      · have tail := ih kept running (by simpa using alone)
        have here : Server.replies server (message :: messages) =
            .ok replies :: next.replies messages := by
          simp [Server.replies, handled, Ne.symm goes]
        rw [here, tail, List.mapIdx_cons, List.take_zero, List.append_nil, replied]
        simp
      · cases answered.symm.trans lost

/-- The replies to a sequence of messages are those that the text of each document asks
for. The text of a document is what the last message about it left. -/
theorem replies_by_document (messages : List (EditorMessage Name))
    (running : .shutdown ∉ messages)
    (alone : ∀ message ∈ messages, ∀ text, message.text? = some text → TextAlone text) :
    (∀ reply ∈ ({} : Server Name).replies messages, ∃ replies, reply = .ok replies) ∧
      ({} : Server Name).replies messages = messages.mapIdx fun index message =>
        message.reply (message.about?.bind fun name =>
          textAfter name (messages.take index)) := by
  have empty : ({} : Server Name).Keeps [] := fun name => rfl
  have replied := replies_eq empty running alone
  refine ⟨?_, replied⟩
  rw [replied]
  intro reply member
  obtain ⟨index, inside, rfl⟩ := List.mem_mapIdx.mp member
  exact reply_answers (fun other before => alone other (List.mem_of_mem_take before)) _

end Server

end RubySyntax

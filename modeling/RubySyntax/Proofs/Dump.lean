/-
Trees that can be written out.

Writing out a tree fails for a slot without a node or for a path that is too
long. No slot below the root of a program is empty, so only a cycle is in the
way. A cycle takes the key of a quoted label that waits while the body of a
heredoc begins: a run without such a moment gives a tree that can be written.
-/

import RubySyntax.Proofs.Program

namespace RubySyntax

open Relation (ReflTransGen)

/-! ### Children one after the other -/

section

variable {α β γ ε : Type} {f : α → Except ε β} {members : List α}

def Blames (f : α → Except ε β) (members : List α) (step : Except ε γ) : Prop :=
  ∀ error, step = .error error → ∃ child ∈ members, f child = .error error

namespace Blames

theorem pure (value : γ) : Blames f members (Pure.pure value) :=
  nofun

theorem bind {δ : Type} {step : Except ε γ} {next : γ → Except ε δ}
    (first : Blames f members step) (follow : ∀ value, Blames f members (next value)) :
    Blames f members (step >>= next) := by
  cases step with
  | ok value => exact follow value
  | error error => exact fun _ same => first _ (by cases same; rfl)

theorem child {child : α} (member : child ∈ members) : Blames f members (f child) :=
  fun _ failed => ⟨child, member, failed⟩

theorem option {item : Option α} (inside : ∀ child ∈ item, child ∈ members) :
    Blames f members (item.mapM f) := by
  cases item with
  | none => exact pure none
  | some child => exact (Blames.child (inside child rfl)).bind fun value => pure (some value)

theorem list {κ : Type} {g : κ → Except ε γ} {items : List κ}
    (each : ∀ item ∈ items, Blames f members (g item)) : Blames f members (items.mapM g) := by
  induction items with
  | nil => exact pure []
  | cons first rest ih =>
      rw [List.mapM_cons]
      refine (each first List.mem_cons_self).bind fun value => ?_
      refine (ih fun item member => each item (List.mem_cons_of_mem _ member)).bind fun values => ?_
      exact pure (value :: values)

theorem items {items : List α} (inside : ∀ child ∈ items, child ∈ members) :
    Blames f members (items.mapM f) :=
  list fun item member => child (inside item member)

end Blames

theorem HashEntry.mapM_blames {entry : HashEntry α}
    (inside : ∀ child ∈ entry.children, child ∈ members) : Blames f members (entry.mapM f) := by
  cases entry with
  | pair key value =>
      refine (Blames.child (inside key (by simp [children]))).bind fun _ => ?_
      exact (Blames.child (inside value (by simp [children]))).bind fun _ => .pure _
  | doubleSplat value =>
      exact (Blames.child (inside value (by simp [children]))).bind fun _ => .pure _

theorem Parameters.mapM_blames (parameters : Parameters α) :
    Blames f parameters.children (parameters.mapM f) := by
  refine (Blames.items ?_).bind fun _ => (Blames.items ?_).bind fun _ =>
    (Blames.option ?_).bind fun _ => (Blames.items ?_).bind fun _ =>
    (Blames.items ?_).bind fun _ => (Blames.option ?_).bind fun _ =>
    (Blames.option ?_).bind fun _ => .pure _
  all_goals simp +contextual [children]

theorem Shape.mapM_blames (shape : Shape α) : Blames f shape.children (shape.mapM f) := by
  cases shape
  case hash entries =>
    refine (Blames.list fun entry member => HashEntry.mapM_blames ?_).bind fun _ => .pure _
    exact fun child inside => List.mem_flatMap.mpr ⟨entry, member, inside⟩
  case formals parameters => exact (Parameters.mapM_blames parameters).bind fun _ => .pure _
  all_goals
    unfold mapM children
    repeat' first
      | exact .pure _
      | exact .child (by simp)
      | exact .option (by simp +contextual)
      | exact .items (by simp +contextual)
      | refine Blames.bind ?_ fun _ => ?_

end

/-! ### Writing out -/

namespace Arena

variable {arena : Arena}

/-- Writing out fails for an empty slot that is reached, or for a path that is
too long. -/
theorem dumpWithin_error {names : Symbol → String} {error : DumpError} :
    ∀ {depth : Nat} {id : NodeId}, arena.dumpWithin names depth id = .error error →
      (∃ empty, ReflTransGen arena.Child id empty ∧ ¬arena.Live empty) ∨
        error = .cyclic ∧ ¬Bounded arena.Child depth id
  | 0, _, failed => .inr ⟨(Except.error.inj failed).symm, nofun⟩
  | depth + 1, id, failed => by
      unfold dumpWithin at failed
      split at failed
      · next empty =>
          refine .inl ⟨id, .refl, fun ⟨node, found⟩ => ?_⟩
          rw [empty] at found
          cases found
      · next node found =>
          have blames := (Shape.mapM_blames node.shape).bind fun written =>
            Blames.pure (f := arena.dumpWithin names depth) (written.render names)
          obtain ⟨child, member, failed⟩ := blames error failed
          have step : arena.Child id child := ⟨node, found, member⟩
          rcases dumpWithin_error failed with ⟨empty, path, dead⟩ | ⟨cyclic, long⟩
          · exact .inl ⟨empty, .head step path, dead⟩
          · exact .inr ⟨cyclic, fun bounded => long (bounded child step)⟩

theorem Sound.reaches_live {strict : Prop} {root id : NodeId} (sound : arena.Sound strict)
    (live : arena.Live root) (path : ReflTransGen arena.Child root id) : arena.Live id := by
  rcases ReflTransGen.cases_tail path with rfl | ⟨parent, -, step⟩
  · exact live
  · exact sound.closed parent id step

/-- Only a cycle is in the way of writing out. -/
theorem Sound.dump_error {strict : Prop} {root : NodeId} (sound : arena.Sound strict)
    (live : arena.Live root) {symbols : SymbolTable} {error : DumpError}
    (failed : arena.dump symbols root = .error error) : error = .cyclic ∧ ¬strict := by
  rcases dumpWithin_error failed with ⟨empty, path, dead⟩ | ⟨cyclic, long⟩
  · exact absurd (sound.reaches_live live path) dead
  · refine ⟨cyclic, fun wanted => long ?_⟩
    exact (sound.acyclic wanted).within (fun _ _ child => child.slot_lt) root

end Arena

/-! ### The tree of a program -/

theorem Arena.Sound.weaken {strict stricter : Prop} {arena : Arena} (sound : arena.Sound stricter)
    (implies : strict → stricter) : arena.Sound strict :=
  { sound with acyclic := fun wanted => sound.acyclic (implies wanted) }

/-- The store at the end of a run has no cycles if the guarded run is not
stopped. -/
theorem program_store {state : State} {depth : Nat} (sound : ∀ strict, state.Sound strict)
    (enough : 8 * state.measure + 7 < depth) {root : NodeId} {after : State}
    (run : Parse.program (Parse.table depth) state = .ok root after) :
    after.arena.Live root ∧ after.arena.Sound (∀ stopped,
      Parse.program (Parse.watchedTable true depth) state ≠ .error .starved stopped) := by
  have plain := (program_unwatched (sound _) enough 0).2
  have guarded := program_outcome true 0 depth (sound _) enough
  rw [Nat.zero_add] at plain guarded
  unfold Scan.Ends at plain
  rw [run] at plain guarded
  obtain ⟨-, soundAfter, live⟩ := plain
  refine ⟨live, ?_⟩
  unfold Outcome at guarded
  split at guarded
  · obtain ⟨same, strictly, -⟩ := guarded
    cases same
    exact strictly.store.weaken fun _ => rfl
  · cases guarded.1
  · next stopped starved =>
      exact soundAfter.store.weaken fun alone => absurd starved (alone stopped)
  · exact guarded.elim

section

variable (source : Bytes) (options : ParseOptions) (symbols : SymbolTable)

/-- At no moment of a parse does the body of a heredoc begin while the key of a
quoted label waits. -/
def LabelsAlone : Prop :=
  ∀ stopped, Parse.program
    (Parse.watchedTable true (ruleDepth (State.start source options symbols).input))
    (State.start source options symbols) ≠ .error .starved stopped

variable {source options symbols} {root : NodeId}

theorem parse_store (given : (parse source options symbols).tree = some root) :
    (parse source options symbols).arena.Live root ∧
      (parse source options symbols).arena.Sound (LabelsAlone source options symbols) := by
  unfold parse at given ⊢
  cases run : runProgram source options symbols with
  | ok tree after =>
      rw [run] at given
      cases given
      exact program_store (State.start_sound source options symbols)
        (measure_lt_ruleDepth source options symbols) run
  | error halt after =>
      rw [run] at given
      cases halt <;> cases given

theorem parse_reaches_live (given : (parse source options symbols).tree = some root)
    {id : NodeId} (path : ReflTransGen (parse source options symbols).arena.Child root id) :
    (parse source options symbols).arena.Live id :=
  (parse_store given).2.reaches_live (parse_store given).1 path

/-- The tree of a program can be written out, unless it goes round in a circle.
It does not where labels are alone. -/
theorem parse_dump (given : (parse source options symbols).tree = some root) :
    (∃ text, (parse source options symbols).dumpAt root = .ok text) ∨
      ((parse source options symbols).dumpAt root = .error .cyclic ∧
        ¬LabelsAlone source options symbols) := by
  obtain ⟨live, sound⟩ := parse_store given
  cases written : (parse source options symbols).dumpAt root with
  | ok text => exact .inl ⟨text, rfl⟩
  | error error =>
      obtain ⟨rfl, together⟩ := sound.dump_error live written
      exact .inr ⟨rfl, together⟩

end

/-- The label that the first body leaves waiting holds the second heredoc, and is
taken for a key inside the body of that very heredoc. -/
example :
    let text := "foo <<A\n#\x7bx if \"a#\x7b<<B\x7d\":\x7d\nA\nz #\x7bf 1 2\x7d\nB\n"
    let parsed := parse (ascii text) {} {}
    parsed.isOk = true ∧ ∀ root ∈ parsed.tree, parsed.dumpAt root = .error .cyclic := by
  decide +kernel

end RubySyntax

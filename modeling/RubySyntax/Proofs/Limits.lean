/-
The bounds on nesting and on nodes.

A parse that meets neither of them does not depend on them: with any bounds
that are at least as large every part of the result is the same, and every node
is written the same. The two runs are followed side by side. They differ in
nothing but the bounds until the first one meets one of them.
-/

import RubySyntax.Proofs.Coupling.Expression
import RubySyntax.Proofs.Store
import RubySyntax.Proofs.Yields

namespace RubySyntax

/-! ### Stores with other limits -/

namespace Arena

variable {arena stored : Arena} {limit : Nat}

theorem alloc_roomier {node : Node} {id : NodeId} (roomier : arena.limit ≤ limit)
    (allocated : arena.alloc node = some (id, stored)) :
    stored.limit = arena.limit ∧
      { arena with limit }.alloc node = some (id, { stored with limit }) := by
  unfold alloc at allocated ⊢
  by_cases full : arena.limit ≤ arena.live
  · rw [if_pos full] at allocated
    cases allocated
  · have room : ¬limit ≤ arena.live := by omega
    rw [if_neg full] at allocated
    rw [if_neg room]
    dsimp only
    cases free : arena.free with
    | nil =>
        rw [free] at allocated
        cases allocated
        exact ⟨rfl, rfl⟩
    | cons next rest =>
        rw [free] at allocated
        cases allocated
        exact ⟨rfl, rfl⟩

theorem recycle_roomier (id : NodeId) :
    (arena.recycle id).limit = arena.limit ∧
      { arena with limit }.recycle id = { arena.recycle id with limit } := by
  have same : ({ arena with limit } : Arena).get? id = arena.get? id := rfl
  unfold recycle
  rw [same]
  cases arena.get? id with
  | none => exact ⟨rfl, rfl⟩
  | some node => exact ⟨rfl, rfl⟩

theorem modify_roomier (id : NodeId) (f : Node → Node) :
    (arena.modify id f).limit = arena.limit ∧
      { arena with limit }.modify id f = { arena.modify id f with limit } := by
  have same : ({ arena with limit } : Arena).get? id = arena.get? id := rfl
  unfold modify
  rw [same]
  cases arena.get? id with
  | none => exact ⟨rfl, rfl⟩
  | some node => exact ⟨rfl, rfl⟩

theorem dump_limit (symbols : SymbolTable) (id : NodeId) :
    { arena with limit }.dump symbols id = arena.dump symbols id :=
  @dump_congr arena { arena with limit } rfl (fun _ => rfl) symbols id

end Arena

/-! ### Two runs with other limits -/

/-- The second run may store as many nodes as given, and has at least the bounds
of the first one. -/
def Coupling.roomier (limit : Nat) : Coupling where
  watch := .idle
  reports := Eq
  arenas first second := first.limit ≤ limit ∧ second = { first with limit }
  depths first second := first ≤ second
  excused halt := ∃ error, halt = .fatal error ∧ error.IsLimit
  map same := by
    rw [same]
    exact .refl _
  add _ _ same := by rw [same]
  fetch same _ _ := by rw [same]
  slots alike := by
    rw [alike.2]
    exact ⟨rfl, fun _ => rfl⟩
  store same alike allocated := by
    obtain ⟨roomier, rfl⟩ := alike
    rw [same] at allocated
    obtain ⟨kept, allocated⟩ := Arena.alloc_roomier roomier allocated
    rw [← kept] at roomier
    exact ⟨_, allocated, roomier, rfl⟩
  full _ _ := .inl ⟨_, rfl, trivial⟩
  recycle id alike := by
    obtain ⟨roomier, rfl⟩ := alike
    obtain ⟨kept, recycled⟩ := Arena.recycle_roomier id
    rw [← kept] at roomier
    exact ⟨roomier, recycled⟩
  modify id f _ alike := by
    obtain ⟨roomier, rfl⟩ := alike
    obtain ⟨kept, modified⟩ := Arena.modify_roomier id f
    rw [← kept] at roomier
    exact ⟨roomier, modified⟩
  allowed larger below := Nat.lt_of_lt_of_le below larger
  tooDeep _ _ _ := .inl ⟨_, rfl, trivial⟩

instance (limit : Nat) : (Coupling.roomier limit).Loose :=
  ⟨fun _ => trivial⟩

instance (limit : Nat) : (Coupling.roomier limit).Tracks where
  read _ _ _ _ := ⟨trivial, trivial⟩
  traces _ _ _ _ _ same := by rw [show _ = _ from same]

theorem Coupling.roomier_starts (source : Bytes) {options : ParseOptions}
    (symbols : SymbolTable) {maxDepth maxNodes : Nat} (deeper : options.maxDepth ≤ maxDepth)
    (larger : options.maxNodes ≤ maxNodes) :
    (roomier maxNodes).Alike (State.start source options symbols)
      (State.start source { options with maxDepth, maxNodes } symbols) :=
  ⟨rfl, ⟨larger, rfl⟩, deeper, rfl, trivial⟩

def Parsed.relimit (parsed : Parsed) (limit : Nat) : Parsed :=
  { parsed with arena := { parsed.arena with limit } }

theorem Parsed.ofState_roomier {limit : Nat} {first second : State}
    (alike : (Coupling.roomier limit).Alike first second) (tree : Option NodeId)
    (fatal : Option Fatal) :
    ofState second tree fatal = (ofState first tree fatal).relimit limit := by
  have report : first.report = second.report := alike.reports
  have arena : second.arena = { first.arena with limit } := alike.arenas.2
  rw [alike.rest, ← report, arena]
  rfl

theorem Parsed.ofFatal_roomier {limit : Nat} {first second : State}
    (alike : (Coupling.roomier limit).Alike first second) (error : Fatal) :
    ofFatal second error = (ofFatal first error).relimit limit := by
  have report : first.report = second.report := alike.reports
  have arena : second.arena = { first.arena with limit } := alike.arenas.2
  rw [alike.rest, ← report, arena]
  rfl

/-- Limits that are not met can be raised without a trace in the result. -/
theorem parse_limits_raised (source : Bytes) {options : ParseOptions} (symbols : SymbolTable)
    {maxDepth maxNodes : Nat} (deeper : options.maxDepth ≤ maxDepth)
    (larger : options.maxNodes ≤ maxNodes)
    (unmet : ∀ error, (parse source options symbols).fatal = some error → ¬error.IsLimit) :
    let given := parse source options symbols
    let raised := parse source { options with maxDepth, maxNodes } symbols
    raised = { given with arena := { given.arena with limit := maxNodes } } ∧
      ∀ id, raised.dumpAt id = given.dumpAt id := by
  have ends := Coupling.runProgram_ends _ (Coupling.roomier_starts source symbols deeper larger)
  have same : parse source { options with maxDepth, maxNodes } symbols =
      (parse source options symbols).relimit maxNodes := by
    unfold parse at unmet ⊢
    cases run : runProgram source options symbols with
    | ok tree after =>
        rw [run] at ends
        obtain ⟨other, reached, alike⟩ := ends
        rw [reached]
        exact Parsed.ofState_roomier alike (some tree) none
    | error halt after =>
        rw [run] at ends unmet
        cases ends with
        | inl excused =>
            obtain ⟨error, rfl, limit⟩ := excused
            exact absurd limit (unmet error rfl)
        | inr halted =>
            obtain ⟨other, reached, alike⟩ := halted
            rw [reached]
            cases halt with
            | fatal error => exact Parsed.ofFatal_roomier alike error
            | starved => exact Parsed.ofState_roomier alike none none
            | fault fault => exact Parsed.ofState_roomier alike none none
  intro given raised
  refine ⟨same, fun id => ?_⟩
  change (parse source { options with maxDepth, maxNodes } symbols).dumpAt id = _
  rw [same]
  exact Arena.dump_limit _ id

/-- Two variables are swapped with just the nodes and the nesting that this
takes. -/
theorem parse_limits_raised_swap :
    let tight : ParseOptions := { maxDepth := 1, maxNodes := 8 }
    let given := parse (ascii "a, b = b, a") tight {}
    let raised := parse (ascii "a, b = b, a") { tight with maxDepth := 100, maxNodes := 100 } {}
    given.tree.isSome ∧ given.arena.live = 8 ∧
      raised = { given with arena := { given.arena with limit := 100 } } ∧
      ∀ id, raised.dumpAt id = given.dumpAt id := by
  have built : (parse (ascii "a, b = b, a") { maxDepth := 1, maxNodes := 8 } {}).tree.isSome := by
    decide +kernel
  have used : (parse (ascii "a, b = b, a") { maxDepth := 1, maxNodes := 8 } {}).arena.live = 8 := by
    decide +kernel
  have fatal : (parse (ascii "a, b = b, a") { maxDepth := 1, maxNodes := 8 } {}).fatal = none := by
    decide +kernel
  have unmet (error : Fatal)
      (met : (parse (ascii "a, b = b, a") { maxDepth := 1, maxNodes := 8 } {}).fatal =
        some error) : ¬error.IsLimit := by
    rw [fatal] at met
    cases met
  exact ⟨built, used, parse_limits_raised (ascii "a, b = b, a") {} (by decide) (by decide) unmet⟩

/-- A limit that is met shows in the result. -/
example :
    (parse (ascii "a, b = b, a") { maxNodes := 7 } {}).fatal = some (.arenaExhausted 7) := by
  decide +kernel

end RubySyntax

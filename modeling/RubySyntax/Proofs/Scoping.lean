/-
Scopes by the history of what was asked of them.

A history is read as the program text is, without a stack. Within a scope, names are declared
and other scopes are entered and left again. What is entered and not left is open, and the
scopes that are open declare what the history declares within them.
-/

import RubySyntax.Proofs.Declaration

namespace RubySyntax

inductive ScopeRequest where
  | push (kind : ScopeKind)
  | pop
  | declare (name : Symbol)
deriving DecidableEq, Repr, Inhabited

structure OpenScope where
  kind : ScopeKind
  declared : List Symbol
deriving DecidableEq, Repr, Inhabited

namespace ScopeStack

/-- Requests within one scope, with the names that they declare in this scope itself. The scopes
that they enter are left again. This one is not left, and the outermost one cannot be: there a
request to leave it is possible, and nothing comes of it. -/
inductive Within : (outermost : Bool) → List ScopeRequest → List Symbol → Prop where
  | nothing {outermost : Bool} : Within outermost [] []
  | declare {outermost : Bool} {requests : List ScopeRequest} {names : List Symbol}
      (name : Symbol) (before : Within outermost requests names) :
      Within outermost (requests ++ [.declare name]) (names ++ [name])
  | scope {outermost : Bool} {requests inner : List ScopeRequest} {names hidden : List Symbol}
      (kind : ScopeKind) (before : Within outermost requests names)
      (inside : Within false inner hidden) :
      Within outermost (requests ++ (.push kind :: inner ++ [.pop])) names
  | stays {requests : List ScopeRequest} {names : List Symbol}
      (before : Within true requests names) : Within true (requests ++ [.pop]) names

/-- Requests that leave the scopes that they enter, and no other, with the names that they
declare outside of these. -/
def Balanced (requests : List ScopeRequest) (names : List Symbol) : Prop :=
  Within false requests names

inductive Opens : List ScopeRequest → List OpenScope → Prop where
  | outermost {requests : List ScopeRequest} {names : List Symbol}
      (inside : Within true requests names) : Opens requests [⟨.program, names⟩]
  | entered {requests inner : List ScopeRequest} {scopes : List OpenScope} {names : List Symbol}
      (kind : ScopeKind) (around : Opens requests scopes) (inside : Balanced inner names) :
      Opens (requests ++ .push kind :: inner) (⟨kind, names⟩ :: scopes)

variable {requests inner : List ScopeRequest} {names : List Symbol} {opened : List OpenScope}
  {outermost : Bool}

/-! ### Every history has its open scopes -/

/-- A history ends within its innermost open scope, and goes on as this scope does. -/
theorem Opens.innermost (opens : Opens requests opened) :
    ∃ outermost earlier inner kind names around,
      requests = earlier ++ inner ∧ opened = ⟨kind, names⟩ :: around ∧
        Within outermost inner names ∧
        ∀ more declared, Within outermost more declared →
          Opens (earlier ++ more) (⟨kind, declared⟩ :: around) := by
  cases opens with
  | outermost inside =>
      exact ⟨true, [], requests, .program, _, [], rfl, rfl, inside, fun _ _ => .outermost⟩
  | @entered requests inner scopes names kind around inside =>
      refine ⟨false, requests ++ [.push kind], inner, kind, names, scopes, ?_, rfl, inside, ?_⟩
      · rw [List.append_assoc, List.singleton_append]
      · intro more declared grown
        rw [List.append_assoc, List.singleton_append]
        exact .entered kind around grown

theorem Opens.declare (opens : Opens requests opened) (name : Symbol) :
    ∃ after, Opens (requests ++ [.declare name]) after := by
  obtain ⟨outermost, earlier, inner, kind, names, around, rfl, -, inside, grows⟩ := opens.innermost
  rw [List.append_assoc]
  exact ⟨_, grows _ _ (inside.declare name)⟩

theorem Opens.pop (opens : Opens requests opened) :
    ∃ after, Opens (requests ++ [.pop]) after := by
  cases opens with
  | outermost inside => exact ⟨_, .outermost inside.stays⟩
  | @entered requests inner scopes names kind around inside =>
      obtain ⟨outermost, earlier, before, _, _, _, rfl, -, outside, grows⟩ := around.innermost
      rw [List.append_assoc, List.append_assoc]
      exact ⟨_, grows _ _ (outside.scope kind inside)⟩

theorem exists_opens (requests : List ScopeRequest) : ∃ opened, Opens requests opened := by
  induction requests using List.reverseRecOn with
  | nil => exact ⟨_, .outermost .nothing⟩
  | append_singleton requests request ih =>
      obtain ⟨opened, opens⟩ := ih
      cases request with
      | push kind => exact ⟨_, .entered kind opens .nothing⟩
      | pop => exact opens.pop
      | declare name => exact opens.declare name

theorem Opens.bottom (opens : Opens requests opened) :
    ∃ scopes names, opened = scopes ++ [⟨.program, names⟩] := by
  induction opens with
  | @outermost _ names _ => exact ⟨[], names, rfl⟩
  | @entered _ _ _ names kind _ _ ih =>
      obtain ⟨scopes, declared, rfl⟩ := ih
      exact ⟨⟨kind, names⟩ :: scopes, declared, rfl⟩

/-- One of the open scopes is the first that is no block. -/
theorem Opens.exists_barrier (opens : Opens requests opened) :
    ∃ blocks barrier around, opened = blocks ++ barrier :: around ∧
      (∀ block ∈ blocks, block.kind = .block) ∧ barrier.kind ≠ .block := by
  induction opens with
  | outermost _ => exact ⟨[], _, [], rfl, nofun, nofun⟩
  | @entered _ _ scopes names kind _ _ ih =>
      by_cases block : kind = .block
      · obtain ⟨blocks, barrier, around, rfl, through, hides⟩ := ih
        exact ⟨⟨kind, names⟩ :: blocks, barrier, around, rfl,
          List.forall_mem_cons.mpr ⟨block, through⟩, hides⟩
      · exact ⟨[], ⟨kind, names⟩, scopes, rfl, nofun, block⟩

/-! ### The scopes after a history -/

def serve (scopes : ScopeStack) : ScopeRequest → ScopeStack
  | .push kind => scopes.push kind
  | .pop => scopes.pop.2
  | .declare name => scopes.declare name

def serveAll (scopes : ScopeStack) (requests : List ScopeRequest) : ScopeStack :=
  requests.foldl serve scopes

theorem serveAll_append (scopes : ScopeStack) (requests more : List ScopeRequest) :
    scopes.serveAll (requests ++ more) = (scopes.serveAll requests).serveAll more :=
  List.foldl_append

/-- A scope that is entered and left has given its names, and nothing else is changed. -/
theorem pop_foldl_declare_push (names : List Symbol) (scopes : ScopeStack) (kind : ScopeKind) :
    (names.foldl declare (scopes.push kind)).pop = (names.eraseDups, scopes) := by
  have all := frames_foldl_declare names (scopes.push kind) rfl
  obtain ⟨inside, around⟩ := List.cons.inj all
  rw [pop, around, inside]
  rfl

/-- What is asked within a scope changes the scopes as the names declared in it do. -/
theorem serveAll_within (inside : Within outermost requests names) (scopes : ScopeStack)
    (bottom : outermost = true → scopes.enclosing = []) :
    scopes.serveAll requests = names.foldl declare scopes := by
  induction inside generalizing scopes with
  | nothing => rfl
  | @declare _ _ _ name _ ih =>
      rw [serveAll_append, ih scopes bottom, List.foldl_append]
      rfl
  | @scope _ requests inner names hidden kind _ _ before within =>
      have entered := within ((scopes.serveAll requests).push kind) nofun
      calc scopes.serveAll (requests ++ (.push kind :: inner ++ [.pop]))
          = (((scopes.serveAll requests).push kind).serveAll inner).pop.2 := by
            rw [serveAll_append, serveAll_append]
            rfl
        _ = scopes.serveAll requests := by rw [entered, pop_foldl_declare_push]
        _ = names.foldl declare scopes := before scopes bottom
  | @stays _ names _ ih =>
      obtain ⟨locals, same⟩ := exists_foldl_declare names scopes
      rw [serveAll_append, ih scopes bottom, same]
      change (pop _).2 = _
      rw [pop, bottom rfl]

/-- Each scope that is open has its names in the order of their first declaration. -/
theorem frames_serveAll (opens : Opens requests opened) :
    (({} : ScopeStack).serveAll requests).frames =
      opened.map fun scope => ⟨scope.kind, scope.declared.eraseDups⟩ := by
  induction opens with
  | outermost inside =>
      rw [serveAll_within inside {} fun _ => rfl, frames_foldl_declare _ _ rfl]
      rfl
  | @entered requests inner scopes names kind _ inside ih =>
      rw [serveAll_append, List.map_cons, ← ih]
      change ((push _ kind).serveAll inner).frames = _
      rw [serveAll_within inside _ nofun, frames_foldl_declare _ _ rfl]
      rfl

/-! ### What is seen of the scopes -/

theorem isTransparent_eq_false {kind : ScopeKind} (hides : kind ≠ .block) :
    kind.isTransparent = false := by
  cases kind with
  | block => exact absurd rfl hides
  | program | method | classBody => rfl

section

variable {blocks around : List Frame} {barrier : Frame}
  (through : ∀ block ∈ blocks, block.kind = .block) (hides : barrier.kind ≠ .block)

include through hides

/-- The names of blocks are seen, and those of the first scope that is none. -/
theorem declaredIn_iff (name : Symbol) :
    declaredIn name (blocks ++ barrier :: around) = true ↔
      ∃ frame ∈ blocks ++ [barrier], name ∈ frame.locals := by
  induction blocks with
  | nil =>
      rw [List.nil_append, declaredIn, isTransparent_eq_false hides]
      simp
  | cons block blocks ih =>
      obtain ⟨kind, through⟩ := List.forall_mem_cons.mp through
      rw [List.cons_append, declaredIn, kind, Bool.or_eq_true, Bool.and_eq_true, ih through]
      simp [ScopeKind.isTransparent]

theorem hidingKind?_eq :
    hidingKind? (blocks ++ barrier :: around) = some barrier.kind := by
  induction blocks with
  | nil => rw [List.nil_append, hidingKind?, isTransparent_eq_false hides, if_neg nofun]
  | cons block blocks ih =>
      obtain ⟨kind, through⟩ := List.forall_mem_cons.mp through
      rw [List.cons_append, hidingKind?, kind]
      exact ih through

end

/-- Whatever was asked of the scopes, some scopes are open, and the outermost one is among them.
Each has its names without repetition in the order of their first declaration. What is known
here was declared in the blocks from the innermost one on or in the first scope around them that
is no block, and the code is that of a method if this scope is. A scope that is entered and, after
requests that leave what they enter, left again has changed nothing. -/
theorem scopes_of_history (requests : List ScopeRequest) :
    let scopes := ({} : ScopeStack).serveAll requests
    (∃ opened, Opens requests opened) ∧
      (∀ opened, Opens requests opened →
        scopes.frames = opened.map (fun scope => ⟨scope.kind, scope.declared.eraseDups⟩) ∧
          (∃ inner names, opened = inner ++ [⟨.program, names⟩]) ∧
          ∃ blocks barrier around, opened = blocks ++ barrier :: around ∧
            (∀ block ∈ blocks, block.kind = .block) ∧ barrier.kind ≠ .block ∧
            (∀ name, scopes.isLocal name = true ↔
              ∃ scope ∈ blocks ++ [barrier], name ∈ scope.declared) ∧
            (scopes.inMethod = true ↔ barrier.kind = .method)) ∧
      ∀ kind inner names, Balanced inner names →
        ((scopes.push kind).serveAll inner).pop = (names.eraseDups, scopes) := by
  intro scopes
  refine ⟨exists_opens requests, fun opened opens => ⟨frames_serveAll opens, opens.bottom, ?_⟩,
    fun kind inner names balanced => ?_⟩
  · obtain ⟨blocks, barrier, around, rfl, through, hides⟩ := opens.exists_barrier
    have frames := frames_serveAll opens
    rw [List.map_append, List.map_cons] at frames
    have seen : ∀ frame ∈ blocks.map fun scope => (⟨scope.kind, scope.declared.eraseDups⟩ : Frame),
        frame.kind = .block := List.forall_mem_map.mpr through
    refine ⟨blocks, barrier, around, rfl, through, hides, fun name => ?_, ?_⟩
    · rw [isLocal, frames, declaredIn_iff seen hides]
      simp
    · rw [inMethod, frames, hidingKind?_eq seen hides, beq_iff_eq, Option.some_inj]
  · rw [serveAll_within balanced _ nofun, pop_foldl_declare_push]

/-- A class in a method that declares its names twice, after an attempt to leave the program. The
class is left again, and of its names none is known in the block that comes then. -/
theorem scopes_of_history_nested :
    let a : Symbol := ⟨0⟩
    let b : Symbol := ⟨1⟩
    let c : Symbol := ⟨2⟩
    let d : Symbol := ⟨3⟩
    let left : List ScopeRequest := [.push .classBody, .declare c, .pop]
    let requests : List ScopeRequest :=
      [.declare a, .declare c, .pop, .push .method, .declare b, .declare a, .declare b] ++
        left ++ [.push .block, .declare d]
    let opened : List OpenScope := [⟨.block, [d]⟩, ⟨.method, [b, a, b]⟩, ⟨.program, [a, c]⟩]
    let scopes := ({} : ScopeStack).serveAll requests
    (Opens requests opened ∧ Balanced left []) ∧
      scopes.frames = [⟨.block, [d]⟩, ⟨.method, [b, a]⟩, ⟨.program, [a, c]⟩] ∧
      scopes.inMethod = true ∧ scopes.isLocal b = true ∧ scopes.isLocal c = false ∧
      ((scopes.push .block).serveAll left).pop = ([], scopes) := by
  intro a b c d left requests opened scopes
  have balanced : Balanced left [] := .scope .classBody .nothing (.declare c .nothing)
  have program : Within true [.declare a, .declare c, .pop] [a, c] :=
    .stays (.declare c (.declare a .nothing))
  have method : Balanced ([.declare b, .declare a, .declare b] ++ left) [b, a, b] :=
    .scope .classBody (.declare b (.declare a (.declare b .nothing))) (.declare c .nothing)
  have opens : Opens requests opened :=
    .entered .block (.entered .method (.outermost program) method) (.declare d .nothing)
  obtain ⟨-, seen, restored⟩ := scopes_of_history requests
  obtain ⟨frames, -, blocks, barrier, around, split, through, hides, known, within⟩ :=
    seen opened opens
  have here : blocks = [⟨.block, [d]⟩] ∧ barrier = ⟨.method, [b, a, b]⟩ := by
    cases blocks with
    | nil =>
        have first := (List.cons.inj split).1
        exact absurd (first ▸ rfl) hides
    | cons block blocks =>
        obtain ⟨first, rest⟩ := List.cons.inj split
        cases blocks with
        | nil => exact ⟨first ▸ rfl, (List.cons.inj rest).1.symm⟩
        | cons other blocks =>
            have second := (List.cons.inj rest).1
            have kind := through other (List.mem_cons_of_mem _ List.mem_cons_self)
            rw [← second] at kind
            cases kind
  obtain ⟨rfl, rfl⟩ := here
  refine ⟨⟨opens, balanced⟩, frames, within.mpr rfl, (known b).mpr (by decide), ?_,
    restored .block left [] balanced⟩
  exact Bool.eq_false_iff.mpr fun seen => absurd ((known c).mp seen) (by decide)

end ScopeStack

end RubySyntax

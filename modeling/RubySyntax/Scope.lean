/-
Scopes of local variables, nested as the program text nests them.

A block sees the variables of the scopes around it; a method body and a class
body start with none. Names declared in a scope stay, in the order of their
first declaration, until the scope ends.
-/

import RubySyntax.Symbol

namespace RubySyntax

inductive ScopeKind where
  | program
  | method
  | classBody
  | block
deriving DecidableEq, Repr, Inhabited

namespace ScopeKind

def isTransparent : ScopeKind → Bool
  | .block => true
  | _ => false

end ScopeKind

structure Frame where
  kind : ScopeKind
  locals : List Symbol := []
deriving DecidableEq, Repr, Inhabited

/-- The innermost scope and those around it, nearest first. There is always an
outermost scope. -/
structure ScopeStack where
  current : Frame := { kind := .program }
  enclosing : List Frame := []
deriving DecidableEq, Repr, Inhabited

namespace ScopeStack

def frames (scopes : ScopeStack) : List Frame :=
  scopes.current :: scopes.enclosing

def depth (scopes : ScopeStack) : Nat :=
  scopes.frames.length

def push (scopes : ScopeStack) (kind : ScopeKind) : ScopeStack :=
  { current := { kind }, enclosing := scopes.frames }

/-- Leaves the innermost scope and gives its names. The outermost scope is
never left. -/
def pop (scopes : ScopeStack) : List Symbol × ScopeStack :=
  match scopes.enclosing with
  | [] => (scopes.current.locals, scopes)
  | outer :: enclosing =>
      (scopes.current.locals, { current := outer, enclosing })

def declare (scopes : ScopeStack) (name : Symbol) : ScopeStack :=
  if scopes.current.locals.contains name then scopes
  else
    { scopes with
      current := { scopes.current with locals := scopes.current.locals ++ [name] } }

/-- Whether one of the scopes, from the first on, declares the name, looking
no further than the first scope that hides what is around it. -/
def declaredIn (name : Symbol) : List Frame → Bool
  | [] => false
  | frame :: outer =>
      frame.locals.contains name ||
        (frame.kind.isTransparent && declaredIn name outer)

def isLocal (scopes : ScopeStack) (name : Symbol) : Bool :=
  declaredIn name scopes.frames

def hidingKind? : List Frame → Option ScopeKind
  | [] => none
  | frame :: outer =>
      if frame.kind.isTransparent then hidingKind? outer else some frame.kind

def inMethod (scopes : ScopeStack) : Bool :=
  hidingKind? scopes.frames == some .method

def locals (scopes : ScopeStack) : List Symbol :=
  scopes.current.locals

end ScopeStack

end RubySyntax

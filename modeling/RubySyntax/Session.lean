/-
Sessions: programs that are parsed one after the other, where each one sees
the names and the local variables of those before it.
-/

import RubySyntax.Program

namespace RubySyntax

structure Session where
  symbols : SymbolTable := {}
  locals : List Symbol := []
deriving DecidableEq, Repr, Inhabited

namespace SymbolTable

def internAll (table : SymbolTable) : List Bytes → List Symbol × SymbolTable
  | [] => ([], table)
  | name :: names =>
      let (symbol, table) := table.intern name
      let (symbols, table) := table.internAll names
      (symbol :: symbols, table)

end SymbolTable

namespace Session

/-- Parses the next program. The variables of the session are declared before
the given names, and those of the program are kept, also if it fails. -/
def step (session : Session) (source : Bytes) (names : List Bytes)
    (options : ParseOptions) : Parsed × Session :=
  let (own, symbols) := session.symbols.internAll names
  let parsed := parse source { options with locals := session.locals ++ own } symbols
  (parsed, { symbols := parsed.symbols, locals := parsed.locals })

end Session

end RubySyntax

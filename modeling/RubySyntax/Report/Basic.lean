/-
The reports of one parse.

Every report is counted. In capturing mode the first reports of each severity
are kept, up to a limit of its own; in streaming mode each is written out at
once and none is kept.
-/

import RubySyntax.Report.Problem
import RubySyntax.Source.Map

namespace RubySyntax

structure Diagnostic where
  problem : Problem
  span : Span
  location : Location
deriving DecidableEq, Repr, Inhabited

namespace Diagnostic

def describe (diagnostic : Diagnostic) : String :=
  let place :=
    toString diagnostic.location.line ++ ":" ++ toString diagnostic.location.column ++ ": "
  match diagnostic.problem.severity with
  | .error => place ++ diagnostic.problem.message
  | .warning => place ++ "warning: " ++ diagnostic.problem.message

end Diagnostic

inductive ReportMode where
  | capture (errorLimit warningLimit : Nat)
  | stream
deriving DecidableEq, Repr, Inhabited

/-- The reports so far, and the map that places them. Nothing reads what has
been `made`. -/
structure Report where
  mode : ReportMode
  map : SourceMap := {}
  errors : Nat := 0
  warnings : Nat := 0
  captured : Array Diagnostic := #[]
  written : String := ""
  made : Array Diagnostic := #[]
deriving DecidableEq, Repr, Inhabited

namespace Report

def count (report : Report) : Severity → Nat
  | .error => report.errors
  | .warning => report.warnings

/-- Keeps or writes out a report, without counting it. -/
def deliver (report : Report) (diagnostic : Diagnostic) : Report :=
  match report.mode with
  | .capture errorLimit warningLimit =>
      let severity := diagnostic.problem.severity
      let limit := match severity with
        | .error => errorLimit
        | .warning => warningLimit
      if report.count severity < limit then
        { report with captured := report.captured.push diagnostic }
      else report
  | .stream =>
      let line := report.map.fileName diagnostic.location.file ++ ":" ++
        diagnostic.describe ++ "\n"
      { report with written := report.written ++ line }

def add (report : Report) (span : Span) (problem : Problem) : Report :=
  let diagnostic : Diagnostic :=
    { problem, span, location := report.map.locate span.start }
  let delivered := { report.deliver diagnostic with made := report.made.push diagnostic }
  match problem.severity with
  | .error => { delivered with errors := delivered.errors + 1 }
  | .warning => { delivered with warnings := delivered.warnings + 1 }

end Report

end RubySyntax

import NodeGraph.Graph.Basic

/-!
What validation finds: errors, of which some are fatal, and warnings, gathered in a report.
-/

namespace NodeGraph

inductive ValidationError where
  | cycle (nodes : List Nat)
  | danglingEdge (node slot target : Nat)
  | missingOutput (node : Nat)
  | unknownPrimitive (node : Nat) (name : String)
  | typing (failure : NodeTypeError)

namespace ValidationError

def kind : ValidationError → String
  | .cycle _ => "CycleDetected"
  | .danglingEdge _ _ _ => "DanglingEdge"
  | .missingOutput _ => "MissingOutput"
  | .unknownPrimitive _ _ => "UnknownPrimitive"
  | .typing _ => "Type"

def message : ValidationError → String
  | .cycle nodes => "Graph contains a cycle through nodes " ++ natListText nodes
  | .danglingEdge node slot target => (GraphError.danglingEdge node slot target).message
  | .missingOutput node => "Node " ++ natText node ++ " has no output expression"
  | .unknownPrimitive node name =>
      "Node " ++ natText node ++ " uses unknown primitive '" ++ name ++ "'"
  | .typing failure => failure.message

/-- After a fatal error validation goes no further. -/
def isFatal : ValidationError → Bool
  | .cycle _ | .danglingEdge _ _ _ => true
  | _ => false

def suggestion? : ValidationError → Option String
  | .danglingEdge node slot _ =>
      some ("Reconnect or clear input " ++ natText slot ++ " of node " ++ natText node)
  | .missingOutput _ => some "Add an 'output' parameter expression"
  | .typing failure =>
      if failure.origin = failure.node then none
      else some ("Check the value produced by node " ++ natText failure.origin)
  | _ => none

def affectedNodes : ValidationError → List Nat
  | .cycle nodes => nodes
  | .danglingEdge node _ _ | .missingOutput node | .unknownPrimitive node _ => [node]
  | .typing failure => [failure.node]

end ValidationError

structure Warning where
  message : String
  node : Option Nat
  suggestion : Option String

structure Report where
  errors : List ValidationError
  warnings : List Warning

namespace Report

def empty : Report := ⟨[], []⟩

def success (report : Report) : Bool := report.errors.isEmpty

def addError (report : Report) (error : ValidationError) : Report :=
  { report with errors := report.errors ++ [error] }

def addWarning (report : Report) (warning : Warning) : Report :=
  { report with warnings := report.warnings ++ [warning] }

def summary (report : Report) : String :=
  if !report.success then
    "Validation failed with " ++ natText report.errors.length ++ " error(s)"
  else if report.warnings.isEmpty then "Graph is valid"
  else "Graph is valid with " ++ natText report.warnings.length ++ " warning(s)"

def detailed (report : Report) : List String :=
  report.errors.zipIdx.map fun (error, index) =>
    natText (index + 1) ++ ". " ++ error.message ++
      (error.suggestion?.elim "" fun hint => "\n   -> Suggestion: " ++ hint)

end Report

end NodeGraph

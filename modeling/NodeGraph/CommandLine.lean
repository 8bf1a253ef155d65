import NodeGraph.Execution.Session
import NodeGraph.Primitive.Builtin
import NodeGraph.Stored.Options
import NodeGraph.Value.Text

/-!
The command line: it lists the primitives, checks, types and evaluates stored graphs, and shows a
small graph at work. A command reads the files that it is given and prints lines, up to the
failure that ends it.
-/

namespace NodeGraph

/-- A printed line. A timed one ends with the time that the command took. -/
inductive Line where
  | plain (text : String)
  | timed (text : String)
  deriving DecidableEq, Repr

/-- The line, where the time in milliseconds is needed only for a timed one. -/
def Line.text (elapsed : String) : Line → String
  | .plain text => text ++ "\n"
  | .timed text => text ++ " (" ++ elapsed ++ " ms)\n"

/-- Why a command failed, and what caused it, the nearest cause first. -/
structure Complaint where
  message : String
  causes : List String
  deriving DecidableEq, Repr

namespace Complaint

/-- A text whose further lines stand below its first one. -/
def hanging (margin text : String) : String := text.replace "\n" ("\n" ++ margin)

/-- Several causes are numbered. -/
def causeLines : List String → List String
  | [] => []
  | [cause] => ["    " ++ hanging "    " cause]
  | causes => causes.zipIdx.map fun (cause, index) =>
      "    " ++ natText index ++ ": " ++ hanging "       " cause

def lines (complaint : Complaint) : List String :=
  ("Error: " ++ complaint.message) ::
    if complaint.causes.isEmpty then [] else ["", "Caused by:"] ++ causeLines complaint.causes

def ofStore (context : String) (error : StoreError) : Complaint :=
  ⟨context, [error.message, error.cause]⟩

end Complaint

structure Printed where
  output : List Line
  errors : List String

abbrev CommandM := ExceptT Complaint (StateT Printed (Except Fault))

structure Transcript where
  code : Nat
  output : List Line
  errors : List String

namespace Transcript

def outputText (transcript : Transcript) (elapsed : String) : String :=
  String.join (transcript.output.map (Line.text elapsed))

def errorText (transcript : Transcript) : String :=
  String.join (transcript.errors.map (· ++ "\n"))

end Transcript

namespace CommandLine

abbrev Files := List (String × String)

def say (text : String) : CommandM Unit :=
  modify fun printed => { printed with output := printed.output ++ [.plain text] }

def sayTimed (text : String) : CommandM Unit :=
  modify fun printed => { printed with output := printed.output ++ [.timed text] }

def sayError (text : String) : CommandM Unit :=
  modify fun printed => { printed with errors := printed.errors ++ [text] }

def fail {α : Type} (message : String) : CommandM α := throw ⟨message, []⟩

/-- A faulting evaluation ends the run at once. -/
def evaluated {α : Type} (result : Except Fault α) : CommandM α := liftM (m := Except Fault) result

def orRefused {α : Type} (result : Except GraphError α) : CommandM α :=
  match result with
  | .ok value => return value
  | .error error => fail error.message

/-- A path without the leading steps that stay in the working directory. -/
def plainPath : List Char → List Char
  | '.' :: '/' :: rest => plainPath rest
  | path => path

def samePath (left right : String) : Bool := plainPath left.toList == plainPath right.toList

/-- The working directory, the one above it, and the topmost one. -/
def directories : List String := [".", "./", "..", "../", "/"]

def readFile (files : Files) (path : String) : Except StoreError String :=
  match files.find? fun file => samePath file.1 path with
  | some (_, text) => .ok text
  | none => .error (.file (if directories.contains path then .directory else .missing))

def loadGraph (files : Files) (path : String) : CommandM Graph :=
  match (readFile files path).bind fun text => Graph.load text .builtin 0 with
  | .ok graph => return graph
  | .error error => throw (.ofStore ("failed to load " ++ path) error)

def loadOptions (files : Files) (path : String) : CommandM Options :=
  match (readFile files path).bind Options.load with
  | .ok options => return options
  | .error error => throw (.ofStore ("failed to read " ++ path) error)

def usage : List String :=
  ["Usage: imageflow <command> [options]", "", "Commands:",
    "  primitives              List all available primitives",
    "  check <graph.json>      Validate a saved graph",
    "  types <graph.json>      Show the inferred type of every node",
    "  eval <graph.json> [options]",
    "                          Evaluate a saved graph",
    "  demo                    Build and evaluate a small graph",
    "  help                    Show this help message", "", "Eval options:",
    "  --node <index>          Evaluate one node only (default: all)",
    "  --config <options.toml> Execution options",
    "  --sequential            Disable parallel evaluation"]

def showUsage : CommandM Unit := usage.forM say

/-! ### Primitives, checks and types -/

def describe (signature : Signature) : List String :=
  ("      " ++ signature.name ++ " : " ++ signature.scheme.toTy.display) ::
    if signature.description.isEmpty then [] else ["          " ++ signature.description]

def listPrimitives : CommandM Unit := do
  let registry := Registry.builtin
  say ("Available primitives (" ++ natText registry.size ++ " total):")
  say ""
  for (category, signatures) in registry.grouped do
    say ("  " ++ category.displayName)
    (signatures.flatMap describe).forM say
    say ""

def check (files : Files) (path : String) : CommandM Unit := do
  let graph ← loadGraph files path
  let report := graph.validate Pipeline.standard
  for warning in report.warnings do
    say ("warning: " ++ warning.message)
    for suggestion in warning.suggestion do
      say ("    hint: " ++ suggestion)
  report.detailed.forM sayError
  sayTimed report.summary
  if !report.success then
    fail (natText report.errors.length ++ " error(s) in " ++ path)

def typeLine (index : Nat) (node : Node) : String :=
  let ty := match node.ty with
    | .ok ty => ty.display
    | .error failure => "<" ++ failure.message ++ ">"
  "  [" ++ natText index ++ "] " ++ node.displayName ++ " : " ++ ty

def showTypes (graph : Graph) : CommandM Unit :=
  graph.nodes.zipIdx.forM fun (node, index) => say (typeLine index node)

/-! ### Evaluation -/

inductive IndexFault where
  | empty
  | invalidDigit
  | tooLarge
  deriving DecidableEq, Repr

def IndexFault.message : IndexFault → String
  | .empty => "cannot parse integer from empty string"
  | .invalidDigit => "invalid digit found in string"
  | .tooLarge => "number too large to fit in target type"

/-- Reads digits up to the first fault. -/
def readDigits (total : Nat) : List Char → Except IndexFault Nat
  | [] => .ok total
  | digit :: rest =>
      if !digit.isDigit then .error .invalidDigit
      else
        let next := total * 10 + Numeral.valueOf [digit]
        if UInt64.size ≤ next then .error .tooLarge else readDigits next rest

/-- An index of 64 bits, which may have a plus sign. -/
def readIndex (text : String) : Except IndexFault Nat :=
  match text.toList with
  | [] => .error .empty
  | ['+'] => .error .invalidDigit
  | '+' :: digits => readDigits 0 digits
  | digits => readDigits 0 digits

structure Request where
  target : Option Nat
  options : Options

def readRequest (files : Files) (request : Request) : List String → CommandM Request
  | [] => return request
  | "--node" :: text :: rest =>
      match readIndex text with
      | .ok index => readRequest files { request with target := some index } rest
      | .error fault => throw ⟨"invalid node index '" ++ text ++ "'", [fault.message]⟩
  | "--config" :: path :: rest => do
      let options ← loadOptions files path
      readRequest files { request with options } rest
  | "--sequential" :: rest =>
      let options := { request.options with parallel := false }
      readRequest files { request with options } rest
  | other :: _ => fail ("unknown option: " ++ other)

def valueLine (index : Nat) (value : Value) : String :=
  "  [" ++ natText index ++ "] = " ++ value.display

def evaluate (files : Files) (path : String) (arguments : List String) : CommandM Unit := do
  let request ← readRequest files ⟨none, .default⟩ arguments
  let session := Session.ofGraph (← loadGraph files path) request.options 0
  match request.target with
  | some index =>
      let (value, _) ← orRefused (← evaluated (session.evaluate index))
      say (valueLine index value)
  | none =>
      match ← evaluated session.evaluateAll with
      | .ok (values, _) => values.zipIdx.forM fun (value, index) => say (valueLine index value)
      | .error error => throw ⟨error.message, [error.cause]⟩

/-! ### Demonstration -/

def edited (session : Session) (result : Except GraphError Graph) : CommandM Session := do
  return { session with graph := ← orRefused result }

def added (session : Session) (label : String) (output : Expr) : CommandM (Nat × Session) := do
  let (index, graph) ← orRefused (session.graph.addOutputNode output)
  let session ← edited session (graph.setLabel index (some label))
  return (index, session)

def shown (session : Session) (heading : String) (index : Nat) : CommandM Session := do
  let (value, session) ← orRefused (← evaluated (session.evaluate index))
  say (heading ++ "scaled = " ++ value.display)
  return session

/-- The numbers below five, each multiplied with the value of another node. -/
def demonstrate : CommandM Unit := do
  let session := Session.ofGraph (.empty .builtin) .default 0
  let (scale, session) ← added session "scale" (.constant (.number 2))
  let (numbers, session) ← added session "numbers"
    (.primitive "range" [.constant (.integer 5)])
  let (scaled, session) ← added session "scaled"
    (.map (.input 0) (.lambda ["x"] (.primitive "mul" [.variable "x", .input 1])))
  let session ← edited session (session.graph.addEdge scaled 0 numbers)
  let session ← edited session (session.graph.addEdge scaled 1 scale)
  say "Graph:"
  showTypes session.graph
  say ""
  let session ← shown session "" scaled
  say ""
  say "Trying to feed 'scaled' back into 'numbers'..."
  match session.graph.addEdge numbers 0 scaled with
  | .ok _ => fail "cycle was accepted"
  | .error error => say ("  rejected: " ++ error.message)
  say "Replacing the scale with a string..."
  let session ← edited session
    (session.graph.setExpression scale Expr.outputName (.constant (.text "two")))
  match session.graph.ty scaled with
  | .ok ty => say ("  scaled : " ++ ty.display)
  | .error error => say ("  scaled no longer types: " ++ error.message)
  let session ← shown session "  " scaled
  let session ← edited session
    (session.graph.setExpression scale Expr.outputName (.constant (.number 0.5)))
  let session ← shown session "Restored: " scaled
  let stats := session.engine.cache.stats
  say ""
  say ("Cache: " ++ natText stats.hits ++ " hit(s), " ++ natText stats.misses ++ " miss(es), " ++
    natText stats.evictions ++ " evicted")

/-! ### Commands -/

/-- The path that a command works on, and the arguments behind it. -/
def graphPath : List String → CommandM (String × List String)
  | path :: rest => return (path, rest)
  | [] => fail "please specify a graph file"

def command (files : Files) : List String → CommandM Unit
  | [] => showUsage
  | name :: arguments => do
      if name = "primitives" then listPrimitives
      else if name = "check" then
        let (path, _) ← graphPath arguments
        check files path
      else if name = "types" then
        let (path, _) ← graphPath arguments
        showTypes (← loadGraph files path)
      else if name = "eval" then
        let (path, options) ← graphPath arguments
        evaluate files path options
      else if name = "demo" then demonstrate
      else
        showUsage
        if !(["help", "--help", "-h"].contains name) then fail ("unknown command: " ++ name)

def run (files : Files) (arguments : List String) : Except Fault Transcript := do
  let heading : Printed := ⟨[.plain "ImageFlow v0.3.0", .plain ""], []⟩
  match ← (command files arguments).run heading with
  | (.ok (), printed) => return ⟨0, printed.output, printed.errors⟩
  | (.error complaint, printed) =>
      return ⟨1, printed.output, printed.errors ++ complaint.lines⟩

end CommandLine

end NodeGraph

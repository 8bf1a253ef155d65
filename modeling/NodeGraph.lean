import NodeGraph.Color
import NodeGraph.CommandLine
import NodeGraph.Execution.Cache
import NodeGraph.Execution.Engine
import NodeGraph.Execution.Plan
import NodeGraph.Execution.Session
import NodeGraph.Execution.Worker
import NodeGraph.Expr.Basic
import NodeGraph.Expr.Eval
import NodeGraph.Expr.Free
import NodeGraph.Foreign.Term
import NodeGraph.Foreign.Value
import NodeGraph.Geometry
import NodeGraph.Graph.Basic
import NodeGraph.Graph.Cursor
import NodeGraph.Graph.Edit
import NodeGraph.Graph.Topology
import NodeGraph.Image
import NodeGraph.Json.Basic
import NodeGraph.Json.Reader
import NodeGraph.Json.Writer
import NodeGraph.Main
import NodeGraph.Primitive.Basic
import NodeGraph.Primitive.Builtin
import NodeGraph.Primitive.Chromatic
import NodeGraph.Primitive.Collection
import NodeGraph.Primitive.Geometric
import NodeGraph.Primitive.Logic
import NodeGraph.Primitive.Math
import NodeGraph.Primitive.Registry
import NodeGraph.Proofs.Execution.Accounting
import NodeGraph.Proofs.Execution.Background
import NodeGraph.Proofs.Execution.Batches
import NodeGraph.Proofs.Execution.Caching
import NodeGraph.Proofs.Execution.Coherence
import NodeGraph.Proofs.Execution.Demands
import NodeGraph.Proofs.Execution.Dependence
import NodeGraph.Proofs.Execution.Planning
import NodeGraph.Proofs.Execution.Promises
import NodeGraph.Proofs.Execution.Recency
import NodeGraph.Proofs.Execution.Reference
import NodeGraph.Proofs.Execution.Resolution
import NodeGraph.Proofs.Execution.Serving
import NodeGraph.Proofs.Execution.Uncached
import NodeGraph.Proofs.Expr.Applying
import NodeGraph.Proofs.Expr.Descent
import NodeGraph.Proofs.Expr.Evaluation
import NodeGraph.Proofs.Expr.Evaluators
import NodeGraph.Proofs.Expr.Exposure
import NodeGraph.Proofs.Expr.Faults
import NodeGraph.Proofs.Expr.Identity
import NodeGraph.Proofs.Expr.Watching
import NodeGraph.Proofs.Expr.Mapping
import NodeGraph.Proofs.Expr.Relocation
import NodeGraph.Proofs.Expr.Renumbering
import NodeGraph.Proofs.Expr.Scoping
import NodeGraph.Proofs.Expr.Views
import NodeGraph.Proofs.Foreign.Compiling
import NodeGraph.Proofs.Foreign.Crossing
import NodeGraph.Proofs.Graph.Atomicity
import NodeGraph.Proofs.Graph.Connecting
import NodeGraph.Proofs.Graph.Copying
import NodeGraph.Proofs.Graph.Cursors
import NodeGraph.Proofs.Graph.Edits
import NodeGraph.Proofs.Graph.Histories
import NodeGraph.Proofs.Graph.Loading
import NodeGraph.Proofs.Graph.Loosening
import NodeGraph.Proofs.Graph.Names
import NodeGraph.Proofs.Graph.Passes
import NodeGraph.Proofs.Graph.Removal
import NodeGraph.Proofs.Graph.Revisions
import NodeGraph.Proofs.Graph.Saving
import NodeGraph.Proofs.Graph.Structure
import NodeGraph.Proofs.Graph.Typing
import NodeGraph.Proofs.Json.Spelling
import NodeGraph.Proofs.Primitive.Clamping
import NodeGraph.Proofs.Primitive.Palette
import NodeGraph.Proofs.Primitive.Passing
import NodeGraph.Proofs.Primitive.Signatures
import NodeGraph.Proofs.Primitive.Uniformity
import NodeGraph.Proofs.Primitive.Viewing
import NodeGraph.Proofs.Stored.Exprs
import NodeGraph.Proofs.Stored.Graphs
import NodeGraph.Proofs.Stored.Values
import NodeGraph.Proofs.Text.Colors
import NodeGraph.Proofs.Text.Identities
import NodeGraph.Proofs.Text.Numerals
import NodeGraph.Proofs.Topology.Components
import NodeGraph.Proofs.Topology.Distances
import NodeGraph.Proofs.Topology.Heights
import NodeGraph.Proofs.Topology.Knots
import NodeGraph.Proofs.Topology.Layers
import NodeGraph.Proofs.Topology.Search
import NodeGraph.Proofs.Topology.Sorting
import NodeGraph.Proofs.Typing.Canonical
import NodeGraph.Proofs.Typing.Compression
import NodeGraph.Proofs.Typing.Deciding
import NodeGraph.Proofs.Typing.Extensions
import NodeGraph.Proofs.Typing.Generalization
import NodeGraph.Proofs.Typing.Hiding
import NodeGraph.Proofs.Typing.Inference
import NodeGraph.Proofs.Typing.Inferencers
import NodeGraph.Proofs.Typing.Inhabitation
import NodeGraph.Proofs.Typing.Masking
import NodeGraph.Proofs.Typing.MostGeneral
import NodeGraph.Proofs.Typing.NodeRules
import NodeGraph.Proofs.Typing.Nodes
import NodeGraph.Proofs.Typing.Opening
import NodeGraph.Proofs.Typing.Principal
import NodeGraph.Proofs.Typing.Renaming
import NodeGraph.Proofs.Typing.Rules
import NodeGraph.Proofs.Typing.Scopes
import NodeGraph.Proofs.Typing.Slots
import NodeGraph.Proofs.Typing.Solutions
import NodeGraph.Proofs.Typing.Soundness
import NodeGraph.Proofs.Typing.Substitution
import NodeGraph.Proofs.Typing.Termination
import NodeGraph.Proofs.Typing.Texts
import NodeGraph.Proofs.Typing.Unification
import NodeGraph.Proofs.Typing.Variants
import NodeGraph.Proofs.Validation.Acceptance
import NodeGraph.Proofs.Validation.Verdict
import NodeGraph.Proofs.Value.Equality
import NodeGraph.Proofs.Value.Floats
import NodeGraph.Stored.Expr
import NodeGraph.Stored.Failure
import NodeGraph.Stored.Fields
import NodeGraph.Stored.Graph
import NodeGraph.Stored.Options
import NodeGraph.Stored.Ty
import NodeGraph.Stored.Value
import NodeGraph.Text.CodeRange
import NodeGraph.Text.Decimal
import NodeGraph.Text.Invisible
import NodeGraph.Text.LowerCase
import NodeGraph.Text.Numeral
import NodeGraph.Text.NumeralReader
import NodeGraph.Text.Quoted
import NodeGraph.Toml.Basic
import NodeGraph.Toml.Reader
import NodeGraph.Typing.Error
import NodeGraph.Typing.Infer
import NodeGraph.Typing.Ty
import NodeGraph.Typing.VarTable
import NodeGraph.Validation.Pipeline
import NodeGraph.Validation.Report
import NodeGraph.Value.Basic
import NodeGraph.Value.Text
import NodeGraph.Version

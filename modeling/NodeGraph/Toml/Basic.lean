import NodeGraph.Text.Numeral

/-!
TOML documents as trees. A table remembers how it came to be, since that decides what later
statements may add to it.
-/

namespace NodeGraph

inductive Toml.Standing where
  /-- Opened by a header, or the document itself. -/
  | opened
  /-- Only on the way to tables with longer headers. -/
  | implied
  /-- Made by dotted keys. -/
  | dotted
  /-- Written as a value between braces. -/
  | closed
  deriving DecidableEq, Repr

inductive Toml where
  | string (text : String)
  | integer (number : Int)
  | float (numeral : Numeral)
  | boolean (truth : Bool)
  /-- A date, a time of day, or both. -/
  | moment (written : List Char)
  | array (items : List Toml)
  | table (standing : Toml.Standing) (fields : List (String × Toml))
  /-- The tables of a repeated header. -/
  | tables (earlier : List (List (String × Toml))) (last : List (String × Toml))
  deriving Inhabited

namespace Toml

structure Table where
  standing : Standing
  fields : List (String × Toml)

namespace Table

def empty : Table := ⟨.opened, []⟩

def find? (table : Table) (key : String) : Option Toml := table.fields.lookup key

def putField (key : String) (value : Toml) : List (String × Toml) → List (String × Toml)
  | [] => [(key, value)]
  | (first, old) :: rest =>
      if first = key then (first, value) :: rest else (first, old) :: putField key value rest

def put (table : Table) (key : String) (value : Toml) : Table :=
  { table with fields := putField key value table.fields }

/-- Changes the table at the end of a path, of which the missing tables are made. The path of a
header may cross every table that is not a value; a dotted key may cross only tables without a
header of their own, and the last one of a repeated header. -/
def updateAt (dotted : Bool) (change : Table → Option Table) : List String → Table → Option Table
  | [], here => change here
  | key :: path, here =>
      match here.find? key with
      | none => do
          let made ← updateAt dotted change path ⟨if dotted then .dotted else .implied, []⟩
          return here.put key (.table made.standing made.fields)
      | some (.table standing fields) =>
          if standing = .closed ∨ (dotted ∧ standing = .opened) then none
          else do
            let changed ← updateAt dotted change path ⟨standing, fields⟩
            return here.put key (.table changed.standing changed.fields)
      | some (.tables earlier last) => do
          let changed ← updateAt dotted change path ⟨.opened, last⟩
          return here.put key (.tables earlier changed.fields)
      | some _ => none

/-- Gives a new key its value. A dotted key ends in a table that dotted keys made. -/
def define (path : List String) (value : Toml) (table : Table) : Option Table := do
  let key ← path.getLast?
  let parents := path.dropLast
  table.updateAt true
    (fun table =>
      if (table.standing = .dotted ↔ parents = []) ∨ (table.find? key).isSome then none
      else some (table.put key value))
    parents

/-- The header of a table, which stands once. -/
def openTable (path : List String) (table : Table) : Option Table := do
  let key ← path.getLast?
  table.updateAt false
    (fun table =>
      match table.find? key with
      | none => some (table.put key (.table .opened []))
      | some (.table .implied fields) => some (table.put key (.table .opened fields))
      | some _ => none)
    path.dropLast

/-- A repeated header, which starts another table each time. -/
def openNext (path : List String) (table : Table) : Option Table := do
  let key ← path.getLast?
  table.updateAt false
    (fun table =>
      match table.find? key with
      | none => some (table.put key (.tables [] []))
      | some (.tables earlier last) => some (table.put key (.tables (earlier ++ [last]) []))
      | some _ => none)
    path.dropLast

end Table

end Toml

end NodeGraph

import Shrinker.Toml.Value

/-!
How keys and headers build tables. Each addition is refused if it would say something twice: a key that
has a value, a header for a table that has one, or dotted keys into a table that they did not make.
-/
namespace Shrinker.Toml

namespace Table

def put (key : String) (value : Value) : Table → Table
  | [] => [(key, value)]
  | (other, current) :: rest =>
      if other = key then (key, value) :: rest else (other, current) :: put key value rest

def addNew (key : String) (value : Value) (table : Table) : Option Table :=
  match table.lookup key with
  | some _ => none
  | none => some (table ++ [(key, value)])

def admitsDotted (origin : Origin) (ends : Bool) : Bool :=
  match origin with
  | .dotted => true
  | .implied => !ends
  | .header | .inline => false

/-- Adds a value under a dotted key. Tables on the way are made as needed. -/
def addDotted (parents : List String) (name : String) (value : Value) (table : Table) :
    Option Table :=
  match parents with
  | [] => addNew name value table
  | parent :: rest =>
      match table.lookup parent with
      | none => do
          let inner ← addDotted rest name value []
          return table.put parent (.table .dotted inner)
      | some (.table origin inner) => do
          guard (admitsDotted origin rest.isEmpty)
          let inner ← addDotted rest name value inner
          return table.put parent (.table origin inner)
      | some (.tables elements) => do
          guard !rest.isEmpty
          let last ← elements.getLast?
          let last ← addDotted rest name value last
          return table.put parent (.tables (elements.dropLast ++ [last]))
      | some _ => none

/-- Changes the table at a path of headers. Tables on the way are implied as needed; of an array of
tables the last one is meant. -/
def within (path : List String) (change : Table → Option Table) (table : Table) :
    Option Table :=
  match path with
  | [] => change table
  | parent :: rest =>
      match table.lookup parent with
      | none => do
          let inner ← within rest change []
          return table.put parent (.table .implied inner)
      | some (.table origin inner) => do
          guard (origin ≠ .inline)
          let inner ← within rest change inner
          return table.put parent (.table origin inner)
      | some (.tables elements) => do
          let last ← elements.getLast?
          let last ← within rest change last
          return table.put parent (.tables (elements.dropLast ++ [last]))
      | some _ => none

/-- The table of a header: a new one, or one that was implied so far. -/
def openTable (name : String) (table : Table) : Option Table :=
  match table.lookup name with
  | none => some (table.put name (.table .header []))
  | some (.table .implied inner) => some (table.put name (.table .header inner))
  | some _ => none

def pushTable (name : String) (table : Table) : Option Table :=
  match table.lookup name with
  | none => some (table.put name (.tables [[]]))
  | some (.tables elements) => some (table.put name (.tables (elements ++ [[]])))
  | some _ => none

end Table

end Shrinker.Toml

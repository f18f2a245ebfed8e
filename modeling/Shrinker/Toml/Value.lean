namespace Shrinker.Toml

/-- How a table came about, which decides what may still be added to it. A table is opened by its own
header, implied by the header of a table below it, made by a dotted key, or written inline. -/
inductive Origin where
  | header | implied | dotted | inline
  deriving DecidableEq, Repr

/-- Floats and moments are kept as they are written. `tables` is an array whose elements have headers. -/
inductive Value where
  | string (text : String)
  | integer (value : Int)
  | float (literal : String)
  | boolean (value : Bool)
  | moment (literal : String)
  | array (elements : List Value)
  | tables (elements : List (List (String × Value)))
  | table (origin : Origin) (entries : List (String × Value))
  deriving Repr

abbrev Table := List (String × Value)

structure Key where
  parents : List String
  name : String
  deriving DecidableEq, Repr

end Shrinker.Toml

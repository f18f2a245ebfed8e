import Shrinker.Toml.Moment
import Shrinker.Toml.Number
import Shrinker.Toml.Quoted
import Shrinker.Toml.Table

namespace Shrinker.Toml

open Reader

def isBare (char : Char) : Bool :=
  char.isAlphanum || char == '_' || char == '-'

def keyPart : Reader String := do
  blanks
  let part ← Quoted.basic <|> Quoted.literal <|> do
    let first ← satisfy isBare
    return .ofList (first :: (← takeWhile isBare))
  blanks
  return part

/-- Arrays and tables nest, and keys are dotted, fewer times than this. -/
def depthLimit : Nat :=
  80

def key : Reader Key := do
  let first ← keyPart
  let rest ← many (char '.' *> keyPart)
  guard (rest.length + 1 < depthLimit)
  match rest.getLast? with
  | none => return ⟨[], first⟩
  | some name => return ⟨first :: rest.dropLast, name⟩

def separated {α : Type} (element : Reader α) : Reader (List α) := do
  match ← optional element with
  | none => return []
  | some first => return first :: (← many (char ',' *> element))

/-- An array; a comma may stand after the last element. -/
def array (item : Reader Value) : Reader Value := do
  char '['
  let elements ← separated (gap *> item <* gap)
  if !elements.isEmpty then
    discard (optional (char ','))
  gap
  char ']'
  return .array elements

def pair (item : Reader Value) : Reader (Key × Value) := do
  let key ← key
  char '='
  blanks
  return (key, ← item)

def inlineTable (item : Reader Value) : Reader Value := do
  char '\x7b'
  let pairs ← separated (pair item <* blanks)
  blanks
  char '\x7d'
  let table ← pairs.foldlM (fun table (key, value) =>
    Table.addDotted key.parents key.name value table) []
  return .table .inline table

def boolean : Reader Bool :=
  (text "true" *> pure true) <|> (text "false" *> pure false)

def scalar : Reader Value :=
  .string <$> Quoted.anyString <|> .moment <$> Moment.moment <|> .float <$> Number.float <|>
    .integer <$> Number.integer <|> .boolean <$> boolean

def value : Nat → Reader Value
  | 0 => scalar
  | depth + 1 => scalar <|> array (value depth) <|> inlineTable (value depth)

inductive Line where
  | blank
  | table (key : Key)
  | tables (key : Key)
  | pair (key : Key) (value : Value)
  deriving Repr

def line : Reader Line :=
  (do
    comment
    lineEnd
    return .blank) <|>
  (newline *> pure .blank) <|>
  (do
    text "[["
    let key ← key
    text "]]"
    lineEnd
    return .tables key) <|>
  (do
    char '['
    let key ← key
    char ']'
    lineEnd
    return .table key) <|>
  (do
    let (key, value) ← pair (value (depthLimit - 1))
    lineEnd
    return .pair key value)

def lines : Reader (List Line) := do
  discard (optional (char '\ufeff'))
  blanks
  let lines ← many (line <* blanks)
  atEnd
  return lines

/-- A document read so far; `here` is the path of the last header. -/
structure Document where
  table : Table := []
  here : List String := []
  deriving Repr

namespace Document

def add (document : Document) : Line → Option Document
  | .blank => some document
  | .table key => do
      let table ← document.table.within key.parents (Table.openTable key.name)
      return ⟨table, key.parents ++ [key.name]⟩
  | .tables key => do
      let table ← document.table.within key.parents (Table.pushTable key.name)
      return ⟨table, key.parents ++ [key.name]⟩
  | .pair key value => do
      let table ← document.table.within document.here
        (Table.addDotted key.parents key.name value)
      return { document with table }

end Document

def parse? (text : String) : Option Table := do
  let (lines, _) ← lines text.toList
  let document ← lines.foldlM Document.add {}
  return document.table

end Shrinker.Toml

namespace Shrinker.Toml

abbrev Reader (α : Type) := StateT (List Char) Option α

namespace Reader

variable {α : Type}

def satisfy (admits : Char → Bool) : Reader Char
  | [] => none
  | char :: rest => if admits char then some (char, rest) else none

def char (expected : Char) : Reader Unit :=
  discard (satisfy (· == expected))

def text (expected : String) : Reader Unit := fun input =>
  if expected.toList.isPrefixOf input then some ((), input.drop expected.length) else none

def takeWhile (admits : Char → Bool) : Reader (List Char) := fun input =>
  some (input.takeWhile admits, input.dropWhile admits)

def atEnd : Reader Unit
  | [] => some ((), [])
  | _ :: _ => none

/-- Reads as often as the reader succeeds and takes something. -/
def repeated (reader : Reader α) (input : List Char) : List α × List Char :=
  match reader input with
  | none => ([], input)
  | some (value, rest) =>
      if rest.length < input.length then
        let (values, left) := repeated reader rest
        (value :: values, left)
      else
        ([], input)
termination_by input.length

def many (reader : Reader α) : Reader (List α) := fun input =>
  some (repeated reader input)

def taken (reader : Reader α) : Reader String := fun input =>
  (reader input).map fun (_, rest) =>
    (String.ofList (input.take (input.length - rest.length)), rest)

def isBlank (char : Char) : Bool :=
  char == ' ' || char == '\t'

def isPlain (char : Char) : Bool :=
  char == '\t' || (' ' ≤ char && char != '\x7f')

def blanks : Reader Unit :=
  discard (takeWhile isBlank)

def newline : Reader Unit :=
  text "\n" <|> text "\r\n"

def comment : Reader Unit := do
  char '#'
  discard (takeWhile isPlain)

def lineEnd : Reader Unit := do
  blanks
  discard (optional comment)
  newline <|> atEnd

/-- Blanks, newlines and comments, as they may stand between the elements of an array. -/
def gap : Reader Unit :=
  discard (many (discard (satisfy isBlank) <|> newline <|> comment))

end Reader

end Shrinker.Toml

import Shrinker.Toml.Digit
import Shrinker.Toml.Reader

namespace Shrinker.Toml.Quoted

open Reader

def codePoint (width : Nat) : Reader Char := fun input =>
  let digits := input.take width
  let number := Digit.number 16 digits
  if digits.length = width ∧ digits.all Digit.isHex ∧ number.isValidChar then
    some (.ofNat number, input.drop width)
  else
    none

def escaped : Reader Char := do
  match ← satisfy fun _ => true with
  | 'b' => return '\x08'
  | 't' => return '\t'
  | 'n' => return '\n'
  | 'f' => return '\x0c'
  | 'r' => return '\r'
  | '"' => return '"'
  | '\\' => return '\\'
  | 'u' => codePoint 4
  | 'U' => codePoint 8
  | _ => failure

/-- A backslash at the end of a line takes all blanks and newlines that follow. -/
def continuation : Reader Unit := do
  char '\\'
  blanks
  newline
  discard (many (discard (satisfy isBlank) <|> newline))

def plain (special : List Char) : Reader Char :=
  satisfy fun char => isPlain char && char ∉ special

def basicChar : Reader Char :=
  plain ['"', '\\'] <|> (char '\\' *> escaped)

def basic : Reader String := do
  char '"'
  let content ← many basicChar
  char '"'
  return .ofList content

def literal : Reader String := do
  char '\''
  let content ← takeWhile fun char => isPlain char && char != '\''
  char '\''
  return .ofList content

def innerQuotes (quote : Char) : Reader (List Char) := do
  let quotes ← takeWhile (· == quote)
  guard (1 ≤ quotes.length ∧ quotes.length ≤ 2)
  return quotes

/-- The closing triple quote, with up to two quotes of the content in front of it. -/
def closingQuotes (quote : Char) : Reader (List Char) := do
  let quotes ← takeWhile (· == quote)
  guard (3 ≤ quotes.length ∧ quotes.length ≤ 5)
  return quotes.drop 3

/-- A string between triple quotes. A newline right after the opening quotes does not count. -/
def multiLine (quote : Char) (piece : Reader (List Char)) : Reader String := do
  text (.ofList [quote, quote, quote])
  discard (optional newline)
  let pieces ← many (innerQuotes quote <|> (newline *> pure ['\n']) <|> piece)
  let quotes ← closingQuotes quote
  return .ofList (pieces.flatten ++ quotes)

def multiLineBasic : Reader String :=
  multiLine '"' ((continuation *> pure []) <|> List.singleton <$> basicChar)

def multiLineLiteral : Reader String :=
  multiLine '\'' (List.singleton <$> plain ['\''])

def anyString : Reader String :=
  multiLineBasic <|> basic <|> multiLineLiteral <|> literal

end Shrinker.Toml.Quoted

import Shrinker.Toml.Digit
import Shrinker.Toml.Reader

namespace Shrinker.Toml.Moment

open Reader

def field (width least greatest : Nat) : Reader Nat := fun input =>
  let digits := input.take width
  let number := Digit.number 10 digits
  if digits.length = width ∧ digits.all Char.isDigit ∧ least ≤ number ∧ number ≤ greatest then
    some (number, input.drop width)
  else
    none

def isLeap (year : Nat) : Bool :=
  year % 4 = 0 ∧ (year % 100 ≠ 0 ∨ year % 400 = 0)

def daysIn (year month : Nat) : Nat :=
  match month with
  | 2 => if isLeap year then 29 else 28
  | 4 | 6 | 9 | 11 => 30
  | _ => 31

def date : Reader Unit := do
  let year ← field 4 0 9999
  char '-'
  let month ← field 2 1 12
  char '-'
  discard (field 2 1 (daysIn year month))

/-- A second may be a leap second. -/
def time : Reader Unit := do
  discard (field 2 0 23)
  char ':'
  discard (field 2 0 59)
  char ':'
  discard (field 2 0 60)
  discard (optional do
    char '.'
    discard (satisfy Char.isDigit)
    takeWhile Char.isDigit)

def offset : Reader Unit :=
  discard (satisfy fun char => char == 'Z' || char == 'z') <|> do
    discard (satisfy fun char => char == '+' || char == '-')
    discard (field 2 0 23)
    char ':'
    discard (field 2 0 59)

def timeAfterDate : Reader Unit := do
  discard (satisfy fun char => char == 'T' || char == 't' || char == ' ')
  time
  discard (optional offset)

def moment : Reader String :=
  taken ((date *> discard (optional timeAfterDate)) <|> time)

end Shrinker.Toml.Moment

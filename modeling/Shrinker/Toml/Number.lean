import Shrinker.Toml.Digit
import Shrinker.Toml.Reader

namespace Shrinker.Toml.Number

open Reader

/-- Digits, with single underscores between them left out. -/
def digits (isDigit : Char → Bool) : Reader (List Char) := do
  let first ← satisfy isDigit
  let rest ← many (satisfy isDigit <|> (char '_' *> satisfy isDigit))
  return first :: rest

def negative : Reader Bool :=
  (char '-' *> pure true) <|> (char '+' *> pure false) <|> pure false

def decimalDigits : Reader (List Char) :=
  (List.singleton <$> satisfy (· == '0')) <|> digits Char.isDigit

def signed (negative : Bool) (magnitude : Nat) : Int :=
  if negative then -magnitude else magnitude

def radixInteger (mark : String) (base : Nat) (isDigit : Char → Bool) : Reader Int := do
  text mark
  return Digit.number base (← digits isDigit)

def decimalInteger : Reader Int := do
  let negative ← negative
  return signed negative (Digit.number 10 (← decimalDigits))

def integer : Reader Int := do
  let value ← radixInteger "0x" 16 Digit.isHex <|>
    radixInteger "0o" 8 Digit.isOctal <|>
    radixInteger "0b" 2 Digit.isBinary <|>
    decimalInteger
  guard (Int64.minValue.toInt ≤ value ∧ value ≤ Int64.maxValue.toInt)
  return value

structure Decimal where
  negative : Bool
  digits : List Char
  exponent : Int
  deriving DecidableEq, Repr

namespace Decimal

/-- The least magnitude whose nearest float of 64 bits is infinite. It has 309 digits. -/
def infinityBound : Nat :=
  1 <<< 1024 - 1 <<< 970

/-- Whether the nearest float of 64 bits is positive infinity. Numbers with more or fewer digits in front
of the point than the bound has are told by that alone, so that no large power is computed. -/
def roundsToInfinity (decimal : Decimal) : Bool :=
  let significant := decimal.digits.dropWhile (· == '0')
  let magnitude := Digit.number 10 significant
  let size := significant.length + decimal.exponent
  if decimal.negative ∨ magnitude = 0 ∨ size < 309 then
    false
  else if 309 < size then
    true
  else
    infinityBound * Nat.pow 10 (-decimal.exponent).toNat ≤
      magnitude * Nat.pow 10 decimal.exponent.toNat

end Decimal

def exponent : Reader Int := do
  discard (satisfy fun char => char == 'e' || char == 'E')
  let negative ← negative
  return signed negative (Digit.number 10 (← digits Char.isDigit))

def fraction : Reader (List Char) :=
  char '.' *> digits Char.isDigit

def decimal : Reader Decimal := do
  let negative ← negative
  let whole ← decimalDigits
  (do return ⟨negative, whole, ← exponent⟩) <|> do
    let fraction ← fraction
    let exponent ← optional exponent
    return ⟨negative, whole ++ fraction, exponent.getD 0 - fraction.length⟩

def finite : Reader Unit := do
  guard !(← decimal).roundsToInfinity

def special : Reader Unit := do
  discard negative
  text "inf" <|> text "nan"

def float : Reader String :=
  taken (finite <|> special)

end Shrinker.Toml.Number

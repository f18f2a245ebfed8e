namespace Shrinker.Toml.Digit

def isHex (char : Char) : Bool :=
  char.isDigit || ('a' ≤ char && char ≤ 'f') || ('A' ≤ char && char ≤ 'F')

def isOctal (char : Char) : Bool :=
  '0' ≤ char && char ≤ '7'

def isBinary (char : Char) : Bool :=
  char == '0' || char == '1'

def value (char : Char) : Nat :=
  if char.isDigit then char.toNat - '0'.toNat
  else if char ≤ 'F' then char.toNat - 'A'.toNat + 10
  else char.toNat - 'a'.toNat + 10

def number (base : Nat) (digits : List Char) : Nat :=
  digits.foldl (fun number digit => base * number + value digit) 0

end Shrinker.Toml.Digit

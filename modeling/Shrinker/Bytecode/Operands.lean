import Shrinker.Bytecode.Opcode
import Shrinker.Bytecode.Word

namespace Shrinker.Bytecode

inductive OperandError where
  | outOfRange (operand : String) (value least greatest : Int)
  | formatMismatch (opcode : Opcode) (actual : Format)
  | tooManyRegisters (count : Nat)
  deriving DecidableEq, Repr

namespace OperandError

def message : OperandError → String
  | outOfRange operand value least greatest =>
      s!"Operand {operand} = {value} out of range [{least}, {greatest}]"
  | formatMismatch opcode actual =>
      s!"Opcode {opcode.name} requires format {opcode.format.name}, got {actual.name}"
  | tooManyRegisters count => s!"Invoke takes at most 5 registers, got {count}"

end OperandError

/-- Operand values before their ranges are checked. Registers come first, then the literal, offset or
index, except that an invoke names its method first. -/
inductive RawOperands where
  | f10x
  | f10t (offset : Int)
  | f11n (register literal : Int)
  | f11x (register : Int)
  | f12x (first second : Int)
  | f20t (offset : Int)
  | f21c (register index : Int)
  | f21s (register literal : Int)
  | f21t (register offset : Int)
  | f22b (first second literal : Int)
  | f22c (first second index : Int)
  | f22s (first second literal : Int)
  | f22t (first second offset : Int)
  | f23x (first second third : Int)
  | f35c (index : Int) (registers : List Int)
  | f3rc (count index first : Int)
  deriving DecidableEq, Repr

def RawOperands.ofNumbers? : Format → List Int → Option RawOperands
  | .f10x, [] => some .f10x
  | .f10t, [offset] => some (.f10t offset)
  | .f11n, [register, literal] => some (.f11n register literal)
  | .f11x, [register] => some (.f11x register)
  | .f12x, [first, second] => some (.f12x first second)
  | .f20t, [offset] => some (.f20t offset)
  | .f21c, [register, index] => some (.f21c register index)
  | .f21s, [register, literal] => some (.f21s register literal)
  | .f21t, [register, offset] => some (.f21t register offset)
  | .f22b, [first, second, literal] => some (.f22b first second literal)
  | .f22c, [first, second, index] => some (.f22c first second index)
  | .f22s, [first, second, literal] => some (.f22s first second literal)
  | .f22t, [first, second, offset] => some (.f22t first second offset)
  | .f23x, [first, second, third] => some (.f23x first second third)
  | .f35c, index :: registers => some (.f35c index registers)
  | .f3rc, [count, index, first] => some (.f3rc count index first)
  | _, _ => none

/-- Operand values at the width of their format. In `f35c` the five registers stand for the arguments
in order, `count` of them in use. -/
inductive Operands where
  | f10x
  | f10t (offset : Int8)
  | f11n (register literal : Nibble)
  | f11x (register : UInt8)
  | f12x (first second : Nibble)
  | f20t (offset : Int16)
  | f21c (register : UInt8) (index : UInt16)
  | f21s (register : UInt8) (literal : Int16)
  | f21t (register : UInt8) (offset : Int16)
  | f22b (first second : UInt8) (literal : Int8)
  | f22c (first second : Nibble) (index : UInt16)
  | f22s (first second : Nibble) (literal : Int16)
  | f22t (first second : Nibble) (offset : Int16)
  | f23x (first second third : UInt8)
  | f35c (count c d e f g : Nibble) (index : UInt16)
  | f3rc (count : UInt8) (first index : UInt16)
  deriving DecidableEq, Repr

namespace Operands

def format : Operands → Format
  | f10x => .f10x
  | f10t .. => .f10t
  | f11n .. => .f11n
  | f11x .. => .f11x
  | f12x .. => .f12x
  | f20t .. => .f20t
  | f21c .. => .f21c
  | f21s .. => .f21s
  | f21t .. => .f21t
  | f22b .. => .f22b
  | f22c .. => .f22c
  | f22s .. => .f22s
  | f22t .. => .f22t
  | f23x .. => .f23x
  | f35c .. => .f35c
  | f3rc .. => .f3rc

def fields : Operands → List Int
  | f10x => []
  | f10t offset => [offset.toInt]
  | f11n register literal => [register.toNat, literal.toInt]
  | f11x register => [register.toNat]
  | f12x first second => [first.toNat, second.toNat]
  | f20t offset => [offset.toInt]
  | f21c register index => [register.toNat, index.toNat]
  | f21s register literal => [register.toNat, literal.toInt]
  | f21t register offset => [register.toNat, offset.toInt]
  | f22b first second literal => [first.toNat, second.toNat, literal.toInt]
  | f22c first second index => [first.toNat, second.toNat, index.toNat]
  | f22s first second literal => [first.toNat, second.toNat, literal.toInt]
  | f22t first second offset => [first.toNat, second.toNat, offset.toInt]
  | f23x first second third => [first.toNat, second.toNat, third.toNat]
  | f35c count c d e f g index =>
      [count.toNat, c.toNat, d.toNat, e.toNat, f.toNat, g.toNat, index.toNat]
  | f3rc count first index => [count.toNat, first.toNat, index.toNat]

def arguments : Operands → List Nibble
  | f35c count c d e f g _ => [c, d, e, f, g].take count.toNat
  | _ => []

def raw : Operands → RawOperands
  | f10x => .f10x
  | f10t offset => .f10t offset.toInt
  | f11n register literal => .f11n register.toNat literal.toInt
  | f11x register => .f11x register.toNat
  | f12x first second => .f12x first.toNat second.toNat
  | f20t offset => .f20t offset.toInt
  | f21c register index => .f21c register.toNat index.toNat
  | f21s register literal => .f21s register.toNat literal.toInt
  | f21t register offset => .f21t register.toNat offset.toInt
  | f22b first second literal => .f22b first.toNat second.toNat literal.toInt
  | f22c first second index => .f22c first.toNat second.toNat index.toNat
  | f22s first second literal => .f22s first.toNat second.toNat literal.toInt
  | f22t first second offset => .f22t first.toNat second.toNat offset.toInt
  | f23x first second third => .f23x first.toNat second.toNat third.toNat
  | f35c count c d e f g index =>
      .f35c index.toNat (([c, d, e, f, g].take count.toNat).map fun register => register.toNat)
  | f3rc count first index => .f3rc count.toNat index.toNat first.toNat

def poolIndex? : Operands → Option UInt16
  | f21c _ index | f22c _ _ index | f35c _ _ _ _ _ _ index | f3rc _ _ index => some index
  | _ => none

/-- The operand bits laid side by side in one number. A negative literal of `f11n` covers its register
with sign bits; in the three-unit formats the index is mixed in by exclusive or. -/
def packed : Operands → Int
  | f10x => 0
  | f10t offset => offset.toInt
  | f11n register literal =>
      if literal.toInt < 0 then literal.toInt else register.toNat * 16 + literal.toInt
  | f11x register => register.toNat
  | f12x first second => first.toNat * 16 + second.toNat
  | f20t offset => offset.toInt
  | f21c register index => register.toNat * 65536 + index.toNat
  | f21s register literal => register.toNat * 65536 + literal.toUInt16.toNat
  | f21t register offset => register.toNat * 65536 + offset.toUInt16.toNat
  | f22b first second literal =>
      first.toNat * 65536 + second.toNat * 256 + literal.toUInt8.toNat
  | f22c first second index => first.toNat * 1048576 + second.toNat * 65536 + index.toNat
  | f22s first second literal =>
      first.toNat * 1048576 + second.toNat * 65536 + literal.toUInt16.toNat
  | f22t first second offset =>
      first.toNat * 1048576 + second.toNat * 65536 + offset.toUInt16.toNat
  | f23x first second third => first.toNat * 65536 + second.toNat * 256 + third.toNat
  | f35c count c d e f g index =>
      let registers := count.toNat * 1048576 + c.toNat * 65536 + d.toNat * 4096 + e.toNat * 256 +
        f.toNat * 16 + g.toNat
      (registers ^^^ (index.toNat * 256) : Nat)
  | f3rc count first index =>
      ((count.toNat * 65536 + first.toNat) ^^^ (index.toNat * 256) : Nat)

def hash (operands : Operands) : Int32 :=
  Int32.ofInt operands.packed ^^^ operands.format.discriminant

def key (operands : Operands) : List Int :=
  operands.format.ordinal :: operands.fields

instance : Ord Operands :=
  ⟨fun left right => compare left.key right.key⟩

end Operands

namespace RawOperands

def format : RawOperands → Format
  | f10x => .f10x
  | f10t .. => .f10t
  | f11n .. => .f11n
  | f11x .. => .f11x
  | f12x .. => .f12x
  | f20t .. => .f20t
  | f21c .. => .f21c
  | f21s .. => .f21s
  | f21t .. => .f21t
  | f22b .. => .f22b
  | f22c .. => .f22c
  | f22s .. => .f22s
  | f22t .. => .f22t
  | f23x .. => .f23x
  | f35c .. => .f35c
  | f3rc .. => .f3rc

def inRange (operand : String) (least greatest value : Int) : Except OperandError Int :=
  if value < least ∨ greatest < value then
    .error (.outOfRange operand value least greatest)
  else
    .ok value

def nibble (operand : String) (value : Int) : Except OperandError Nibble :=
  (inRange operand 0 15 value).map (.ofInt 4)

def signedNibble (operand : String) (value : Int) : Except OperandError Nibble :=
  (inRange operand (-8) 7 value).map (.ofInt 4)

def byte (operand : String) (value : Int) : Except OperandError UInt8 :=
  (inRange operand 0 255 value).map fun v => .ofNat v.toNat

def signedByte (operand : String) (value : Int) : Except OperandError Int8 :=
  (inRange operand (-128) 127 value).map .ofInt

def word (operand : String) (value : Int) : Except OperandError UInt16 :=
  (inRange operand 0 65535 value).map fun v => .ofNat v.toNat

def signedWord (operand : String) (value : Int) : Except OperandError Int16 :=
  (inRange operand (-32768) 32767 value).map .ofInt

def registerNames : List String :=
  ["C", "D", "E", "F", "G"]

def argumentRegisters (registers : List Int) : Except OperandError (List Nibble) :=
  (registerNames.zip registers).mapM fun (operand, register) => nibble operand register

/-- Narrows each value to the width of its field. The first value out of range, in the order in which
the operands are written, is the one reported. The last register of a range has to exist too. -/
def check : RawOperands → Except OperandError Operands
  | f10x => pure .f10x
  | f10t offset => return .f10t (← signedByte "A" offset)
  | f11n register literal => return .f11n (← nibble "A" register) (← signedNibble "B" literal)
  | f11x register => return .f11x (← byte "A" register)
  | f12x first second => return .f12x (← nibble "A" first) (← nibble "B" second)
  | f20t offset => return .f20t (← signedWord "A" offset)
  | f21c register index => return .f21c (← byte "A" register) (← word "B" index)
  | f21s register literal => return .f21s (← byte "A" register) (← signedWord "B" literal)
  | f21t register offset => return .f21t (← byte "A" register) (← signedWord "B" offset)
  | f22b first second literal =>
      return .f22b (← byte "A" first) (← byte "B" second) (← signedByte "C" literal)
  | f22c first second index =>
      return .f22c (← nibble "A" first) (← nibble "B" second) (← word "C" index)
  | f22s first second literal =>
      return .f22s (← nibble "A" first) (← nibble "B" second) (← signedWord "C" literal)
  | f22t first second offset =>
      return .f22t (← nibble "A" first) (← nibble "B" second) (← signedWord "C" offset)
  | f23x first second third =>
      return .f23x (← byte "A" first) (← byte "B" second) (← byte "C" third)
  | f35c index registers => do
      if registers.length > 5 then
        throw (.tooManyRegisters registers.length)
      let used ← argumentRegisters registers
      let slot (i : Nat) := used.getD i 0
      return .f35c (.ofNat 4 registers.length) (slot 0) (slot 1) (slot 2) (slot 3) (slot 4)
        (← word "B" index)
  | f3rc count index first => do
      let narrowCount ← byte "A" count
      let narrowFirst ← word "C" first
      let _ ← inRange "C" 0 65536 (first + count)
      return .f3rc narrowCount narrowFirst (← word "B" index)

end RawOperands

end Shrinker.Bytecode

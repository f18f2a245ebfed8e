import Shrinker.Bytecode.Operands

namespace Shrinker.Bytecode

inductive DecodeError where
  | unexpectedEnd (position : Nat)
  | invalidOpcode (byte : UInt8) (position : Nat)
  | oddLength (bytes : Nat)
  deriving DecidableEq, Repr

namespace DecodeError

def hexByte (byte : UInt8) : String :=
  String.ofList ((Nat.toDigits 16 byte.toNat).leftpad 2 '0')

def message : DecodeError → String
  | unexpectedEnd position => s!"Unexpected end of code at unit {position}"
  | invalidOpcode byte position => s!"Invalid opcode 0x{hexByte byte} at unit {position}"
  | oddLength bytes => s!"Code byte length {bytes} is not a multiple of two"

/-- Where the cursor stands after the failure: at the end that it ran into, or past the unit whose opcode
it did not know. -/
def resume : DecodeError → Nat
  | unexpectedEnd position => position
  | invalidOpcode _ position => position + 1
  | oddLength _ => 0

def shift (offset : Nat) : DecodeError → DecodeError
  | unexpectedEnd position => unexpectedEnd (offset + position)
  | invalidOpcode byte position => invalidOpcode byte (offset + position)
  | oddLength bytes => oddLength bytes

end DecodeError

def CodeUnit.ofByteStream (bytes : List UInt8) : Except DecodeError (List CodeUnit) :=
  match ofByteStream? bytes with
  | some units => .ok units
  | none => .error (.oddLength bytes.length)

/-- A place in the code: the units still to be read and the number of those before them. -/
structure Cursor where
  rest : List CodeUnit
  position : Nat
  deriving DecidableEq, Repr

namespace Cursor

def start (units : List CodeUnit) : Cursor :=
  ⟨units, 0⟩

def hasMore (cursor : Cursor) : Bool :=
  !cursor.rest.isEmpty

def next (cursor : Cursor) : Except DecodeError (CodeUnit × Cursor) :=
  match cursor.rest with
  | [] => .error (.unexpectedEnd cursor.position)
  | unit :: rest => .ok (unit, ⟨rest, cursor.position + 1⟩)

def nextSigned (cursor : Cursor) : Except DecodeError (Int16 × Cursor) :=
  cursor.next.map fun (unit, after) => (unit.toInt16, after)

def nextBytes (cursor : Cursor) : Except DecodeError ((UInt8 × UInt8) × Cursor) :=
  cursor.next.map fun (unit, after) => ((CodeUnit.high unit, CodeUnit.low unit), after)

def recover (cursor : Cursor) (error : DecodeError) : Cursor :=
  ⟨cursor.rest.drop (error.resume - cursor.position), error.resume⟩

theorem rest_next {cursor after : Cursor} {unit : CodeUnit}
    (read : cursor.next = .ok (unit, after)) : cursor.rest = unit :: after.rest := by
  cases cursor with
  | mk rest position =>
      cases rest with
      | nil => cases read
      | cons head tail => cases read; rfl

end Cursor

namespace Operands

/-- Reads operands. `high` is the upper byte of the opcode's unit. Registers past the argument count of
`f35c` are read as zero. -/
def decode (format : Format) (high : UInt8) (cursor : Cursor) :
    Except DecodeError (Operands × Cursor) :=
  match format with
  | .f10x => .ok (f10x, cursor)
  | .f10t => .ok (f10t high.toInt8, cursor)
  | .f11n => .ok (f11n (Nibble.lowOf high) (Nibble.highOf high), cursor)
  | .f11x => .ok (f11x high, cursor)
  | .f12x => .ok (f12x (Nibble.lowOf high) (Nibble.highOf high), cursor)
  | .f20t => do
      let (offset, cursor) ← cursor.nextSigned
      return (f20t offset, cursor)
  | .f21c => do
      let (index, cursor) ← cursor.next
      return (f21c high index, cursor)
  | .f21s => do
      let (literal, cursor) ← cursor.nextSigned
      return (f21s high literal, cursor)
  | .f21t => do
      let (offset, cursor) ← cursor.nextSigned
      return (f21t high offset, cursor)
  | .f22b => do
      let ((literal, second), cursor) ← cursor.nextBytes
      return (f22b high second literal.toInt8, cursor)
  | .f22c => do
      let (index, cursor) ← cursor.next
      return (f22c (Nibble.lowOf high) (Nibble.highOf high) index, cursor)
  | .f22s => do
      let (literal, cursor) ← cursor.nextSigned
      return (f22s (Nibble.lowOf high) (Nibble.highOf high) literal, cursor)
  | .f22t => do
      let (offset, cursor) ← cursor.nextSigned
      return (f22t (Nibble.lowOf high) (Nibble.highOf high) offset, cursor)
  | .f23x => do
      let ((third, second), cursor) ← cursor.nextBytes
      return (f23x high second third, cursor)
  | .f35c => do
      let (index, cursor) ← cursor.next
      let ((upper, lower), cursor) ← cursor.nextBytes
      let count := Nibble.highOf high
      let used (place : Nat) (register : Nibble) : Nibble :=
        if place < count.toNat then register else 0
      return (f35c count (used 0 (Nibble.lowOf lower)) (used 1 (Nibble.highOf lower))
        (used 2 (Nibble.lowOf upper)) (used 3 (Nibble.highOf upper))
        (used 4 (Nibble.lowOf high)) index, cursor)
  | .f3rc => do
      let (index, cursor) ← cursor.next
      let (first, cursor) ← cursor.next
      return (f3rc high first index, cursor)

def highByte : Operands → UInt8
  | f10x | f20t _ => 0
  | f10t offset => offset.toUInt8
  | f11n register literal => Nibble.pair literal register
  | f12x first second | f22c first second _ | f22s first second _ | f22t first second _ =>
      Nibble.pair second first
  | f11x register | f21c register _ | f21s register _ | f21t register _ => register
  | f22b first _ _ | f23x first _ _ => first
  | f35c count _ _ _ _ g _ => Nibble.pair count g
  | f3rc count _ _ => count

def tailUnits : Operands → List CodeUnit
  | f10x | f10t _ | f11n _ _ | f11x _ | f12x _ _ => []
  | f20t offset | f21t _ offset | f22t _ _ offset => [offset.toUInt16]
  | f21c _ index | f22c _ _ index => [index]
  | f21s _ literal | f22s _ _ literal => [literal.toUInt16]
  | f22b _ second literal => [CodeUnit.ofBytes literal.toUInt8 second]
  | f23x _ second third => [CodeUnit.ofBytes third second]
  | f35c _ c d e f _ index => [index, CodeUnit.ofBytes (Nibble.pair f e) (Nibble.pair d c)]
  | f3rc _ first index => [index, first]

theorem length_tailUnits (operands : Operands) :
    operands.tailUnits.length + 1 = operands.format.size := by
  cases operands <;> rfl

theorem format_decode {format : Format} {high : UInt8} {cursor after : Cursor}
    {operands : Operands} (read : decode format high cursor = .ok (operands, after)) :
    operands.format = format := by
  cases cursor with
  | mk rest position =>
      cases format <;> rcases rest with _ | ⟨_, _ | ⟨_, _⟩⟩ <;> cases read <;> rfl

theorem length_rest_decode {format : Format} {high : UInt8} {cursor after : Cursor}
    {operands : Operands} (read : decode format high cursor = .ok (operands, after)) :
    after.rest.length + format.size = cursor.rest.length + 1 := by
  cases cursor with
  | mk rest position =>
      cases format <;> rcases rest with _ | ⟨_, _ | ⟨_, _⟩⟩ <;> cases read <;> rfl

end Operands

end Shrinker.Bytecode

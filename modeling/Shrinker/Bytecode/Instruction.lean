import Shrinker.Bytecode.Codec

namespace Shrinker.Bytecode

structure Instruction where
  opcode : Opcode
  operands : Operands
  fits : operands.format = opcode.format
  deriving DecidableEq, Repr

namespace Instruction

def make (opcode : Opcode) (operands : Operands) : Except OperandError Instruction :=
  if fits : operands.format = opcode.format then
    .ok ⟨opcode, operands, fits⟩
  else
    .error (.formatMismatch opcode operands.format)

def ofRaw (opcode : Opcode) (raw : RawOperands) : Except OperandError Instruction := do
  make opcode (← raw.check)

def withOpcode (instruction : Instruction) (opcode : Opcode) : Except OperandError Instruction :=
  make opcode instruction.operands

def size (instruction : Instruction) : Nat :=
  instruction.opcode.format.size

def poolIndex? (instruction : Instruction) : Option UInt16 :=
  instruction.operands.poolIndex?

def reference? (instruction : Instruction) : Option (ReferenceKind × UInt16) := do
  let kind ← instruction.opcode.referenceKind?
  let index ← instruction.poolIndex?
  return (kind, index)

def encode (instruction : Instruction) : List CodeUnit :=
  CodeUnit.ofBytes instruction.operands.highByte instruction.opcode.byte ::
    instruction.operands.tailUnits

def decode (cursor : Cursor) : Except DecodeError (Instruction × Cursor) :=
  match cursor.next with
  | .error error => .error error
  | .ok (unit, operandCursor) =>
      match Opcode.ofByte? (CodeUnit.low unit) with
      | none => .error (.invalidOpcode (CodeUnit.low unit) cursor.position)
      | some opcode =>
          match read : Operands.decode opcode.format (CodeUnit.high unit) operandCursor with
          | .error error => .error error
          | .ok (operands, after) => .ok (⟨opcode, operands, Operands.format_decode read⟩, after)

theorem length_encode (instruction : Instruction) :
    instruction.encode.length = instruction.size := by
  simp only [encode, List.length_cons, size, ← instruction.fits]
  exact Operands.length_tailUnits instruction.operands

theorem length_rest_decode {cursor after : Cursor} {instruction : Instruction}
    (read : decode cursor = .ok (instruction, after)) :
    after.rest.length + instruction.size = cursor.rest.length := by
  unfold decode at read
  split at read
  · cases read
  · rename_i unit operandCursor first
    split at read
    · cases read
    · rename_i opcode known
      split at read
      · cases read
      · rename_i operands rest tail
        cases read
        have used := Operands.length_rest_decode tail
        have split := congrArg List.length (Cursor.rest_next first)
        simp only [List.length_cons] at split
        simp only [size]
        omega

theorem decode_shorter {cursor after : Cursor} {instruction : Instruction}
    (read : decode cursor = .ok (instruction, after)) :
    after.rest.length < cursor.rest.length := by
  have used := length_rest_decode read
  have positive := Format.size_pos instruction.opcode.format
  simp only [size] at used
  omega

def encodeAll (instructions : List Instruction) : List CodeUnit :=
  instructions.flatMap encode

def decodeFrom (cursor : Cursor) : Except DecodeError (List Instruction) :=
  if cursor.rest = [] then
    .ok []
  else
    match _read : decode cursor with
    | .error error => .error error
    | .ok (instruction, after) =>
        match decodeFrom after with
        | .error error => .error error
        | .ok instructions => .ok (instruction :: instructions)
termination_by cursor.rest.length
decreasing_by exact decode_shorter _read

def decodeAll (units : List CodeUnit) : Except DecodeError (List Instruction) :=
  decodeFrom (.start units)

/-- Each instruction read from the units with the place after it, up to the end or the first failure. -/
def decodeSteps (cursor : Cursor) : List (Except DecodeError (Instruction × Cursor)) :=
  if cursor.rest = [] then
    []
  else
    match _read : decode cursor with
    | .error error => [.error error]
    | .ok (instruction, after) => .ok (instruction, after) :: decodeSteps after
termination_by cursor.rest.length
decreasing_by exact decode_shorter _read

def key (instruction : Instruction) : List Int :=
  instruction.opcode.byte.toNat :: instruction.operands.key

instance : Ord Instruction :=
  ⟨fun left right => compare left.key right.key⟩

instance : LE Instruction :=
  leOfOrd

def sort (instructions : List Instruction) : List Instruction :=
  instructions.mergeSort fun left right => (compare left right).isLE

/-- What a hash table sees of an instruction. -/
def hashKey (instruction : Instruction) : Opcode × Int32 :=
  (instruction.opcode, instruction.operands.hash)

end Instruction

end Shrinker.Bytecode

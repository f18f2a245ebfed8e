namespace Shrinker.Bytecode

/-- Operand layouts. The name gives the number of code units, the number of registers and a letter for
what follows them: an index (`c`), a literal (`n`, `b`, `s`), a branch offset (`t`) or nothing (`x`). -/
inductive Format where
  | f10x | f10t | f11n | f11x | f12x
  | f20t | f21c | f21s | f21t | f22b | f22c | f22s | f22t | f23x
  | f35c | f3rc
  deriving DecidableEq, Repr

namespace Format

def all : List Format :=
  [.f10x, .f10t, .f11n, .f11x, .f12x, .f20t, .f21c, .f21s, .f21t, .f22b, .f22c, .f22s, .f22t,
    .f23x, .f35c, .f3rc]

def ordinal : Format → Nat
  | f10x => 0 | f10t => 1 | f11n => 2 | f11x => 3 | f12x => 4
  | f20t => 5 | f21c => 6 | f21s => 7 | f21t => 8 | f22b => 9
  | f22c => 10 | f22s => 11 | f22t => 12 | f23x => 13
  | f35c => 14 | f3rc => 15

def size : Format → Nat
  | f10x | f10t | f11n | f11x | f12x => 1
  | f20t | f21c | f21s | f21t | f22b | f22c | f22s | f22t | f23x => 2
  | f35c | f3rc => 3

def name : Format → String
  | f10x => "10x" | f10t => "10t" | f11n => "11n" | f11x => "11x" | f12x => "12x"
  | f20t => "20t" | f21c => "21c" | f21s => "21s" | f21t => "21t" | f22b => "22b"
  | f22c => "22c" | f22s => "22s" | f22t => "22t" | f23x => "23x"
  | f35c => "35c" | f3rc => "3rc"

def ofName? (text : String) : Option Format :=
  all.find? (·.name == text)

/-- A word that differs between formats, so that equal operands of different formats hash apart. -/
def discriminant (format : Format) : Int32 :=
  Int32.ofNat (format.ordinal + 1) * 0x2F0B3C4D

theorem mem_all (format : Format) : format ∈ all := by
  cases format <;> decide

theorem size_pos (format : Format) : 0 < format.size := by
  cases format <;> decide

theorem getElem?_all_ordinal (format : Format) : all[format.ordinal]? = some format := by
  cases format <;> rfl

theorem ordinal_injective {left right : Format} (same : left.ordinal = right.ordinal) :
    left = right :=
  Option.some.inj
    ((getElem?_all_ordinal left).symm.trans (same ▸ getElem?_all_ordinal right))

end Format

inductive ReferenceKind where
  | string | type | field | method
  deriving DecidableEq, Repr

def ReferenceKind.name : ReferenceKind → String
  | string => "string"
  | type => "type"
  | field => "field"
  | method => "method"

inductive InvokeKind where
  | virtual | super | direct | static | interface
  deriving DecidableEq, Repr

namespace InvokeKind

def all : List InvokeKind :=
  [.virtual, .super, .direct, .static, .interface]

def name : InvokeKind → String
  | virtual => "virtual"
  | super => "super"
  | direct => "direct"
  | static => "static"
  | interface => "interface"

def ofName? (text : String) : Option InvokeKind :=
  all.find? (·.name == text)

end InvokeKind

inductive Opcode where
  | nop | move | moveResult | returnVoid | ret | const4 | const16 | constString | constClass
  | newInstance | raise | jump | jump16 | ifEq | ifNe | ifLt | ifGe | ifGt | ifLe | ifEqz | ifNez
  | ifLtz | ifGez | ifGtz | ifLez | aget | aput | aputBoolean | iget | igetBoolean | iput
  | iputBoolean | sget | sgetBoolean | sput | sputBoolean | invokeVirtual | invokeSuper
  | invokeDirect | invokeStatic | invokeInterface | invokeVirtualRange | invokeSuperRange
  | invokeDirectRange | invokeStaticRange | invokeInterfaceRange | addInt | subInt | mulInt
  | divInt | andInt | orInt | xorInt | addIntLit16 | rsubInt | mulIntLit16 | addIntLit8
  | rsubIntLit8 | mulIntLit8 | divIntLit8 | remIntLit8 | andIntLit8 | orIntLit8 | xorIntLit8
  | shlIntLit8 | shrIntLit8 | ushrIntLit8
  deriving DecidableEq, Repr

namespace Opcode

def all : List Opcode :=
  [.nop, .move, .moveResult, .returnVoid, .ret, .const4, .const16, .constString, .constClass,
    .newInstance, .raise, .jump, .jump16, .ifEq, .ifNe, .ifLt, .ifGe, .ifGt, .ifLe, .ifEqz,
    .ifNez, .ifLtz, .ifGez, .ifGtz, .ifLez, .aget, .aput, .aputBoolean, .iget, .igetBoolean,
    .iput, .iputBoolean, .sget, .sgetBoolean, .sput, .sputBoolean, .invokeVirtual, .invokeSuper,
    .invokeDirect, .invokeStatic, .invokeInterface, .invokeVirtualRange, .invokeSuperRange,
    .invokeDirectRange, .invokeStaticRange, .invokeInterfaceRange, .addInt, .subInt, .mulInt,
    .divInt, .andInt, .orInt, .xorInt, .addIntLit16, .rsubInt, .mulIntLit16, .addIntLit8,
    .rsubIntLit8, .mulIntLit8, .divIntLit8, .remIntLit8, .andIntLit8, .orIntLit8, .xorIntLit8,
    .shlIntLit8, .shrIntLit8, .ushrIntLit8]

def byte : Opcode → UInt8
  | nop => 0x00 | move => 0x01 | moveResult => 0x0A | returnVoid => 0x0E | ret => 0x0F
  | const4 => 0x12 | const16 => 0x13 | constString => 0x1A | constClass => 0x1C
  | newInstance => 0x22 | raise => 0x27 | jump => 0x28 | jump16 => 0x29 | ifEq => 0x32
  | ifNe => 0x33 | ifLt => 0x34 | ifGe => 0x35 | ifGt => 0x36 | ifLe => 0x37 | ifEqz => 0x38
  | ifNez => 0x39 | ifLtz => 0x3A | ifGez => 0x3B | ifGtz => 0x3C | ifLez => 0x3D | aget => 0x44
  | aput => 0x4B | aputBoolean => 0x4E | iget => 0x52 | igetBoolean => 0x55 | iput => 0x59
  | iputBoolean => 0x5C | sget => 0x60 | sgetBoolean => 0x63 | sput => 0x67 | sputBoolean => 0x6A
  | invokeVirtual => 0x6E | invokeSuper => 0x6F | invokeDirect => 0x70 | invokeStatic => 0x71
  | invokeInterface => 0x72 | invokeVirtualRange => 0x74 | invokeSuperRange => 0x75
  | invokeDirectRange => 0x76 | invokeStaticRange => 0x77 | invokeInterfaceRange => 0x78
  | addInt => 0x90 | subInt => 0x91 | mulInt => 0x92 | divInt => 0x93 | andInt => 0x95
  | orInt => 0x96 | xorInt => 0x97 | addIntLit16 => 0xD0 | rsubInt => 0xD1 | mulIntLit16 => 0xD2
  | addIntLit8 => 0xD8 | rsubIntLit8 => 0xD9 | mulIntLit8 => 0xDA | divIntLit8 => 0xDB
  | remIntLit8 => 0xDC | andIntLit8 => 0xDD | orIntLit8 => 0xDE | xorIntLit8 => 0xDF
  | shlIntLit8 => 0xE0 | shrIntLit8 => 0xE1 | ushrIntLit8 => 0xE2

def name : Opcode → String
  | nop => "nop"
  | move => "move"
  | moveResult => "move-result"
  | returnVoid => "return-void"
  | ret => "return"
  | const4 => "const/4"
  | const16 => "const/16"
  | constString => "const-string"
  | constClass => "const-class"
  | newInstance => "new-instance"
  | raise => "throw"
  | jump => "goto"
  | jump16 => "goto/16"
  | ifEq => "if-eq"
  | ifNe => "if-ne"
  | ifLt => "if-lt"
  | ifGe => "if-ge"
  | ifGt => "if-gt"
  | ifLe => "if-le"
  | ifEqz => "if-eqz"
  | ifNez => "if-nez"
  | ifLtz => "if-ltz"
  | ifGez => "if-gez"
  | ifGtz => "if-gtz"
  | ifLez => "if-lez"
  | aget => "aget"
  | aput => "aput"
  | aputBoolean => "aput-boolean"
  | iget => "iget"
  | igetBoolean => "iget-boolean"
  | iput => "iput"
  | iputBoolean => "iput-boolean"
  | sget => "sget"
  | sgetBoolean => "sget-boolean"
  | sput => "sput"
  | sputBoolean => "sput-boolean"
  | invokeVirtual => "invoke-virtual"
  | invokeSuper => "invoke-super"
  | invokeDirect => "invoke-direct"
  | invokeStatic => "invoke-static"
  | invokeInterface => "invoke-interface"
  | invokeVirtualRange => "invoke-virtual/range"
  | invokeSuperRange => "invoke-super/range"
  | invokeDirectRange => "invoke-direct/range"
  | invokeStaticRange => "invoke-static/range"
  | invokeInterfaceRange => "invoke-interface/range"
  | addInt => "add-int"
  | subInt => "sub-int"
  | mulInt => "mul-int"
  | divInt => "div-int"
  | andInt => "and-int"
  | orInt => "or-int"
  | xorInt => "xor-int"
  | addIntLit16 => "add-int/lit16"
  | rsubInt => "rsub-int"
  | mulIntLit16 => "mul-int/lit16"
  | addIntLit8 => "add-int/lit8"
  | rsubIntLit8 => "rsub-int/lit8"
  | mulIntLit8 => "mul-int/lit8"
  | divIntLit8 => "div-int/lit8"
  | remIntLit8 => "rem-int/lit8"
  | andIntLit8 => "and-int/lit8"
  | orIntLit8 => "or-int/lit8"
  | xorIntLit8 => "xor-int/lit8"
  | shlIntLit8 => "shl-int/lit8"
  | shrIntLit8 => "shr-int/lit8"
  | ushrIntLit8 => "ushr-int/lit8"

def format : Opcode → Format
  | nop | returnVoid => .f10x
  | jump => .f10t
  | const4 => .f11n
  | moveResult | ret | raise => .f11x
  | move => .f12x
  | jump16 => .f20t
  | constString | constClass | newInstance | sget | sgetBoolean | sput
  | sputBoolean => .f21c
  | const16 => .f21s
  | ifEqz | ifNez | ifLtz | ifGez | ifGtz | ifLez => .f21t
  | addIntLit8 | rsubIntLit8 | mulIntLit8 | divIntLit8 | remIntLit8 | andIntLit8
  | orIntLit8 | xorIntLit8 | shlIntLit8 | shrIntLit8 | ushrIntLit8 => .f22b
  | iget | igetBoolean | iput | iputBoolean => .f22c
  | addIntLit16 | rsubInt | mulIntLit16 => .f22s
  | ifEq | ifNe | ifLt | ifGe | ifGt | ifLe => .f22t
  | aget | aput | aputBoolean | addInt | subInt | mulInt | divInt | andInt | orInt
  | xorInt => .f23x
  | invokeVirtual | invokeSuper | invokeDirect | invokeStatic | invokeInterface => .f35c
  | invokeVirtualRange | invokeSuperRange | invokeDirectRange | invokeStaticRange
  | invokeInterfaceRange => .f3rc

def ofByte? (byte : UInt8) : Option Opcode :=
  all.find? (·.byte == byte)

def ofName? (text : String) : Option Opcode :=
  all.find? (·.name == text)

def invokeKind? : Opcode → Option InvokeKind
  | invokeVirtual | invokeVirtualRange => some .virtual
  | invokeSuper | invokeSuperRange => some .super
  | invokeDirect | invokeDirectRange => some .direct
  | invokeStatic | invokeStaticRange => some .static
  | invokeInterface | invokeInterfaceRange => some .interface
  | _ => none

def referenceKind? : Opcode → Option ReferenceKind
  | constString => some .string
  | constClass | newInstance => some .type
  | sget | sgetBoolean | sput | sputBoolean | iget | igetBoolean | iput | iputBoolean =>
      some .field
  | opcode => opcode.invokeKind?.map fun _ => .method

def invoke : InvokeKind → Opcode
  | .virtual => invokeVirtual
  | .super => invokeSuper
  | .direct => invokeDirect
  | .static => invokeStatic
  | .interface => invokeInterface

def invokeRange : InvokeKind → Opcode
  | .virtual => invokeVirtualRange
  | .super => invokeSuperRange
  | .direct => invokeDirectRange
  | .static => invokeStaticRange
  | .interface => invokeInterfaceRange

/-- The invoke of another kind that names its arguments in the same way. -/
def withInvokeKind? (opcode : Opcode) (kind : InvokeKind) : Option Opcode :=
  opcode.invokeKind?.map fun _ =>
    if opcode.format = .f3rc then invokeRange kind else invoke kind

def isStaticGet : Opcode → Bool
  | sget | sgetBoolean => true
  | _ => false

def isStaticPut : Opcode → Bool
  | sput | sputBoolean => true
  | _ => false

def isInstanceGet : Opcode → Bool
  | iget | igetBoolean => true
  | _ => false

def isJump (opcode : Opcode) : Bool :=
  match opcode.format with
  | .f10t | .f20t | .f21t | .f22t => true
  | _ => false

theorem mem_all (opcode : Opcode) : opcode ∈ all := by
  cases opcode <;> decide

@[simp] theorem ofByte?_byte (opcode : Opcode) : ofByte? opcode.byte = some opcode := by
  cases opcode <;> rfl

theorem byte_of_ofByte? {byte : UInt8} {opcode : Opcode} (found : ofByte? byte = some opcode) :
    opcode.byte = byte := by
  simpa using List.find?_some found

theorem byte_injective {left right : Opcode} (same : left.byte = right.byte) : left = right :=
  Option.some.inj ((ofByte?_byte left).symm.trans (same ▸ ofByte?_byte right))

theorem format_withInvokeKind? {opcode changed : Opcode} {kind : InvokeKind}
    (found : opcode.withInvokeKind? kind = some changed) : changed.format = opcode.format := by
  cases opcode <;> simp [withInvokeKind?, invokeKind?] at found <;> subst found <;>
    cases kind <;> rfl

end Opcode

end Shrinker.Bytecode

import Shrinker.Bytecode.Instruction

namespace Shrinker.Bytecode

def signed (value : Int) : String :=
  if value < 0 then toString value else s!"+{value}"

def hexDigits (width value : Nat) : String :=
  String.ofList ((Nat.toDigits 16 value).leftpad width '0')

def braced (text : String) : String :=
  "\x7b " ++ text ++ " \x7d"

namespace Operands

def text : Operands → String
  | f10x => ""
  | f10t offset => signed offset.toInt
  | f11n register literal => s!"v{register.toNat}, #{literal.toInt}"
  | f11x register => s!"v{register}"
  | f12x first second => s!"v{first.toNat}, v{second.toNat}"
  | f20t offset => signed offset.toInt
  | f21c register index => s!"v{register}, @{index}"
  | f21s register literal => s!"v{register}, #{literal.toInt}"
  | f21t register offset => s!"v{register}, " ++ signed offset.toInt
  | f22b first second literal => s!"v{first}, v{second}, #{literal.toInt}"
  | f22c first second index => s!"v{first.toNat}, v{second.toNat}, @{index}"
  | f22s first second literal => s!"v{first.toNat}, v{second.toNat}, #{literal.toInt}"
  | f22t first second offset => s!"v{first.toNat}, v{second.toNat}, " ++ signed offset.toInt
  | f23x first second third => s!"v{first}, v{second}, v{third}"
  | f35c count c d e f g index =>
      let registers := (f35c count c d e f g index).arguments.map fun register =>
        s!"v{register.toNat}"
      braced (", ".intercalate registers) ++ s!", @{index}"
  | f3rc count first index =>
      if count = 0 then
        "\x7b \x7d" ++ s!", @{index}"
      else
        braced s!"v{first} .. v{first.toNat + count.toNat - 1}" ++ s!", @{index}"

def assemblerText : Operands → String
  | f11n register literal =>
      s!"v{register.toNat}, 0x" ++ hexDigits 1 literal.toNat ++ s!"  # {literal.toInt}"
  | f21s register literal =>
      s!"v{register}, 0x" ++ hexDigits 4 literal.toUInt16.toNat ++ s!"  # {literal.toInt}"
  | f22b first second literal =>
      s!"v{first}, v{second}, 0x" ++ hexDigits 2 literal.toUInt8.toNat ++ s!"  # {literal.toInt}"
  | f22s first second literal =>
      s!"v{first.toNat}, v{second.toNat}, 0x" ++ hexDigits 4 literal.toUInt16.toNat ++
        s!"  # {literal.toInt}"
  | operands => operands.text

end Operands

namespace Instruction

/-- The listing form: the mnemonic fills twenty columns. -/
def text (instruction : Instruction) : String :=
  String.ofList (instruction.opcode.name.toList.rightpad 20 ' ') ++ " " ++
    instruction.operands.text

def assemblerText (instruction : Instruction) : String :=
  instruction.opcode.name ++ " " ++ instruction.operands.assemblerText

end Instruction

end Shrinker.Bytecode

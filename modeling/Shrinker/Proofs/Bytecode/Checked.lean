import Shrinker.Bytecode.Instruction
import Shrinker.Proofs.Collection.Success

namespace Shrinker.Bytecode

open Collection.Success

namespace RawOperands

/-- The values in the order of `Operands.fields`. An invoke with explicit registers has their number in
front and zeros in place of those that it does not name. -/
def fields : RawOperands → List Int
  | f10x => []
  | f10t offset | f20t offset => [offset]
  | f11x register => [register]
  | f11n first second | f12x first second | f21c first second | f21s first second
  | f21t first second => [first, second]
  | f22b first second third | f22c first second third | f22s first second third
  | f22t first second third | f23x first second third => [first, second, third]
  | f35c index registers =>
      registers.length :: (registers ++ List.replicate (5 - registers.length) 0 ++ [index])
  | f3rc count index first => [count, first, index]

theorem inRange_eq_ok {operand : String} {least greatest value result : Int} :
    inRange operand least greatest value = .ok result ↔
      (least ≤ value ∧ value ≤ greatest) ∧ result = value := by
  unfold inRange
  split
  · simp
    omega
  · simp
    omega

theorem read_narrow {α : Type} {narrow : Int → α} {operand : String} {least greatest value : Int}
    {field : α} (read : α → Int)
    (faithful : ∀ kept, least ≤ kept → kept ≤ greatest → read (narrow kept) = kept)
    (checked : (inRange operand least greatest value).map narrow = .ok field) :
    read field = value := by
  obtain ⟨kept, passed, rfl⟩ := map_eq_ok.mp checked
  obtain ⟨⟨above, below⟩, rfl⟩ := inRange_eq_ok.mp passed
  exact faithful kept above below

theorem toNat_nibble {operand : String} {value : Int} {field : Nibble}
    (checked : nibble operand value = .ok field) : (field.toNat : Int) = value := by
  apply read_narrow (fun field : Nibble => field.toNat) _ checked
  intro kept above below
  simp only [BitVec.toNat_ofInt]
  omega

theorem toInt_signedNibble {operand : String} {value : Int} {field : Nibble}
    (checked : signedNibble operand value = .ok field) : field.toInt = value := by
  apply read_narrow BitVec.toInt _ checked
  intro kept above below
  exact BitVec.toInt_ofInt_eq_self (by decide) above (by omega)

theorem toNat_byte {operand : String} {value : Int} {field : UInt8}
    (checked : byte operand value = .ok field) : (field.toNat : Int) = value := by
  apply read_narrow (fun field : UInt8 => field.toNat) _ checked
  intro kept above below
  simp only [UInt8.toNat_ofNat']
  omega

theorem toInt_signedByte {operand : String} {value : Int} {field : Int8}
    (checked : signedByte operand value = .ok field) : field.toInt = value := by
  apply read_narrow Int8.toInt _ checked
  intro kept above below
  exact Int8.toInt_ofInt_of_le above (by omega)

theorem toNat_word {operand : String} {value : Int} {field : UInt16}
    (checked : word operand value = .ok field) : (field.toNat : Int) = value := by
  apply read_narrow (fun field : UInt16 => field.toNat) _ checked
  intro kept above below
  simp only [UInt16.toNat_ofNat']
  omega

theorem toInt_signedWord {operand : String} {value : Int} {field : Int16}
    (checked : signedWord operand value = .ok field) : field.toInt = value := by
  apply read_narrow Int16.toInt _ checked
  intro kept above below
  exact Int16.toInt_ofInt_of_le above (by omega)

theorem map_toNat_argumentRegisters {registers : List Int} {used : List Nibble}
    (few : registers.length ≤ 5) (checked : argumentRegisters registers = .ok used) :
    used.map (fun register => (register.toNat : Int)) = registers := by
  rw [map_eq_of_mapM (fun register : Nibble => (register.toNat : Int)) Prod.snd
    (fun _ _ registerChecked => toNat_nibble registerChecked) checked]
  exact List.map_snd_zip few

theorem check_f35c {index : Int} {registers : List Int} {operands : Operands}
    (checked : check (f35c index registers) = .ok operands) :
    registers.length ≤ 5 ∧ ∃ used : List Nibble, ∃ narrow : UInt16,
      used.map (fun register => (register.toNat : Int)) = registers ∧ (narrow.toNat : Int) = index ∧
        operands = .f35c (.ofNat 4 registers.length) (used.getD 0 0) (used.getD 1 0)
          (used.getD 2 0) (used.getD 3 0) (used.getD 4 0) narrow := by
  simp only [check] at checked
  split at checked
  · cases checked
  · rename_i few
    obtain ⟨used, usedChecked, continued⟩ := bind_eq_ok.mp checked
    obtain ⟨narrow, narrowChecked, assembled⟩ := bind_eq_ok.mp continued
    cases assembled
    have bound : registers.length ≤ 5 := by omega
    exact ⟨bound, used, narrow, map_toNat_argumentRegisters bound usedChecked,
      toNat_word narrowChecked, rfl⟩

theorem format_check {raw : RawOperands} {operands : Operands}
    (checked : raw.check = .ok operands) : operands.format = raw.format := by
  cases raw with
  | f35c index registers =>
      obtain ⟨-, _, _, -, -, rfl⟩ := check_f35c checked
      rfl
  | _ =>
      simp only [check, bind_eq_ok, pure, Except.pure, Except.ok.injEq] at checked
      grind [Operands.format, format]

theorem fields_check {raw : RawOperands} {operands : Operands}
    (checked : raw.check = .ok operands) : operands.fields = raw.fields := by
  cases raw with
  | f10x =>
      cases checked
      rfl
  | f10t offset =>
      simp only [check, bind_eq_ok] at checked
      obtain ⟨_, offsetChecked, assembled⟩ := checked
      cases assembled
      simp only [Operands.fields, fields, toInt_signedByte offsetChecked]
  | f11n register literal =>
      simp only [check, bind_eq_ok] at checked
      obtain ⟨_, registerChecked, _, literalChecked, assembled⟩ := checked
      cases assembled
      simp only [Operands.fields, fields, toNat_nibble registerChecked,
        toInt_signedNibble literalChecked]
  | f11x register =>
      simp only [check, bind_eq_ok] at checked
      obtain ⟨_, registerChecked, assembled⟩ := checked
      cases assembled
      simp only [Operands.fields, fields, toNat_byte registerChecked]
  | f12x first second =>
      simp only [check, bind_eq_ok] at checked
      obtain ⟨_, firstChecked, _, secondChecked, assembled⟩ := checked
      cases assembled
      simp only [Operands.fields, fields, toNat_nibble firstChecked, toNat_nibble secondChecked]
  | f20t offset =>
      simp only [check, bind_eq_ok] at checked
      obtain ⟨_, offsetChecked, assembled⟩ := checked
      cases assembled
      simp only [Operands.fields, fields, toInt_signedWord offsetChecked]
  | f21c register index =>
      simp only [check, bind_eq_ok] at checked
      obtain ⟨_, registerChecked, _, indexChecked, assembled⟩ := checked
      cases assembled
      simp only [Operands.fields, fields, toNat_byte registerChecked, toNat_word indexChecked]
  | f21s register literal =>
      simp only [check, bind_eq_ok] at checked
      obtain ⟨_, registerChecked, _, literalChecked, assembled⟩ := checked
      cases assembled
      simp only [Operands.fields, fields, toNat_byte registerChecked,
        toInt_signedWord literalChecked]
  | f21t register offset =>
      simp only [check, bind_eq_ok] at checked
      obtain ⟨_, registerChecked, _, offsetChecked, assembled⟩ := checked
      cases assembled
      simp only [Operands.fields, fields, toNat_byte registerChecked,
        toInt_signedWord offsetChecked]
  | f22b first second literal =>
      simp only [check, bind_eq_ok] at checked
      obtain ⟨_, firstChecked, _, secondChecked, _, literalChecked, assembled⟩ := checked
      cases assembled
      simp only [Operands.fields, fields, toNat_byte firstChecked, toNat_byte secondChecked,
        toInt_signedByte literalChecked]
  | f22c first second index =>
      simp only [check, bind_eq_ok] at checked
      obtain ⟨_, firstChecked, _, secondChecked, _, indexChecked, assembled⟩ := checked
      cases assembled
      simp only [Operands.fields, fields, toNat_nibble firstChecked, toNat_nibble secondChecked,
        toNat_word indexChecked]
  | f22s first second literal =>
      simp only [check, bind_eq_ok] at checked
      obtain ⟨_, firstChecked, _, secondChecked, _, literalChecked, assembled⟩ := checked
      cases assembled
      simp only [Operands.fields, fields, toNat_nibble firstChecked, toNat_nibble secondChecked,
        toInt_signedWord literalChecked]
  | f22t first second offset =>
      simp only [check, bind_eq_ok] at checked
      obtain ⟨_, firstChecked, _, secondChecked, _, offsetChecked, assembled⟩ := checked
      cases assembled
      simp only [Operands.fields, fields, toNat_nibble firstChecked, toNat_nibble secondChecked,
        toInt_signedWord offsetChecked]
  | f23x first second third =>
      simp only [check, bind_eq_ok] at checked
      obtain ⟨_, firstChecked, _, secondChecked, _, thirdChecked, assembled⟩ := checked
      cases assembled
      simp only [Operands.fields, fields, toNat_byte firstChecked, toNat_byte secondChecked,
        toNat_byte thirdChecked]
  | f35c index registers =>
      obtain ⟨few, used, narrow, sameRegisters, sameIndex, rfl⟩ := check_f35c checked
      subst sameRegisters sameIndex
      rcases used with _ | ⟨c, _ | ⟨d, _ | ⟨e, _ | ⟨f, _ | ⟨g, _ | ⟨h, more⟩⟩⟩⟩⟩⟩
      -- there is no room for a sixth register
      rotate_right
      · simp only [List.length_map, List.length_cons] at few
        omega
      all_goals simp [Operands.fields, fields]
  | f3rc count index first =>
      simp only [check, bind_eq_ok] at checked
      obtain ⟨narrowCount, countChecked, narrowFirst, firstChecked, _, _, narrowIndex,
        indexChecked, assembled⟩ := checked
      cases assembled
      simp only [Operands.fields, fields, toNat_byte countChecked, toNat_word firstChecked,
        toNat_word indexChecked]

end RawOperands

end Shrinker.Bytecode

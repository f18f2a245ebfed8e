import Shrinker.Proofs.Bytecode.Calls

namespace Shrinker.Bytecode

open Collection.Success

namespace Instruction

variable {cursor after : Cursor} {instruction : Instruction} {error : DecodeError}

theorem decode_eq_ok :
    decode cursor = .ok (instruction, after) ↔
      ∃ unit middle, cursor.next = .ok (unit, middle) ∧
        Opcode.ofByte? (CodeUnit.low unit) = some instruction.opcode ∧
        Operands.decode instruction.opcode.format (CodeUnit.high unit) middle =
          .ok (instruction.operands, after) := by
  unfold decode
  constructor
  · intro read
    split at read
    · cases read
    · rename_i unit middle first
      split at read
      · cases read
      · rename_i opcode known
        split at read
        · cases read
        · rename_i operands last tail
          cases read
          exact ⟨unit, middle, first, known, tail⟩
  · rintro ⟨unit, middle, first, known, tail⟩
    simp only [first, known]
    split
    · rename_i error failed
      rw [tail] at failed
      cases failed
    · rename_i operands last found
      rw [tail] at found
      cases found
      rfl

theorem decode_eq_error :
    decode cursor = .error error ↔
      cursor.next = .error error ∨
        ∃ unit middle, cursor.next = .ok (unit, middle) ∧
          (Opcode.ofByte? (CodeUnit.low unit) = none ∧
              error = .invalidOpcode (CodeUnit.low unit) cursor.position ∨
            ∃ opcode, Opcode.ofByte? (CodeUnit.low unit) = some opcode ∧
              Operands.decode opcode.format (CodeUnit.high unit) middle = .error error) := by
  unfold decode
  constructor
  · intro failed
    split at failed
    · rename_i cause ended
      cases failed
      exact Or.inl ended
    · rename_i unit middle first
      refine Or.inr ⟨unit, middle, first, ?_⟩
      split at failed
      · rename_i unknown
        cases failed
        exact Or.inl ⟨unknown, rfl⟩
      · rename_i opcode known
        split at failed
        · rename_i cause short
          cases failed
          exact Or.inr ⟨opcode, known, short⟩
        · cases failed
  · rintro (ended | ⟨unit, middle, first, ⟨unknown, rfl⟩ | ⟨opcode, known, short⟩⟩)
    · simp only [ended]
    · simp only [first, unknown]
    · simp only [first, known]
      split
      · rename_i cause again
        rw [short] at again
        cases again
        rfl
      · rename_i operands last found
        rw [short] at found
        cases found

end Instruction

def Cursor.shift (offset : Nat) (cursor : Cursor) : Cursor :=
  ⟨cursor.rest, offset + cursor.position⟩

def shiftRead {α : Type} (offset : Nat) (read : Except DecodeError (α × Cursor)) :
    Except DecodeError (α × Cursor) :=
  (read.map fun found => (found.1, found.2.shift offset)).mapError (·.shift offset)

theorem Cursor.next_shift (offset : Nat) (cursor : Cursor) :
    (cursor.shift offset).next = shiftRead offset cursor.next := by
  cases cursor with
  | mk rest position => cases rest <;> rfl

theorem Operands.decode_shift (format : Format) (high : UInt8) (offset : Nat) (cursor : Cursor) :
    decode format high (cursor.shift offset) = shiftRead offset (decode format high cursor) := by
  cases cursor with
  | mk rest position =>
      cases format <;> rcases rest with _ | ⟨_, _ | ⟨_, _⟩⟩ <;> rfl

namespace Instruction

theorem decode_shift (offset : Nat) (cursor : Cursor) :
    decode (cursor.shift offset) = shiftRead offset (decode cursor) := by
  cases read : decode cursor with
  | ok found =>
      obtain ⟨instruction, after⟩ := found
      obtain ⟨unit, middle, first, known, tail⟩ := decode_eq_ok.mp read
      refine decode_eq_ok.mpr ⟨unit, middle.shift offset, ?_, known, ?_⟩
      · rw [Cursor.next_shift, first]
        rfl
      · rw [Operands.decode_shift, tail]
        rfl
  | error error =>
      apply decode_eq_error.mpr
      rcases decode_eq_error.mp read with ended | ⟨unit, middle, first, failed⟩
      · left
        rw [Cursor.next_shift, ended]
        rfl
      · refine Or.inr ⟨unit, middle.shift offset, by rw [Cursor.next_shift, first]; rfl, ?_⟩
        rcases failed with ⟨unknown, rfl⟩ | ⟨opcode, known, short⟩
        · exact Or.inl ⟨unknown, rfl⟩
        · refine Or.inr ⟨opcode, known, ?_⟩
          rw [Operands.decode_shift, short]
          rfl

theorem decodeFrom_of_decode_error {cursor : Cursor} {error : DecodeError}
    (started : cursor.rest ≠ []) (failed : decode cursor = .error error) :
    decodeFrom cursor = .error error := by
  rw [decodeFrom, if_neg started]
  split
  · rename_i cause again
    rw [failed] at again
    cases again
    rfl
  · rename_i instruction after read
    rw [failed] at read
    cases read

theorem decodeFrom_shift (offset : Nat) (cursor : Cursor) :
    decodeFrom (cursor.shift offset) = (decodeFrom cursor).mapError (·.shift offset) := by
  induction remaining : cursor.rest.length using Nat.strongRecOn generalizing cursor with
  | _ remaining ih =>
      by_cases ended : cursor.rest = []
      · have still : (cursor.shift offset).rest = [] := ended
        rw [decodeFrom, if_pos still, decodeFrom, if_pos ended]
        rfl
      · have shifted := decode_shift offset cursor
        cases read : decode cursor with
        | error error =>
            rw [read] at shifted
            have started : (cursor.shift offset).rest ≠ [] := ended
            rw [decodeFrom_of_decode_error ended read, decodeFrom_of_decode_error started shifted]
            rfl
        | ok found =>
            obtain ⟨instruction, after⟩ := found
            rw [read] at shifted
            have rest := ih _ (remaining ▸ decode_shorter read) after rfl
            rw [decodeFrom_of_decode read, decodeFrom_of_decode shifted, rest]
            cases decodeFrom after <;> rfl

end Instruction

theorem Operands.decode_of_short {format : Format} {high : UInt8} {units : List CodeUnit}
    (short : units.length + 1 < format.size) (position : Nat) :
    decode format high ⟨units, position⟩ = .error (.unexpectedEnd (position + units.length)) := by
  rcases units with _ | ⟨unit, _ | ⟨next, more⟩⟩
  · cases format <;> simp [Format.size] at short <;> rfl
  · cases format <;> simp [Format.size] at short <;> rfl
  · -- no format takes more than three units
    cases format <;> simp only [Format.size, List.length_cons] at short <;> omega

namespace Instruction

theorem decode_take_encode {instruction : Instruction} {count : Nat} (started : 0 < count)
    (short : count < instruction.size) (position : Nat) :
    decode ⟨instruction.encode.take count, position⟩ =
      .error (.unexpectedEnd (position + count)) := by
  obtain ⟨more, rfl⟩ := Nat.exists_eq_succ_of_ne_zero (Nat.ne_of_gt started)
  have width := length_encode instruction
  simp only [encode, List.length_cons] at width
  have left : (instruction.operands.tailUnits.take more).length = more := by
    rw [List.length_take]
    omega
  have tail : Operands.decode instruction.opcode.format instruction.operands.highByte
      ⟨instruction.operands.tailUnits.take more, position + 1⟩ =
        .error (.unexpectedEnd (position + (more + 1))) := by
    rw [Operands.decode_of_short (by rw [left]; exact short), left, Nat.add_assoc,
      Nat.add_comm 1 more]
  refine decode_eq_error.mpr (Or.inr ⟨_, _, rfl, Or.inr ⟨instruction.opcode, ?_, ?_⟩⟩)
  · rw [CodeUnit.low_ofBytes, Opcode.ofByte?_byte]
  · rw [CodeUnit.high_ofBytes]
    exact tail

section Places

variable {instruction : Instruction} {instructions : List Instruction} {place other : Nat}

@[simp] theorem address_zero (instructions : List Instruction) : address instructions 0 = 0 := rfl

theorem address_cons_succ (instruction : Instruction) (instructions : List Instruction)
    (place : Nat) :
    address (instruction :: instructions) (place + 1) =
      instruction.size + address instructions place := by
  simp only [address, encodeAll, List.take_succ_cons, List.flatMap_cons, List.length_append,
    length_encode]

theorem size_pos (instruction : Instruction) : 0 < instruction.size :=
  Format.size_pos _

theorem address_lt_address (before : place < other) (inside : other ≤ instructions.length) :
    address instructions place < address instructions other := by
  induction instructions generalizing place other with
  | nil =>
      simp only [List.length_nil] at inside
      omega
  | cons instruction instructions ih =>
      obtain ⟨next, rfl⟩ := Nat.exists_eq_succ_of_ne_zero (Nat.ne_zero_of_lt before)
      have positive := size_pos instruction
      rw [address_cons_succ]
      cases place with
      | zero =>
          rw [address_zero]
          omega
      | succ place =>
          have rest := ih (Nat.lt_of_succ_lt_succ before) (Nat.le_of_succ_le_succ inside)
          rw [address_cons_succ]
          omega

theorem address_le_address_iff (inside : place ≤ instructions.length)
    (otherInside : other ≤ instructions.length) :
    address instructions other ≤ address instructions place ↔ other ≤ place := by
  rcases Nat.lt_trichotomy other place with before | rfl | behind
  · exact iff_of_true (Nat.le_of_lt (address_lt_address before inside)) (Nat.le_of_lt before)
  · exact iff_of_true (Nat.le_refl _) (Nat.le_refl _)
  · have later := address_lt_address behind otherInside
    omega

/-- A unit is where an instruction starts or the code ends, or it lies inside an instruction. -/
theorem exists_address (count : Nat) (within : count ≤ (encodeAll instructions).length) :
    (∃ place ≤ instructions.length, address instructions place = count) ∨
      ∃ before instruction behind, instructions = before ++ instruction :: behind ∧
        ∃ read, count = (encodeAll before).length + read ∧ 0 < read ∧ read < instruction.size := by
  induction instructions generalizing count with
  | nil => exact Or.inl ⟨0, Nat.le_refl _, (Nat.le_zero.mp within).symm⟩
  | cons first instructions ih =>
      have width : (encodeAll (first :: instructions)).length =
          first.size + (encodeAll instructions).length := by
        simp only [encodeAll, List.flatMap_cons, List.length_append, length_encode]
      by_cases inFirst : count < first.size
      · cases count with
        | zero => exact Or.inl ⟨0, Nat.zero_le _, rfl⟩
        | succ count =>
            exact Or.inr ⟨[], first, instructions, rfl, count + 1, (Nat.zero_add _).symm,
              Nat.succ_pos _, inFirst⟩
      · rcases ih (count - first.size) (by omega) with
          ⟨place, inside, here⟩ | ⟨before, instruction, behind, rfl, read, split, started, short⟩
        · refine Or.inl ⟨place + 1, Nat.succ_le_succ inside, ?_⟩
          rw [address_cons_succ, here]
          omega
        · refine Or.inr ⟨first :: before, instruction, behind, rfl, read, ?_, started, short⟩
          simp only [encodeAll, List.flatMap_cons, List.length_append, length_encode] at split ⊢
          omega

end Places

theorem encodeAll_append (left right : List Instruction) :
    encodeAll (left ++ right) = encodeAll left ++ encodeAll right :=
  List.flatMap_append

theorem take_address (instructions : List Instruction) (place : Nat) :
    (encodeAll instructions).take (address instructions place) =
      encodeAll (instructions.take place) := by
  have split := encodeAll_append (instructions.take place) (instructions.drop place)
  rw [List.take_append_drop] at split
  rw [split]
  exact List.take_left

theorem decodeAll_append {instructions : List Instruction}
    (canonical : ∀ instruction ∈ instructions, instruction.operands.IsCanonical)
    (units : List CodeUnit) :
    decodeAll (encodeAll instructions ++ units) =
      ((decodeAll units).mapError (·.shift (encodeAll instructions).length)).map
        (instructions ++ ·) := by
  have behind := decodeFrom_shift (encodeAll instructions).length (.start units)
  rw [decodeAll, Cursor.start, decodeFrom_encodeAll canonical, Nat.zero_add, decodeAll, ← behind]
  rfl

theorem decodeAll_of_short {before : List Instruction} {instruction : Instruction} {read : Nat}
    (canonical : ∀ other ∈ before, other.operands.IsCanonical) (started : 0 < read)
    (short : read < instruction.size) :
    decodeAll (encodeAll before ++ instruction.encode.take read) =
      .error (.unexpectedEnd ((encodeAll before).length + read)) := by
  have nonempty : instruction.encode.take read ≠ [] := by
    have width := length_encode instruction
    apply List.ne_nil_of_length_pos
    rw [List.length_take]
    omega
  have cut : decodeAll (instruction.encode.take read) = .error (.unexpectedEnd read) := by
    have failed := decode_take_encode started short 0
    rw [Nat.zero_add] at failed
    exact decodeFrom_of_decode_error nonempty failed
  rw [decodeAll_append canonical, cut]
  rfl

/-- Units behind written instructions are read as they are alone, and a failure there names a place that
is further on by the length of what stands in front. Written instructions that are cut between two of them
are read up to the cut. Cut anywhere else, they end too early. -/
theorem decodeAll_joined_and_cut {instructions : List Instruction}
    (obtained : ∀ instruction ∈ instructions, instruction.IsObtained) :
    (∀ units,
      (∀ others, decodeAll units = .ok others →
        decodeAll (encodeAll instructions ++ units) = .ok (instructions ++ others)) ∧
      ∀ error, decodeAll units = .error error →
        decodeAll (encodeAll instructions ++ units) =
          .error (error.shift (encodeAll instructions).length)) ∧
    ∀ count ≤ (encodeAll instructions).length,
      (∀ place ≤ instructions.length, address instructions place = count →
        decodeAll ((encodeAll instructions).take count) = .ok (instructions.take place) ∧
        ∀ other < instructions.length,
          address instructions (other + 1) ≤ count ↔ other < place) ∧
      ((∀ place ≤ instructions.length, address instructions place ≠ count) →
        decodeAll ((encodeAll instructions).take count) = .error (.unexpectedEnd count)) := by
  have canonical : ∀ instruction ∈ instructions, instruction.operands.IsCanonical :=
    fun instruction member => (obtained instruction member).isCanonical
  constructor
  · intro units
    rw [decodeAll_append canonical]
    constructor
    · intro others read
      rw [read]
      rfl
    · intro error failed
      rw [failed]
      rfl
  · intro count within
    constructor
    · rintro place inside rfl
      constructor
      · rw [take_address]
        exact decodeAll_encodeAll fun instruction member =>
          canonical instruction (List.mem_of_mem_take member)
      · intro other present
        rw [address_le_address_iff inside present]
        exact Nat.succ_le_iff
    · intro between
      rcases exists_address count within with
        ⟨place, inside, here⟩ | ⟨before, instruction, behind, rfl, read, rfl, started, short⟩
      · exact absurd here (between place inside)
      · have cut : (encodeAll (before ++ instruction :: behind)).take
            ((encodeAll before).length + read) =
              encodeAll before ++ instruction.encode.take read := by
          have width := length_encode instruction
          have front : encodeAll (instruction :: behind) = instruction.encode ++ encodeAll behind :=
            rfl
          rw [encodeAll_append, List.take_length_add_append, front,
            List.take_append_of_le_length (by omega)]
        rw [cut]
        exact decodeAll_of_short
          (fun other member => canonical other (List.mem_append_left _ member)) started short

namespace MoveAndCall

def move : Instruction :=
  ⟨.move, .f12x 1 2, rfl⟩

def call : Instruction :=
  ⟨.invokeStaticRange, .f3rc 2 0 7, rfl⟩

def units : List CodeUnit :=
  encodeAll [move, call]

theorem obtained : ∀ instruction ∈ [move, call], instruction.IsObtained := by
  intro instruction member
  rcases List.mem_pair.mp member with rfl | rfl
  · exact Or.inl ⟨.move, .f12x 1 2, by decide⟩
  · exact Or.inl ⟨.invokeStaticRange, .f3rc 2 7 0, by decide⟩

end MoveAndCall

open MoveAndCall in
/-- A move takes one unit and a call three. A byte that is no opcode is found behind them, and the call is
cut at either of the two places inside it. -/
theorem decodeAll_joined_and_cut_call :
    decodeAll (units ++ [0x3e]) = .error (.invalidOpcode 0x3e 4) ∧
      decodeAll (units.take 1) = .ok [move] ∧
      decodeAll (units.take 2) = .error (.unexpectedEnd 2) ∧
      decodeAll (units.take 3) = .error (.unexpectedEnd 3) := by
  obtain ⟨joined, cut⟩ := decodeAll_joined_and_cut obtained
  have unknown : decodeAll [0x3e] = .error (.invalidOpcode 0x3e 0) := by
    cbv
  exact ⟨(joined [0x3e]).2 _ unknown, ((cut 1 (by decide)).1 1 (by decide) (by decide)).1,
    (cut 2 (by decide)).2 (by decide), (cut 3 (by decide)).2 (by decide)⟩

end Instruction

end Shrinker.Bytecode

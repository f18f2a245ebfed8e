import Shrinker.Bytecode.TableIndices
import Shrinker.Proofs.Liveness.Uses

namespace Shrinker

open Reference Program Collection Success

namespace Bytecode

namespace TableIndices

def get (indices : TableIndices) : ReferenceKind → List UInt16
  | .string => indices.strings
  | .type => indices.types
  | .field => indices.fields
  | .method => indices.methods

variable {indices : TableIndices} {kind : ReferenceKind} {index : UInt16}

theorem mem_get_add {added : ReferenceKind} {other : UInt16} :
    index ∈ (indices.add added other).get kind ↔
      added = kind ∧ other = index ∨ index ∈ indices.get kind := by
  have inserted (entries : List UInt16) :
      index ∈ Ascending.insert UInt16.toNat other entries ↔ other = index ∨ index ∈ entries := by
    rw [Ascending.mem_insert fun _ _ => UInt16.toNat_inj.mp, eq_comm]
  cases added <;> cases kind <;> simp [add, get, inserted]

theorem mem_get_addInstruction {instruction : Instruction} :
    index ∈ (indices.addInstruction instruction).get kind ↔
      instruction.reference? = some (kind, index) ∨ index ∈ indices.get kind := by
  unfold addInstruction Instruction.reference? Instruction.poolIndex?
  cases instruction.opcode.referenceKind? with
  | none => cases instruction.operands <;> simp [addOperands]
  | some own =>
      cases instruction.operands <;> simp [addOperands, Operands.poolIndex?, mem_get_add]

theorem mem_get_ofInstructions {instructions : List Instruction} :
    index ∈ (ofInstructions instructions).get kind ↔
      ∃ instruction ∈ instructions, instruction.reference? = some (kind, index) := by
  have collected (start : TableIndices) :
      index ∈ (instructions.foldl addInstruction start).get kind ↔
        index ∈ start.get kind ∨
          ∃ instruction ∈ instructions, instruction.reference? = some (kind, index) := by
    induction instructions generalizing start with
    | nil => simp
    | cons instruction instructions ih =>
        rw [List.foldl_cons, ih, mem_get_addInstruction]
        simp only [List.mem_cons, exists_eq_or_imp]
        rw [or_assoc, or_left_comm]
  rw [ofInstructions, collected]
  cases kind <;> simp [empty, get]

/-- An index for a type, a field or a method lies outside its table. -/
def Exceeds (indices : TableIndices) (references : ReferenceTable) : Prop :=
  (∃ index ∈ indices.types, references.types.length ≤ index.toNat) ∨
    (∃ index ∈ indices.fields, references.fields.length ≤ index.toNat) ∨
    ∃ index ∈ indices.methods, references.methods.length ≤ index.toNat

end TableIndices

def Opcode.referring : List Opcode :=
  [.newInstance, .constClass, .sget, .sgetBoolean, .sput, .sputBoolean, .iget, .igetBoolean, .iput,
    .iputBoolean, .invokeVirtual, .invokeSuper, .invokeDirect, .invokeStatic, .invokeInterface,
    .invokeVirtualRange, .invokeSuperRange, .invokeDirectRange, .invokeStaticRange,
    .invokeInterfaceRange]

theorem Opcode.mem_referring_iff (opcode : Opcode) :
    opcode ∈ referring ↔ ∃ kind ≠ .string, opcode.referenceKind? = some kind := by
  cases opcode <;> simp [referring, referenceKind?, invokeKind?]

theorem Instruction.reference?_eq_some {instruction : Instruction} {kind : ReferenceKind}
    {index : UInt16} :
    instruction.reference? = some (kind, index) ↔
      instruction.opcode.referenceKind? = some kind ∧ instruction.poolIndex? = some index := by
  unfold reference?
  cases instruction.opcode.referenceKind? <;> cases instruction.poolIndex? <;> simp

theorem Instruction.exists_reference? {instruction : Instruction} {kind : ReferenceKind}
    (referring : instruction.opcode.referenceKind? = some kind) :
    ∃ index, instruction.reference? = some (kind, index) := by
  have format : instruction.opcode.format ∈ [Format.f21c, .f22c, .f35c, .f3rc] := by
    cases opcode : instruction.opcode <;>
      simp_all [Opcode.referenceKind?, Opcode.invokeKind?, Opcode.format]
  rw [← instruction.fits] at format
  unfold reference? poolIndex?
  rw [referring]
  cases operands : instruction.operands with
  | f21c | f22c | f35c | f3rc => exact ⟨_, rfl⟩
  | _ => simp [operands, Operands.format] at format

end Bytecode

namespace Liveness

open Bytecode

/-- The instruction refers by an index outside the table; strings are not looked up. -/
def PointsOutside (references : ReferenceTable) (instruction : Instruction) (index : UInt16) : Prop :=
  instruction.reference? = some (.type, index) ∧ references.types.length ≤ index.toNat ∨
    instruction.reference? = some (.field, index) ∧ references.fields.length ≤ index.toNat ∨
    instruction.reference? = some (.method, index) ∧ references.methods.length ≤ index.toNat

theorem PointsOutside.poolIndex? {references : ReferenceTable} {instruction : Instruction}
    {index : UInt16} (outside : PointsOutside references instruction index) :
    instruction.poolIndex? = some index := by
  rcases outside with ⟨reference, -⟩ | ⟨reference, -⟩ | ⟨reference, -⟩ <;>
    exact (Instruction.reference?_eq_some.mp reference).2

theorem exceeds_ofInstructions_iff {references : ReferenceTable} {instructions : List Instruction} :
    (TableIndices.ofInstructions instructions).Exceeds references ↔
      ∃ instruction ∈ instructions, ∃ index, PointsOutside references instruction index := by
  have reported (kind : ReferenceKind) (index : UInt16) :=
    @TableIndices.mem_get_ofInstructions kind index instructions
  constructor
  · intro exceeds
    rcases exceeds with ⟨index, listed, outside⟩ | ⟨index, listed, outside⟩ | ⟨index, listed, outside⟩
    · obtain ⟨instruction, member, reference⟩ := (reported .type index).mp listed
      exact ⟨instruction, member, index, .inl ⟨reference, outside⟩⟩
    · obtain ⟨instruction, member, reference⟩ := (reported .field index).mp listed
      exact ⟨instruction, member, index, .inr (.inl ⟨reference, outside⟩)⟩
    · obtain ⟨instruction, member, reference⟩ := (reported .method index).mp listed
      exact ⟨instruction, member, index, .inr (.inr ⟨reference, outside⟩)⟩
  · intro pointing
    obtain ⟨instruction, member, index, outside⟩ := pointing
    rcases outside with ⟨reference, outside⟩ | ⟨reference, outside⟩ | ⟨reference, outside⟩
    · exact .inl ⟨index, (reported .type index).mpr ⟨instruction, member, reference⟩, outside⟩
    · exact .inr (.inl
        ⟨index, (reported .field index).mpr ⟨instruction, member, reference⟩, outside⟩)
    · exact .inr (.inr
        ⟨index, (reported .method index).mpr ⟨instruction, member, reference⟩, outside⟩)

theorem tableEntry_cases {α : Type} (table : List α) (instruction : Instruction) (index : UInt16)
    (issue : α → Option Action) :
    (table.length ≤ index.toNat ∧
        (tableEntry table instruction index >>= fun entry => pure (issue entry)) =
          .error (.indexOutsideTable instruction index)) ∨
      (¬table.length ≤ index.toNat ∧ ∃ action,
        (tableEntry table instruction index >>= fun entry => pure (issue entry)) = .ok action) := by
  unfold tableEntry
  by_cases outside : table.length ≤ index.toNat
  · rw [List.getElem?_eq_none outside]
    exact .inl ⟨outside, rfl⟩
  · rw [List.getElem?_eq_getElem (Nat.lt_of_not_le outside)]
    exact .inr ⟨outside, _, rfl⟩

theorem registerAction?_cases (references : ReferenceTable) (context : MethodId)
    (instruction : Instruction) :
    (∃ index, PointsOutside references instruction index ∧
        registerAction? references context instruction =
          .error (.indexOutsideTable instruction index)) ∨
      ((∀ index, ¬PointsOutside references instruction index) ∧
        ∃ action, registerAction? references context instruction = .ok action) := by
  unfold registerAction? PointsOutside
  rcases reference : instruction.reference? with _ | ⟨kind, index⟩
  · exact .inr ⟨by simp, _, rfl⟩
  · cases kind with
    | string => exact .inr ⟨by simp, _, rfl⟩
    | type =>
        rcases tableEntry_cases references.types instruction index
          (fun type => some (typeAction instruction.opcode type)) with
          ⟨outside, failed⟩ | ⟨inside, read⟩
        · exact .inl ⟨index, by simp [outside], failed⟩
        · exact .inr ⟨by simp_all, read⟩
    | field =>
        rcases tableEntry_cases references.fields instruction index
          (fun field => some (fieldAction instruction.opcode field context)) with
          ⟨outside, failed⟩ | ⟨inside, read⟩
        · exact .inl ⟨index, by simp [outside], failed⟩
        · exact .inr ⟨by simp_all, read⟩
    | method =>
        rcases tableEntry_cases references.methods instruction index
          (fun method => instruction.opcode.invokeKind?.map fun kind =>
            .traceInvoke kind method (some context)) with ⟨outside, failed⟩ | ⟨inside, read⟩
        · exact .inl ⟨index, by simp [outside], failed⟩
        · exact .inr ⟨by simp_all, read⟩

/-- What a register body says in stack instructions. The opcodes that refer to a type, a field or a method
are replaced by what they mean, and all others are dropped. -/
inductive Reads (references : ReferenceTable) : List Instruction → List StackInstruction → Prop where
  | nil : Reads references [] []
  | replace {instruction : Instruction} {symbol : StackInstruction} {instructions : List Instruction}
      {symbols : List StackInstruction} :
      instruction.opcode ∈ Opcode.referring → symbolic? references instruction = some symbol →
        Reads references instructions symbols →
        Reads references (instruction :: instructions) (symbol :: symbols)
  | drop {instruction : Instruction} {instructions : List Instruction}
      {symbols : List StackInstruction} :
      instruction.opcode ∉ Opcode.referring → Reads references instructions symbols →
        Reads references (instruction :: instructions) symbols

section Bodies

variable {references : ReferenceTable} {instruction : Instruction} {instructions : List Instruction}
  {symbols : List StackInstruction}

theorem symbolic?_of_not_referring (other : instruction.opcode ∉ Opcode.referring) :
    symbolic? references instruction = none := by
  unfold symbolic?
  cases instruction.poolIndex? with
  | none => rfl
  | some index => cases opcode : instruction.opcode <;> simp_all [Opcode.referring]

theorem exists_symbolic? (referring : instruction.opcode ∈ Opcode.referring)
    (inside : ∀ index, ¬PointsOutside references instruction index) :
    ∃ symbol, symbolic? references instruction = some symbol := by
  obtain ⟨kind, -, refers⟩ := (Opcode.mem_referring_iff _).mp referring
  obtain ⟨index, reference⟩ := Instruction.exists_reference? refers
  have pointed := (Instruction.reference?_eq_some.mp reference).2
  have named (other : ReferenceKind) (same : instruction.opcode.referenceKind? = some other) :
      instruction.reference? = some (other, index) :=
    Instruction.reference?_eq_some.mpr ⟨same, pointed⟩
  have found {α : Type} (table : List α) (within : ¬table.length ≤ index.toNat)
      (symbol : α → StackInstruction) : ∃ read, table[index.toNat]?.map symbol = some read := by
    rw [List.getElem?_eq_getElem (Nat.lt_of_not_le within)]
    exact ⟨_, rfl⟩
  unfold symbolic?
  rw [pointed, Option.bind_some]
  cases opcode : instruction.opcode with
  | newInstance | constClass =>
      rw [opcode] at named
      exact found _ (fun outside => inside index (.inl ⟨named .type rfl, outside⟩)) _
  | sget | sgetBoolean | sput | sputBoolean | iget | igetBoolean | iput | iputBoolean =>
      rw [opcode] at named
      exact found _ (fun outside => inside index (.inr (.inl ⟨named .field rfl, outside⟩))) _
  | invokeVirtual | invokeVirtualRange | invokeSuper | invokeSuperRange | invokeDirect
  | invokeDirectRange | invokeStatic | invokeStaticRange | invokeInterface | invokeInterfaceRange =>
      rw [opcode] at named
      exact found _ (fun outside => inside index (.inr (.inr ⟨named .method rfl, outside⟩))) _
  | _ => simp [opcode, Opcode.referring] at referring

theorem Reads.eq_filterMap (reads : Reads references instructions symbols) :
    symbols = instructions.filterMap (symbolic? references) := by
  induction reads with
  | nil => rfl
  | replace _ meaning _ ih => rw [List.filterMap_cons_some meaning, ih]
  | drop other _ ih => rw [List.filterMap_cons_none (symbolic?_of_not_referring other), ih]

theorem reads_filterMap
    (inside : ∀ instruction ∈ instructions, ∀ index, ¬PointsOutside references instruction index) :
    Reads references instructions (instructions.filterMap (symbolic? references)) := by
  induction instructions with
  | nil => exact .nil
  | cons instruction instructions ih =>
      obtain ⟨here, others⟩ := List.forall_mem_cons.mp inside
      by_cases referring : instruction.opcode ∈ Opcode.referring
      · obtain ⟨symbol, meaning⟩ := exists_symbolic? referring here
        rw [List.filterMap_cons_some meaning]
        exact .replace referring meaning (ih others)
      · rw [List.filterMap_cons_none (symbolic?_of_not_referring referring)]
        exact .drop referring (ih others)

end Bodies

section Failures

variable {context : MethodId} {body : RegisterCode}

theorem exists_of_bodyActions_eq_error {cause : BrokenProgram}
    (failed : bodyActions context (.register body) = .error cause) :
    ∃ before instruction after index, body.instructions = before ++ instruction :: after ∧
      (∀ earlier ∈ before, ∀ index, ¬PointsOutside body.references earlier index) ∧
      PointsOutside body.references instruction index ∧
      cause = .indexOutsideTable instruction index := by
  obtain ⟨before, instruction, after, split, earlier, here⟩ :=
    exists_of_mapM_eq_error (map_eq_error.mp failed)
  rcases registerAction?_cases body.references context instruction with
    ⟨index, outside, stopped⟩ | ⟨-, action, read⟩
  · refine ⟨before, instruction, after, index, split, ?_, outside, ?_⟩
    · intro other member
      obtain ⟨action, read⟩ := earlier other member
      rcases registerAction?_cases body.references context other with ⟨_, -, failed⟩ | ⟨inside, -⟩
      · rw [read] at failed
        cases failed
      · exact inside
    · rw [stopped] at here
      cases here
      rfl
  · rw [read] at here
    cases here

theorem exists_bodyActions_eq_error_iff :
    (∃ cause, bodyActions context (.register body) = .error cause) ↔
      (TableIndices.ofInstructions body.instructions).Exceeds body.references := by
  simp only [bodyActions, map_eq_error]
  rw [exists_mapM_eq_error, exceeds_ofInstructions_iff]
  apply exists_congr
  intro instruction
  apply and_congr_right
  intro _
  rcases registerAction?_cases body.references context instruction with
    ⟨index, outside, stopped⟩ | ⟨inside, action, read⟩
  · exact iff_of_true ⟨_, stopped⟩ ⟨index, outside⟩
  · refine iff_of_false ?_ (not_exists.mpr inside)
    rw [read]
    intro failed
    cases failed.choose_spec

end Failures

/-- A register body can be followed exactly if no index reported for its code exceeds a table other than
that of the strings. If it cannot, the first instruction with such an index is to blame. If it can, it
asks for what its reading in stack instructions asks for, of which there is one. -/
theorem register_body_reads_symbolically (context : MethodId) (body : RegisterCode) :
    ((∃ cause, bodyActions context (.register body) = .error cause) ↔
        (TableIndices.ofInstructions body.instructions).Exceeds body.references) ∧
      (∀ cause, bodyActions context (.register body) = .error cause →
        ∃ before instruction after index, body.instructions = before ++ instruction :: after ∧
          ¬(TableIndices.ofInstructions before).Exceeds body.references ∧
          (TableIndices.ofInstructions [instruction]).Exceeds body.references ∧
          instruction.poolIndex? = some index ∧ cause = .indexOutsideTable instruction index) ∧
      ∀ actions, bodyActions context (.register body) = .ok actions →
        ∃ symbols, (∀ others, Reads body.references body.instructions others ↔ others = symbols) ∧
          bodyActions context (.stack symbols) = .ok actions := by
  refine ⟨exists_bodyActions_eq_error_iff, ?_, ?_⟩
  · intro cause failed
    obtain ⟨before, instruction, after, index, split, earlier, outside, rfl⟩ :=
      exists_of_bodyActions_eq_error failed
    refine ⟨before, instruction, after, index, split, ?_, ?_, outside.poolIndex?, rfl⟩
    · rw [exceeds_ofInstructions_iff]
      intro exceeds
      obtain ⟨other, member, index, outside⟩ := exceeds
      exact earlier other member index outside
    · exact exceeds_ofInstructions_iff.mpr ⟨instruction, List.mem_singleton_self _, index, outside⟩
  · intro actions read
    refine ⟨uses (.register body), ?_, ?_⟩
    · intro others
      constructor
      · exact Reads.eq_filterMap
      · intro same
        rw [same]
        apply reads_filterMap
        intro instruction member index outside
        have exceeds := exceeds_ofInstructions_iff.mpr ⟨instruction, member, index, outside⟩
        obtain ⟨cause, failed⟩ := exists_bodyActions_eq_error_iff.mpr exceeds
        rw [read] at failed
        cases failed
    · rw [bodyActions, bodyActions_eq_ok read]

end Liveness

end Shrinker

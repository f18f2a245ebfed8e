import Shrinker.Proofs.Liveness.Fixpoint
import Shrinker.Proofs.Publicizer.Records
import Shrinker.Proofs.Session.Steps

namespace Shrinker.Session

open Bytecode Reference Program Liveness Lens Collection Success

/-- A class of the program itself defines the method with a register body. -/
def HasBody (program : Program) (method : MethodId) (body : RegisterCode) : Prop :=
  ∃ hit, program.methodDefinition? method = some hit ∧ hit.holder.isProgram ∧
    hit.definition.code = some (.register body)

section Bodies

variable {references : ReferenceTable} {instruction : Instruction} {context : MethodId}
  {body : RegisterCode}

theorem exists_registerAction?_eq_error (dangling : IsDangling references instruction) :
    ∃ cause, registerAction? references context instruction = .error cause := by
  obtain ⟨call, index, pointed, outside⟩ := dangling
  have named : instruction.reference? = some (.method, index) := by
    rw [Instruction.reference?, Opcode.referenceKind?_of_call _ call, pointed]
    rfl
  have missing : tableEntry references.methods instruction index =
      .error (.indexOutsideTable instruction index) := by
    rw [tableEntry, List.getElem?_eq_none outside]
  rw [registerAction?, named]
  dsimp only
  rw [missing]
  exact ⟨_, rfl⟩

theorem not_isDangling_of_bodyActions {actions : List Action}
    (read : bodyActions context (.register body) = .ok actions)
    (member : instruction ∈ body.instructions) : ¬IsDangling body.references instruction := by
  intro dangling
  obtain ⟨results, readAll, -⟩ := map_eq_ok.mp read
  obtain ⟨cause, failed⟩ := exists_mapM_eq_error.mpr
    ⟨instruction, member, exists_registerAction?_eq_error dangling⟩
  rw [readAll] at failed
  cases failed

theorem HasBody.bodyActions_eq_ok {program : Program} {live : LiveSet} {method : MethodId}
    (has : HasBody program method body) (readable : Trace.Readable program live)
    (isLive : method ∈ live.methods) :
    ∃ actions, bodyActions method (.register body) = .ok actions := by
  obtain ⟨hit, found, isProgram, code⟩ := has
  obtain ⟨actions, read⟩ := readable method isLive hit found
  rw [Trace.methodBody, if_pos isProgram, code] at read
  exact ⟨actions, read⟩

theorem hasBody_finalClass {publicizer : Publicizer} {program : Program} {method : MethodId}
    (distinct : program.IsDistinct) :
    HasBody (program.reshape (publicizer.finalClass program)) method body ↔
      HasBody program method body := by
  constructor
  · rintro ⟨hit, found, isProgram, code⟩
    obtain ⟨old, known, holder, definition⟩ :=
      (Publicizer.methodDefinition?_finalClass distinct).mp found
    rw [holder, Publicizer.isProgram_finalClass] at isProgram
    rw [definition, Publicizer.code_finalMethod] at code
    exact ⟨old, known, isProgram, code⟩
  · rintro ⟨old, known, isProgram, code⟩
    rw [← Publicizer.isProgram_finalClass] at isProgram
    rw [← Publicizer.code_finalMethod] at code
    exact ⟨⟨_, _⟩, (Publicizer.methodDefinition?_finalClass distinct).mpr ⟨old, known, rfl, rfl⟩,
      isProgram, code⟩

end Bodies

/-- The later program has opened up a definition of the method. -/
def IsOpenedUp (before after : Program) (method : MethodId) : Prop :=
  ∃ holder ∈ before.classes, ∃ definition ∈ holder.methods, definition.method = method ∧
    ∃ changed final, after.definition? holder.type = some changed ∧
      changed.method? method = some final ∧ Publicizer.IsPublicized definition final

/-- Direct calls of open methods have become virtual with the same operands. All else is the same. -/
inductive Reopened (isOpen : MethodId → Prop) (references : ReferenceTable) :
    Instruction → Instruction → Prop where
  | call {instruction changed : Instruction} {method : MethodId} :
      (instruction.opcode = .invokeDirect ∧ changed.opcode = .invokeVirtual ∨
        instruction.opcode = .invokeDirectRange ∧ changed.opcode = .invokeVirtualRange) →
      calledMethod? references instruction = some method → isOpen method →
      changed.operands = instruction.operands → Reopened isOpen references instruction changed
  | other {instruction : Instruction} :
      (instruction.opcode = .invokeDirect ∨ instruction.opcode = .invokeDirectRange →
        ∀ method, calledMethod? references instruction = some method → ¬isOpen method) →
      Reopened isOpen references instruction instruction

section Calls

variable {lens : Lens} {references : ReferenceTable} {instruction changed : Instruction}

def Opens (lens : Lens) (method : MethodId) : Prop :=
  (lens.lookupMethod method).invokeKind .direct = .virtual

theorem not_opens_identity (method : MethodId) : ¬Opens identity method := by
  rw [Opens, lookupMethod_identity, Lookup.invokeKind_start]
  nofun

theorem reopened_applyCall (applied : lens.applyCall references instruction = .ok changed) :
    Reopened (Opens lens) references instruction changed := by
  rcases cases_of_applyCall applied with ⟨none, rfl⟩ | ⟨kind, method, call, called, form, same⟩
  · refine .other fun direct => ?_
    rw [Opcode.invokeKind?_eq_direct.mpr direct] at none
    cases none
  · by_cases opens : kind = .direct ∧ (lens.lookupMethod method).changes.publicized
    · obtain ⟨rfl, publicized⟩ := opens
      have virtual : Opens lens method := if_pos ⟨rfl, publicized⟩
      rw [virtual] at form
      refine .call ?_ called virtual same
      rcases Opcode.invokeKind?_eq_direct.mp call with direct | direct
      · rw [direct] at form
        exact Or.inl ⟨direct, (Option.some.inj form).symm⟩
      · rw [direct] at form
        exact Or.inr ⟨direct, (Option.some.inj form).symm⟩
    · -- a call of another kind, or of a method that was not opened up
      have kept : (lens.lookupMethod method).invokeKind kind = kind := if_neg opens
      rw [kept, Opcode.withInvokeKind?_self call] at form
      cases Instruction.ext_of_parts (Option.some.inj form) same.symm
      refine .other fun direct other found virtual => ?_
      rw [called] at found
      cases found
      rw [Opcode.invokeKind?_eq_direct.mpr direct] at call
      cases call
      rw [Opens, kept] at virtual
      cases virtual

theorem reopened_applyCode {body final : RegisterCode}
    (applied : lens.applyCode (.register body) = .ok (.register final)) :
    List.Forall₂ (Reopened (Opens lens) body.references) body.instructions final.instructions := by
  rcases applyCode_register lens body with ⟨rfl, kept⟩ | ⟨-, mapped⟩
  · rw [kept] at applied
    cases applied
    exact List.forall₂_same.mpr fun _ _ => .other fun _ method _ => not_opens_identity method
  · rw [mapped] at applied
    obtain ⟨changed, done, same⟩ := map_eq_ok.mp applied
    cases same
    obtain ⟨instructions, calls, rfl⟩ := applyRegister_eq_ok.mp done
    exact (mapM_eq_ok_iff_forall₂.mp calls).imp fun _ _ => reopened_applyCall

end Calls

section Opened

variable {program : Program} {method : MethodId}

theorem not_isOpenedUp_self (distinct : program.IsDistinct) : ¬IsOpenedUp program program method := by
  rintro ⟨holder, member, definition, declared, rfl, changed, final, found, listed, publicized⟩
  rw [distinct.definition?_eq_some.mpr ⟨member, rfl⟩] at found
  cases found
  rw [ClassDef.method?, (Keyed.find?_eq_some_iff (distinct.methods holder member)).mpr
    ⟨declared, rfl⟩] at listed
  cases listed
  have wasPrivate := publicized.wasPrivate
  rw [publicized.isOpen] at wasPrivate
  cases wasPrivate

theorem opens_iff_of_run {publicizer : Publicizer} {outcome : Publicizer.Outcome}
    (distinct : program.IsDistinct) (success : publicizer.run program identity = .ok outcome) :
    Opens outcome.lens method ↔ IsOpenedUp program outcome.program method := by
  have level : outcome.lens = identity.publish (publicizer.openedLevel program) :=
    Publicizer.lens_of_run distinct success
  rw [Opens, level, Publicizer.invokeKind_openedLevel, Publicizer.isSome_lookup_openedLevel,
    Publicizer.program_of_run distinct success]
  constructor
  · rintro ⟨slot, opened, rfl⟩
    obtain ⟨-, holder, member, sameType, -, definition, declared, named, -⟩ :=
      Publicizer.exists_of_mem_openedSlots opened
    have slotOf : (⟨holder.type, definition.method⟩ : Publicizer.Slot) ∈
        publicizer.openedSlots program := by
      rw [sameType, named]
      exact opened
    refine ⟨holder, member, definition, declared, named, _, _,
      Publicizer.definition?_finalClass distinct member, ?_,
      (Publicizer.isPublicized_iff distinct member declared).mpr slotOf⟩
    rw [← named]
    exact Publicizer.method?_finalClass distinct member declared
  · rintro ⟨holder, member, definition, declared, rfl, changed, final, found, listed, publicized⟩
    rw [Publicizer.definition?_finalClass distinct member] at found
    cases found
    rw [Publicizer.method?_finalClass distinct member declared] at listed
    cases listed
    exact ⟨_, (Publicizer.isPublicized_iff distinct member declared).mp publicized, rfl⟩

end Opened

section Units

variable {session : Session} {result : TraceResult} {method : MethodId}

theorem encodeMethod_of_dead (traced : session.traced = some result)
    (dead : result.live.hasMethod method = false) : session.encodeMethod method = .ok none := by
  rw [encodeMethod, traced, Option.all_some, dead]
  rfl

theorem encodeMethod_of_live {body final : RegisterCode} (traced : session.traced = some result)
    (isLive : result.live.hasMethod method) (has : HasBody session.program method body)
    (applied : session.lens.applyCode (.register body) = .ok (.register final)) :
    session.encodeMethod method = .ok (some (Instruction.encodeAll final.instructions)) := by
  obtain ⟨hit, found, -, code⟩ := has
  have current : session.currentCode method = .ok (some (.register final)) := by
    simp only [currentCode, found, Option.bind_some, code, applied]
    rfl
  rw [encodeMethod, traced, Option.all_some, if_pos isLive, current]
  rfl

end Units

/-- The register bodies consist of instructions that were built from numbers or read from units. -/
def BodiesObtained (program : Program) : Prop :=
  ∀ holder ∈ program.classes, ∀ definition ∈ holder.methods, ∀ body,
    definition.code = some (.register body) →
      ∀ instruction ∈ body.instructions, instruction.IsObtained

theorem HasBody.isObtained {program : Program} {method : MethodId} {body : RegisterCode}
    (has : HasBody program method body) (obtained : BodiesObtained program) :
    ∀ instruction ∈ body.instructions, instruction.IsObtained := by
  obtain ⟨hit, found, -, code⟩ := has
  obtain ⟨declared, -⟩ := declared_of_methodDefinition? found
  exact obtained hit.holder declared.holder hit.definition declared.definition body code

theorem after_optimize {program : Program} {options : Options} {summary : Summary}
    {after : Session} (distinct : program.IsDistinct)
    (success : optimize.run { program, options } = (.ok summary, after)) :
    ∃ result, after.traced = some result ∧
      Trace.Readable { program with interner := after.program.interner } result.live ∧
      (∀ method body, HasBody after.program method body ↔
        HasBody { program with interner := after.program.interner } method body) ∧
      ∀ method, Opens after.lens method ↔ IsOpenedUp program after.program method := by
  obtain ⟨interner, grown, handlers, roots, result, same, traced, stored, passed⟩ :=
    optimize_run_eq_ok success
  subst same
  have grownDistinct : ({ program with interner } : Program).IsDistinct :=
    ⟨distinct.types, distinct.methods, distinct.fields⟩
  obtain ⟨taken, settled⟩ := Tracer.settled_of_trace traced
  refine ⟨result, stored, ?_⟩
  -- bodies were traced before the publicizer ran, and it leaves them alone
  rcases passed with ⟨-, kept, lens⟩ | ⟨outcome, run, changed, lens⟩
  · rw [kept, lens]
    refine ⟨settled.readable, fun _ _ => Iff.rfl, fun method => ?_⟩
    have unopened : ¬IsOpenedUp { program with interner } { program with interner } method :=
      not_isOpenedUp_self grownDistinct
    exact iff_of_false (not_opens_identity method) unopened
  · have final := Publicizer.program_of_run grownDistinct run
    have sameInterner : outcome.program.interner = interner := by
      rw [final]
      rfl
    have opens (method : MethodId) : Opens outcome.lens method ↔
        IsOpenedUp { program with interner } outcome.program method :=
      opens_iff_of_run grownDistinct run
    rw [changed, lens, sameInterner]
    refine ⟨settled.readable, fun method body => ?_, opens⟩
    rw [final]
    exact hasBody_finalClass grownDistinct

/-- After an optimization all bodies are those that the program had. Every live method that the program
itself defines with a register body can be encoded: it takes as many units as its size says, and is read
back with only the direct calls of opened-up methods changed. Methods that are not live have no units. -/
theorem optimize_encodes_live_bodies {program : Program} {options : Options} {summary : Summary}
    {after : Session} (distinct : program.IsDistinct) (obtained : BodiesObtained program)
    (success : optimize.run { program, options } = (.ok summary, after)) :
    ∃ result, after.traced = some result ∧
      (∀ method body, HasBody after.program method body ↔
        HasBody { program with interner := after.program.interner } method body) ∧
      (∀ method body, result.live.hasMethod method → HasBody after.program method body →
        ∃ units decoded, after.encodeMethod method = .ok (some units) ∧
          units.length = body.size ∧ Instruction.decodeAll units = .ok decoded ∧
          List.Forall₂ (Reopened (IsOpenedUp program after.program) body.references)
            body.instructions decoded) ∧
      ∀ method, result.live.hasMethod method = false → after.encodeMethod method = .ok none := by
  obtain ⟨result, stored, readable, bodies, opens⟩ := after_optimize distinct success
  refine ⟨result, stored, bodies, ?_, fun method => encodeMethod_of_dead stored⟩
  intro method body isLive has
  have before := (bodies method body).mp has
  obtain ⟨actions, read⟩ := before.bodyActions_eq_ok readable (of_decide_eq_true isLive)
  obtain ⟨final, applied, seen⟩ :=
    exists_applyCode_eq_ok after.lens body fun _ => not_isDangling_of_bodyActions read
  have open_eq : Opens after.lens = IsOpenedUp program after.program :=
    funext fun method => propext (opens method)
  refine ⟨_, final.instructions, encodeMethod_of_live stored isLive has applied, ?_,
    Instruction.decodeAll_encodeAll ?_, ?_⟩
  · rw [Instruction.length_encodeAll_congr seen.operands, Instruction.length_encodeAll]
    rfl
  · intro instruction member
    have listed := List.mem_map_of_mem (f := Instruction.operands) member
    rw [seen.operands] at listed
    obtain ⟨old, inBody, same⟩ := List.mem_map.mp listed
    rw [← same]
    exact (before.isObtained obtained old inBody).isCanonical
  · rw [← open_eq]
    exact reopened_applyCode applied

namespace Helper

/-- The references `LA;->run()V`, `LA;->help()V` and `LA;->idle()V`. -/
def interner : Interner :=
  let (holder, interner) := Interner.standard.internType "LA;"
  let (run, interner) := interner.internSymbol "run"
  let (help, interner) := interner.internSymbol "help"
  let (idle, interner) := interner.internSymbol "idle"
  let (proto, interner) := interner.internProto ⟨[], .void⟩
  let (_, interner) := interner.internMethod ⟨holder, run, proto⟩
  let (_, interner) := interner.internMethod ⟨holder, help, proto⟩
  (interner.internMethod ⟨holder, idle, proto⟩).2

def body : RegisterCode where
  registers := 1
  instructions := [⟨.invokeDirect, .f35c 1 0 0 0 0 0 0, rfl⟩, ⟨.returnVoid, .f10x, rfl⟩]
  references := { methods := [⟨2⟩] }

def run : MethodDef :=
  { method := ⟨1⟩, access := { isPublic := true }, code := some (.register body) }

def help : MethodDef :=
  { method := ⟨2⟩, access := { isPrivate := true } }

def idle : MethodDef :=
  { method := ⟨3⟩, access := { isPublic := true }, code := some (.register body) }

def holder : ClassDef where
  type := ⟨5⟩
  origin := .program
  super? := some .object
  directMethods := [help]
  virtualMethods := [run, idle]

def start : Session where
  program :=
    { interner := interner
      classes := [holder]
      hierarchy := Hierarchy.addClass { root := .object } holder }
  options := { keep := { methods := ["LA;->run()V"] } }

def finish : Session where
  program :=
    { interner := interner
      classes := [{ holder with
        access := { isPublic := true }
        directMethods := []
        virtualMethods := [run, idle, help.publicize] }]
      hierarchy := Hierarchy.addClass { root := .object } holder }
  options := start.options
  lens := identity.publish { name := "publicizer", methods := [(⟨2⟩, ⟨⟨2⟩, .publicized⟩)] }
  traced := some ⟨{ classes := [⟨5⟩, .object], methods := [⟨1⟩, ⟨2⟩] }, [], 5⟩

def summary : Summary where
  processedActions := 5
  publicizer := some
    { scannedMethods := 3, collectedSignatures := 1, promotedClasses := 1, publicizedMethods := 1 }
  lensDepth := 1

def decoded : List Instruction :=
  [⟨.invokeVirtual, .f35c 1 0 0 0 0 0 0, rfl⟩, ⟨.returnVoid, .f10x, rfl⟩]

end Helper

open Helper in
/-- The kept method calls a private one, which is opened up. A method that nobody calls has no units. -/
theorem optimize_encodes_live_bodies_helper :
    optimize.run start = (.ok summary, finish) ∧ HasBody finish.program ⟨1⟩ body ∧
      ∃ units, finish.encodeMethod ⟨1⟩ = .ok (some units) ∧
      units.length = body.size ∧ Instruction.decodeAll units = .ok decoded ∧
      List.Forall₂ (Reopened (IsOpenedUp start.program finish.program) body.references)
        body.instructions decoded ∧
      finish.encodeMethod ⟨3⟩ = .ok none := by
  have distinct : start.program.IsDistinct := ⟨by decide, by decide, by decide⟩
  have instructions : ∀ instruction ∈ body.instructions, instruction.IsObtained := by
    intro instruction member
    rcases List.mem_pair.mp member with rfl | rfl
    · exact Or.inl ⟨.invokeDirect, .f35c 0 [0], rfl⟩
    · exact Or.inl ⟨.returnVoid, .f10x, rfl⟩
  have obtained : BodiesObtained start.program := by
    intro owner member definition declared code has
    cases List.mem_singleton.mp member
    have same : code = body := by
      simp only [ClassDef.methods, holder, List.cons_append, List.nil_append, List.mem_cons,
        List.not_mem_nil, or_false] at declared
      rcases declared with rfl | rfl | rfl
      · cases has
      · cases has
        rfl
      · cases has
        rfl
    rw [same]
    exact instructions
  have success : optimize.run start = (.ok summary, finish) := by
    cbv
  have has : HasBody finish.program ⟨1⟩ body := ⟨_, rfl, rfl, rfl⟩
  obtain ⟨result, stored, -, live, dead⟩ :=
    optimize_encodes_live_bodies distinct obtained success
  cases stored
  obtain ⟨units, list, encoded, width, read, reopened⟩ := live ⟨1⟩ body rfl has
  have known : finish.encodeMethod ⟨1⟩ = .ok (some (Instruction.encodeAll decoded)) := by
    cbv
  have readBack : Instruction.decodeAll (Instruction.encodeAll decoded) = .ok decoded := by
    cbv
  rw [known] at encoded
  cases encoded
  rw [readBack] at read
  cases read
  exact ⟨success, has, _, known, width, readBack, reopened, dead ⟨3⟩ rfl⟩

end Shrinker.Session

import Shrinker.Proofs.Lens.Bodies
import Shrinker.Proofs.Program.Found
import Shrinker.Proofs.Publicizer.Dispatch

namespace Shrinker.Publicizer

open Bytecode Reference Program Collection Success

def State.IsCounted (state : State) : Prop :=
  state.level.methods.length = state.stats.publicizedMethods

section Counts

variable {publicizer : Publicizer} {interner : Interner} {holder : ClassDef} {state next : State}

theorem State.IsCounted.applyVerdict {definition changed : MethodDef} {verdict : Verdict}
    (counted : state.IsCounted)
    (done : applyVerdict interner definition state verdict = .ok (changed, next)) :
    next.IsCounted := by
  cases verdict with
  | publicize =>
      simp only [Publicizer.applyVerdict] at done
      split at done
      · cases done
      · rename_i level recorded
        cases done
        obtain ⟨-, -, methods, accepted, rfl⟩ := Lens.Level.recordMethod_eq_ok.mp recorded
        obtain ⟨-, -, rfl⟩ := Lens.Entries.record_eq_ok.mp accepted
        simpa [IsCounted] using counted
  | leave | promote | skipPinned | skipCollision =>
      cases done
      exact counted

theorem State.IsCounted.publicizeMethods {definitions changed : List MethodDef}
    {opened : List MethodId} (counted : state.IsCounted)
    (done : publicizer.publicizeMethods interner holder definitions state =
      .ok (changed, opened, next)) : next.IsCounted := by
  induction definitions generalizing state changed opened with
  | nil =>
      cases done
      exact counted
  | cons definition definitions ih =>
      obtain ⟨first, middle, rest, openedRest, applied, restDone, -, -⟩ :=
        publicizeMethods_cons_eq_ok.mp done
      exact ih (counted.applyVerdict applied) restDone

theorem State.IsCounted.publicizeClass {changed : ClassDef} (counted : state.IsCounted)
    (done : publicizer.publicizeClass interner holder state = .ok (changed, next)) :
    next.IsCounted := by
  unfold Publicizer.publicizeClass at done
  obtain ⟨⟨direct, openedDirect, middle⟩, directDone, continued⟩ := bind_eq_ok.mp done
  obtain ⟨⟨virtual, openedVirtual, last⟩, virtualDone, assembled⟩ := bind_eq_ok.mp continued
  cases assembled
  have methods : last.IsCounted :=
    (counted.publicizeMethods directDone).publicizeMethods virtualDone
  exact methods

theorem State.IsCounted.publicizeType {type : TypeId} {program changed : Program}
    (counted : state.IsCounted)
    (done : publicizer.publicizeType type program state = .ok (changed, next)) :
    next.IsCounted := by
  unfold Publicizer.publicizeType at done
  split at done
  · cases done
    exact counted
  · split at done
    · obtain ⟨⟨definition, last⟩, classDone, assembled⟩ := bind_eq_ok.mp done
      cases assembled
      exact counted.publicizeClass classDone
    · cases done
      exact counted

theorem State.IsCounted.publicizeTypes {types : List TypeId} {program changed : Program}
    (counted : state.IsCounted)
    (done : publicizer.publicizeTypes types program state = .ok (changed, next)) :
    next.IsCounted := by
  induction types generalizing program state with
  | nil =>
      cases done
      exact counted
  | cons type types ih =>
      obtain ⟨⟨middle, visited⟩, first, rest⟩ := bind_eq_ok.mp done
      exact ih (counted.publicizeType first) rest

theorem exists_level_of_run {program : Program} {previous : Lens} {outcome : Outcome}
    (success : publicizer.run program previous = .ok outcome) :
    ∃ level, outcome.lens = previous.publish level ∧
      level.methods.length = outcome.stats.publicizedMethods := by
  obtain ⟨-, -, started⟩ := bind_eq_ok.mp success
  obtain ⟨⟨changed, finish⟩, done, assembled⟩ := bind_eq_ok.mp started
  cases assembled
  have start : State.IsCounted
      { pool := publicizer.collectSignatures program
        level := { name := "publicizer" }
        stats :=
          { scannedMethods := publicizer.scannedMethods program
            collectedSignatures := (publicizer.collectSignatures program).size } } := rfl
  exact ⟨finish.level, rfl, start.publicizeTypes done⟩

end Counts

def IsBuilt (definition : ClassDef) : Prop :=
  ∃ (bare : ClassDef) (methods : List MethodDef), bare.directMethods = [] ∧
    bare.virtualMethods = [] ∧ methods.foldl ClassDef.addMethod bare = definition

/-- Every method stands in the list that it belongs to. -/
structure IsPlaced (definition : ClassDef) : Prop where
  direct : ∀ method ∈ definition.directMethods, method.isDirect = true
  virtual : ∀ method ∈ definition.virtualMethods, method.isDirect = false

theorem IsPlaced.addMethod {definition : ClassDef} (placed : IsPlaced definition)
    (added : MethodDef) : IsPlaced (definition.addMethod added) := by
  unfold ClassDef.addMethod
  split
  · rename_i direct
    refine ⟨?_, placed.virtual⟩
    intro method listed
    rcases List.mem_append.mp listed with old | new
    · exact placed.direct method old
    · cases List.mem_singleton.mp new
      exact direct
  · rename_i virtual
    refine ⟨placed.direct, ?_⟩
    intro method listed
    rcases List.mem_append.mp listed with old | new
    · exact placed.virtual method old
    · cases List.mem_singleton.mp new
      simpa using virtual

theorem IsPlaced.foldl_addMethod {definition : ClassDef} (placed : IsPlaced definition)
    (methods : List MethodDef) : IsPlaced (methods.foldl ClassDef.addMethod definition) := by
  induction methods generalizing definition with
  | nil => exact placed
  | cons first methods ih => exact ih (placed.addMethod first)

theorem IsBuilt.isPlaced {definition : ClassDef} (built : IsBuilt definition) :
    IsPlaced definition := by
  obtain ⟨bare, methods, noDirect, noVirtual, rfl⟩ := built
  exact IsPlaced.foldl_addMethod ⟨by simp [noDirect], by simp [noVirtual]⟩ methods

theorem IsBuilt.isPrivate_eq_false {definition : ClassDef} (built : IsBuilt definition)
    {method : MethodDef} (listed : method ∈ definition.virtualMethods) :
    method.access.isPrivate = false := by
  have placed := built.isPlaced.virtual method listed
  simp only [MethodDef.isDirect, Bool.or_eq_false_iff] at placed
  exact placed.1.1

/-- The method has gone from the direct methods of the class to the virtual ones. -/
structure HasMoved (before after : ClassDef) (method : MethodId) : Prop where
  wasDirect : method ∈ before.directMethods.map (·.method)
  wasNotVirtual : method ∉ before.virtualMethods.map (·.method)
  isVirtual : method ∈ after.virtualMethods.map (·.method)
  isNotDirect : method ∉ after.directMethods.map (·.method)

/-- A private method that runs on an object has become public and final, and is marked so. -/
structure IsPublicized (before after : MethodDef) : Prop where
  wasPrivate : before.access.isPrivate
  wasInstance : before.access.isStatic = false
  isPublic : after.access.isPublic
  isFinal : after.access.isFinal
  isOpen : after.access.isPrivate = false
  isMarked : after.publicized

section Found

variable {publicizer : Publicizer} {program : Program} {holder : ClassDef}
  {definition : MethodDef}

theorem nodup_method_finalClass (distinct : program.IsDistinct)
    (member : holder ∈ program.classes) :
    ((publicizer.finalClass program holder).methods.map (·.method)).Nodup :=
  (map_method_openVisited_perm ..).nodup_iff.mpr (distinct.methods holder member)

theorem definition?_finalClass (distinct : program.IsDistinct) (member : holder ∈ program.classes) :
    (program.reshape (publicizer.finalClass program)).definition? holder.type =
      some (publicizer.finalClass program holder) := by
  rw [keepsEdges_finalClass.definition?_reshape, distinct.definition?_eq_some.mpr ⟨member, rfl⟩]
  rfl

theorem method?_finalClass (distinct : program.IsDistinct) (member : holder ∈ program.classes)
    (declared : definition ∈ holder.methods) :
    (publicizer.finalClass program holder).method? definition.method =
      some (publicizer.finalMethod program holder definition) :=
  (Keyed.find?_eq_some_iff (nodup_method_finalClass distinct member)).mpr
    ⟨mem_methods_finalClass.mpr ⟨definition, declared, rfl⟩, method_finalMethod⟩

theorem methodDefinition?_finalClass (distinct : program.IsDistinct) {method : MethodId}
    {hit : MethodHit} :
    (program.reshape (publicizer.finalClass program)).methodDefinition? method = some hit ↔
      ∃ old, program.methodDefinition? method = some old ∧
        hit.holder = publicizer.finalClass program old.holder ∧
        hit.definition = publicizer.finalMethod program old.holder old.definition := by
  rw [methodDefinition?_eq_some, keepsEdges_finalClass.definition?_reshape]
  constructor
  · rintro ⟨defined, declared⟩
    obtain ⟨holder, known, same⟩ := Option.map_eq_some_iff.mp defined
    have member := (mem_of_definition? known).1
    rw [← same] at declared
    obtain ⟨definition, listed, changed⟩ :=
      mem_methods_finalClass.mp (List.mem_of_find?_eq_some declared)
    have named : definition.method = method := by
      rw [← method_finalMethod, changed]
      simpa using List.find?_some declared
    refine ⟨⟨holder, definition⟩, methodDefinition?_eq_some.mpr ⟨known, ?_⟩, same.symm, changed.symm⟩
    exact (Keyed.find?_eq_some_iff (distinct.methods holder member)).mpr ⟨listed, named⟩
  · rintro ⟨old, known, holder, definition⟩
    obtain ⟨defined, -⟩ := methodDefinition?_eq_some.mp known
    obtain ⟨declared, rfl⟩ := declared_of_methodDefinition? known
    refine ⟨Option.map_eq_some_iff.mpr ⟨old.holder, defined, holder.symm⟩, ?_⟩
    rw [holder, definition]
    exact method?_finalClass distinct declared.holder declared.definition

end Found

section Lists

variable {publicizer : Publicizer} {program : Program} {holder : ClassDef}
  {definition : MethodDef}

theorem isPublicized_iff (distinct : program.IsDistinct) (member : holder ∈ program.classes)
    (declared : definition ∈ holder.methods) :
    IsPublicized definition (publicizer.finalMethod program holder definition) ↔
      (⟨holder.type, definition.method⟩ : Slot) ∈ publicizer.openedSlots program := by
  constructor
  · intro publicized
    rcases opened_or_shared publicized.isOpen with opened | shared
    · exact opened
    · simp [publicized.wasPrivate, publicized.wasInstance] at shared
  · intro opened
    obtain ⟨-, wasPrivate, -, wasInstance, -⟩ :=
      isCandidate_iff.mp (isCandidate_of_opened distinct member declared opened)
    rw [finalMethod_of_opened distinct member declared opened]
    exact ⟨wasPrivate, wasInstance, rfl, rfl, rfl, rfl⟩

theorem map_method_virtualMethods_finalClass (distinct : program.IsDistinct)
    (member : holder ∈ program.classes) :
    (publicizer.finalClass program holder).virtualMethods.map (·.method) =
      (holder.virtualMethods ++ publicizer.openedMethods program holder).map (·.method) := by
  rw [virtualMethods_finalClass distinct member, List.map_map]
  exact List.map_congr_left fun _ _ => method_finalMethod

theorem notMem_virtualMethods_of_direct {holder : ClassDef}
    (distinct : (holder.methods.map (·.method)).Nodup) {method : MethodId}
    (direct : method ∈ holder.directMethods.map (·.method)) :
    method ∉ holder.virtualMethods.map (·.method) := by
  rw [ClassDef.methods, List.map_append] at distinct
  intro virtual
  exact (List.nodup_append.mp distinct).2.2 method direct method virtual rfl

theorem mem_virtualMethods_finalClass_iff (distinct : program.IsDistinct)
    (member : holder ∈ program.classes) (direct : definition ∈ holder.directMethods) :
    definition.method ∈ (publicizer.finalClass program holder).virtualMethods.map (·.method) ↔
      (⟨holder.type, definition.method⟩ : Slot) ∈ publicizer.openedSlots program := by
  have before := notMem_virtualMethods_of_direct (distinct.methods holder member)
    (List.mem_map_of_mem direct)
  rw [map_method_virtualMethods_finalClass distinct member, List.map_append, List.mem_append,
    or_iff_right before]
  constructor
  · intro listed
    obtain ⟨other, opened, same⟩ := List.mem_map.mp listed
    rw [← same]
    exact (mem_openedMethods.mp opened).2
  · intro opened
    exact List.mem_map_of_mem (mem_openedMethods.mpr ⟨direct, opened⟩)

theorem hasMoved_iff (distinct : program.IsDistinct) (member : holder ∈ program.classes)
    (built : IsBuilt holder) (declared : definition ∈ holder.methods) :
    HasMoved holder (publicizer.finalClass program holder) definition.method ↔
      (⟨holder.type, definition.method⟩ : Slot) ∈ publicizer.openedSlots program := by
  constructor
  · intro moved
    obtain ⟨other, direct, same⟩ := List.mem_map.mp moved.wasDirect
    cases distinct.eq_of_method member (List.mem_append_left _ direct) declared same
    exact (mem_virtualMethods_finalClass_iff distinct member direct).mp moved.isVirtual
  · intro opened
    have isCandidate := isCandidate_of_opened distinct member declared opened
    have direct : definition ∈ holder.directMethods := by
      refine (List.mem_append.mp declared).resolve_right ?_
      intro virtual
      have isPrivate := (isCandidate_iff.mp isCandidate).2.1
      rw [built.isPrivate_eq_false virtual] at isPrivate
      cases isPrivate
    have wasDirect := List.mem_map_of_mem (f := MethodDef.method) direct
    have isVirtual := (mem_virtualMethods_finalClass_iff distinct member direct).mpr opened
    refine ⟨wasDirect, notMem_virtualMethods_of_direct (distinct.methods holder member) wasDirect,
      isVirtual, ?_⟩
    intro direct
    exact notMem_virtualMethods_of_direct (nodup_method_finalClass distinct member) direct isVirtual

end Lists

/-- Every method of a class names the class as its holder. -/
def NamesHolders (program : Program) : Prop :=
  ∀ holder ∈ program.classes, ∀ definition ∈ holder.methods,
    (program.interner.method definition.method).holder = holder.type

section Level

variable {publicizer : Publicizer} {program : Program} {holder : ClassDef}
  {definition : MethodDef}

def openedLevel (publicizer : Publicizer) (program : Program) : Lens.Level :=
  record { name := "publicizer" } (publicizer.openedSlots program)

theorem mem_openedLevel {entry : MethodId × Lens.Entry MethodId} :
    entry ∈ (publicizer.openedLevel program).methods ↔
      ∃ slot ∈ publicizer.openedSlots program, entry = (slot.method, ⟨slot.method, .publicized⟩) := by
  simp only [openedLevel, record, List.nil_append, List.mem_map, eq_comm]

theorem entry_of_mem_openedLevel {entry : MethodId × Lens.Entry MethodId}
    (listed : entry ∈ (publicizer.openedLevel program).methods) :
    entry.2 = ⟨entry.1, .publicized⟩ := by
  obtain ⟨slot, -, rfl⟩ := mem_openedLevel.mp listed
  rfl

theorem nodup_openedLevel (publicizer : Publicizer) (program : Program) :
    ((publicizer.openedLevel program).methods.map (·.1)).Nodup := by
  have signatures : (((publicizer.openedSlots program).map (·.method)).map
      program.interner.signature).Nodup := by
    rw [List.map_map]
    exact nodup_signature_claim ..
  have methods := signatures.of_map
  simpa [openedLevel, record, Function.comp_def] using methods

theorem isSome_lookup_openedLevel {method : MethodId} :
    ((publicizer.openedLevel program).methods.lookup method).isSome ↔
      ∃ slot ∈ publicizer.openedSlots program, slot.method = method := by
  constructor
  · intro known
    obtain ⟨entry, found⟩ := Option.isSome_iff_exists.mp known
    obtain ⟨slot, opened, same⟩ := mem_openedLevel.mp (Lens.Entries.mem_of_lookup found)
    exact ⟨slot, opened, (Prod.mk.inj same).1.symm⟩
  · rintro ⟨slot, opened, rfl⟩
    have listed := mem_openedLevel.mpr ⟨slot, opened, rfl⟩
    rw [Option.isSome_iff_ne_none]
    intro unknown
    simpa using List.lookup_eq_none_iff.mp unknown _ listed

theorem isSome_lookup_openedLevel_iff (names : NamesHolders program)
    (member : holder ∈ program.classes) (declared : definition ∈ holder.methods) :
    ((publicizer.openedLevel program).methods.lookup definition.method).isSome ↔
      (⟨holder.type, definition.method⟩ : Slot) ∈ publicizer.openedSlots program := by
  rw [isSome_lookup_openedLevel]
  constructor
  · rintro ⟨slot, opened, same⟩
    -- two classes cannot both have a method that names its holder
    obtain ⟨-, owner, listed, sameType, -, other, otherDeclared, named, -⟩ :=
      exists_of_mem_openedSlots opened
    have shared : slot.type = holder.type := by
      rw [← sameType, ← names owner listed other otherDeclared, named, same,
        names holder member definition declared]
    rw [← shared, ← same]
    exact opened
  · intro opened
    exact ⟨_, opened, rfl⟩

theorem invokeKind_openedLevel {method : MethodId} :
    ((Lens.identity.publish (publicizer.openedLevel program)).lookupMethod method).invokeKind
        .direct = .virtual ↔
      ((publicizer.openedLevel program).methods.lookup method).isSome := by
  rw [Lens.lookupMethod_single, Lens.Entries.consult]
  cases known : (publicizer.openedLevel program).methods.lookup method with
  | none => simp
  | some entry =>
      have same := entry_of_mem_openedLevel (Lens.Entries.mem_of_lookup known)
      dsimp only at same
      subst same
      simp [Lens.Lookup.invokeKind, Lens.ChangeSet.insert]

end Level

/-- After a pass over a program whose methods name their holders, a method was opened up exactly if it has
moved to the virtual methods, and exactly if the new level has an entry for it. All entries of the level
are of this kind and are counted, and without older levels the calls that get dispatch are those of the
methods that moved. -/
theorem publicized_records_agree {publicizer : Publicizer} {program : Program} {previous : Lens}
    {outcome : Outcome} (distinct : program.IsDistinct)
    (built : ∀ holder ∈ program.classes, IsBuilt holder) (names : NamesHolders program)
    (success : publicizer.run program previous = .ok outcome) :
    ∃ level, outcome.lens = previous.publish level ∧
      (∀ holder ∈ program.programClasses, ∀ definition ∈ holder.methods,
        ∃ changed final, outcome.program.definition? holder.type = some changed ∧
          changed.method? definition.method = some final ∧
          (IsPublicized definition final ↔ HasMoved holder changed definition.method) ∧
          (HasMoved holder changed definition.method ↔
            (level.methods.lookup definition.method).isSome)) ∧
      (∀ entry ∈ level.methods, entry.2 = ⟨entry.1, .publicized⟩) ∧ level.fields = [] ∧
      (level.methods.map (·.1)).Nodup ∧
      level.methods.length = outcome.stats.publicizedMethods ∧
      (previous = .identity → ∀ holder ∈ program.classes, ∀ definition ∈ holder.directMethods,
        ∃ changed, outcome.program.definition? holder.type = some changed ∧
          ((outcome.lens.lookupMethod definition.method).invokeKind .direct = .virtual ↔
            definition.method ∈ changed.virtualMethods.map (·.method))) := by
  have level : outcome.lens = previous.publish (publicizer.openedLevel program) :=
    lens_of_run distinct success
  rw [program_of_run distinct success]
  refine ⟨_, level, ?_, fun _ => entry_of_mem_openedLevel, rfl, nodup_openedLevel .., ?_, ?_⟩
  · intro holder listed definition declared
    have member := List.mem_of_mem_filter listed
    refine ⟨_, _, definition?_finalClass distinct member,
      method?_finalClass distinct member declared, ?_, ?_⟩
    · rw [isPublicized_iff distinct member declared,
        hasMoved_iff distinct member (built holder member) declared]
    · rw [hasMoved_iff distinct member (built holder member) declared,
        isSome_lookup_openedLevel_iff names member declared]
  · obtain ⟨counted, published, count⟩ := exists_level_of_run success
    rw [level] at published
    have same : publicizer.openedLevel program = counted := by
      simpa [Lens.publish] using published
    rw [same]
    exact count
  · rintro rfl holder member definition direct
    refine ⟨_, definition?_finalClass distinct member, ?_⟩
    rw [level, invokeKind_openedLevel,
      isSome_lookup_openedLevel_iff names member (List.mem_append_left _ direct),
      mem_virtualMethods_finalClass_iff distinct member direct]

open Rivals in
/-- Of two private methods with one signature the upper one is opened up. Its calls get dispatch, those of
the lower one do not. -/
theorem publicized_records_agree_rivals :
    ∃ outcome level, publicizer.run (programOf upper lower) .identity = .ok outcome ∧
      outcome.lens = Lens.identity.publish level ∧ level.methods.length = 1 ∧
      (∀ holder ∈ [upper, lower], ∀ definition ∈ holder.directMethods,
        ∃ changed, outcome.program.definition? holder.type = some changed ∧
          ((outcome.lens.lookupMethod definition.method).invokeKind .direct = .virtual ↔
            definition.method ∈ changed.virtualMethods.map (·.method))) := by
  have distinct : (programOf upper lower).IsDistinct := ⟨by decide, by decide, by decide⟩
  have built : ∀ holder ∈ (programOf upper lower).classes, IsBuilt holder := by
    intro holder member
    rcases List.mem_pair.mp member with rfl | rfl
    · exact ⟨{ upper with directMethods := [] }, [upperRun], rfl, rfl, rfl⟩
    · exact ⟨{ lower with directMethods := [] }, [lowerRun], rfl, rfl, rfl⟩
  have names : NamesHolders (programOf upper lower) := by
    unfold NamesHolders
    decide
  have success : publicizer.run (programOf upper lower) .identity = .ok _ :=
    run_eq distinct rfl .identity
  obtain ⟨level, published, -, -, -, -, count, calls⟩ :=
    publicized_records_agree distinct built names success
  refine ⟨_, level, success, published, ?_, calls rfl⟩
  rw [count]
  cbv

end Shrinker.Publicizer

import Mathlib
import Shrinker.Proofs.Publicizer.Outcome

namespace Shrinker.Publicizer

open Reference Program

def finalMethod (publicizer : Publicizer) (program : Program) (holder : ClassDef)
    (definition : MethodDef) : MethodDef :=
  if holder.type ∈ visitOrder program.hierarchy ∧ publicizer.works holder then
    publicizer.settle program.interner holder (publicizer.openedSlots program) definition
  else
    definition

section Methods

variable {publicizer : Publicizer} {program : Program} {holder : ClassDef}
  {definition : MethodDef}

@[simp] theorem method_finalMethod :
    (publicizer.finalMethod program holder definition).method = definition.method := by
  unfold finalMethod
  split
  · exact method_settle ..
  · rfl

theorem code_finalMethod :
    (publicizer.finalMethod program holder definition).code = definition.code := by
  unfold finalMethod
  split
  · exact code_carryOut ..
  · rfl

theorem keepsEdges_finalClass : KeepsEdges (publicizer.finalClass program) :=
  keepsEdges_openVisited ..

@[simp] theorem type_finalClass :
    (publicizer.finalClass program holder).type = holder.type :=
  keepsEdges_finalClass.type holder

theorem isProgram_finalClass :
    (publicizer.finalClass program holder).isProgram = holder.isProgram := by
  unfold finalClass openVisited
  split <;> rfl

@[simp] theorem works_finalClass :
    publicizer.works (publicizer.finalClass program holder) = publicizer.works holder := by
  simp only [works, type_finalClass, isProgram_finalClass]

theorem mem_methods_finalClass {method : MethodDef} :
    method ∈ (publicizer.finalClass program holder).methods ↔
      ∃ definition ∈ holder.methods,
        publicizer.finalMethod program holder definition = method := by
  unfold finalClass openVisited finalMethod
  split
  · rw [(methods_openClass_perm ..).mem_iff, List.mem_map]
  · simp

theorem opened_or_shared
    (isOpen : (publicizer.finalMethod program holder definition).access.isPrivate = false) :
    (⟨holder.type, definition.method⟩ : Slot) ∈ publicizer.openedSlots program ∨
      (!definition.access.isPrivate || definition.access.isStatic) = true := by
  unfold finalMethod at isOpen
  split at isOpen
  · unfold settle at isOpen
    cases decided : publicizer.decision program.interner holder (publicizer.openedSlots program)
      definition with
    | publicize => exact Or.inl (decision_eq_publicize.mp decided).2
    | promote => exact Or.inr (shared_of_decision_eq_promote decided)
    | _ =>
        rw [decided] at isOpen
        exact Or.inr (by simp [show definition.access.isPrivate = false from isOpen])
  · exact Or.inr (by simp [isOpen])

end Methods

section Signatures

variable {publicizer : Publicizer} {program : Program} {signature : Signature}

theorem mem_collectSignatures :
    signature ∈ (publicizer.collectSignatures program).entries ↔
      ∃ holder ∈ program.classes, publicizer.works holder ∧
        ∃ definition ∈ holder.methods, publicizer.usesSignature definition ∧
          program.interner.signature definition.method = signature := by
  simp only [collectSignatures, mem_entries_foldl_insert, Table.empty, List.not_mem_nil, false_or,
    List.mem_flatMap, liveClasses, programClasses, classSignatures, List.mem_filter, List.mem_map,
    works, Bool.and_eq_true]
  constructor
  · intro inUse
    obtain ⟨holder, ⟨⟨member, origin⟩, live⟩, definition, ⟨listed, uses⟩, rfl⟩ := inUse
    exact ⟨holder, member, ⟨live, origin⟩, definition, listed, uses, rfl⟩
  · intro inUse
    obtain ⟨holder, member, ⟨live, origin⟩, definition, listed, uses, rfl⟩ := inUse
    exact ⟨holder, ⟨⟨member, origin⟩, live⟩, definition, ⟨listed, uses⟩, rfl⟩

theorem exists_of_mem_openedSlots {slot : Slot} (opened : slot ∈ publicizer.openedSlots program) :
    slot.type ∈ visitOrder program.hierarchy ∧
      ∃ holder ∈ program.classes, holder.type = slot.type ∧ publicizer.works holder ∧
        ∃ definition ∈ holder.methods, definition.method = slot.method ∧
          publicizer.isCandidate program.interner holder definition := by
  have candidates := (claim_sublist _ _ _).subset opened
  obtain ⟨holder, visited, own⟩ := List.mem_flatMap.mp candidates
  obtain ⟨type, listed, found⟩ := List.mem_filterMap.mp visited
  obtain ⟨defined, worked⟩ := workClass?_eq_some.mp found
  obtain ⟨definition, declared, isCandidate, rfl⟩ := mem_slots.mp own
  exact ⟨type_mem_of_mem_typeSlots candidates, holder, (mem_of_definition? defined).1, rfl, worked,
    definition, declared, rfl, isCandidate⟩

theorem of_mem_openedSlots (distinct : program.IsDistinct) {holder : ClassDef} {method : MethodId}
    (member : holder ∈ program.classes)
    (opened : (⟨holder.type, method⟩ : Slot) ∈ publicizer.openedSlots program) :
    holder.type ∈ visitOrder program.hierarchy ∧ publicizer.works holder ∧
      ∃ definition ∈ holder.methods, definition.method = method ∧
        publicizer.isCandidate program.interner holder definition := by
  obtain ⟨visited, owner, listed, sameType, worked, candidate⟩ := exists_of_mem_openedSlots opened
  cases distinct.eq_of_type listed member sameType
  exact ⟨visited, worked, candidate⟩

theorem isCandidate_of_opened (distinct : program.IsDistinct) {holder : ClassDef}
    {definition : MethodDef} (member : holder ∈ program.classes)
    (declared : definition ∈ holder.methods)
    (opened : (⟨holder.type, definition.method⟩ : Slot) ∈ publicizer.openedSlots program) :
    publicizer.isCandidate program.interner holder definition := by
  obtain ⟨-, -, candidate, listed, sameMethod, isCandidate⟩ :=
    of_mem_openedSlots distinct member opened
  cases distinct.eq_of_method member listed declared sameMethod
  exact isCandidate

theorem finalMethod_of_opened (distinct : program.IsDistinct) {holder : ClassDef}
    {definition : MethodDef} (member : holder ∈ program.classes)
    (declared : definition ∈ holder.methods)
    (opened : (⟨holder.type, definition.method⟩ : Slot) ∈ publicizer.openedSlots program) :
    publicizer.finalMethod program holder definition = definition.publicize := by
  obtain ⟨visited, worked, -⟩ := of_mem_openedSlots distinct member opened
  rw [finalMethod, if_pos ⟨visited, worked⟩, settle, decision_eq_publicize.mpr
    ⟨isCandidate_of_opened distinct member declared opened, opened⟩]
  rfl

theorem signature_notMem_of_opened {slot : Slot} (opened : slot ∈ publicizer.openedSlots program) :
    program.interner.signature slot.method ∉ (publicizer.collectSignatures program).entries :=
  signature_notMem_of_mem_claim opened

theorem opened_injective {left right : Slot} (leftOpened : left ∈ publicizer.openedSlots program)
    (rightOpened : right ∈ publicizer.openedSlots program)
    (same : program.interner.signature left.method = program.interner.signature right.method) :
    left = right :=
  List.inj_on_of_nodup_map (nodup_signature_claim ..) leftOpened rightOpened same

end Signatures

/-- A method of a class after the pass that was private to its objects before and is now public, final
and subject to dispatch. -/
structure IsOpened (before : Program) (holder : ClassDef) (method : MethodDef) : Prop where
  wasPrivate : ∃ old ∈ before.classes, old.type = holder.type ∧
    ∃ definition ∈ old.methods, definition.method = method.method ∧
      definition.access.isPrivate ∧ definition.access.isStatic = false
  isVirtual : method ∈ holder.virtualMethods
  isPublic : method.access.isPublic
  isFinal : method.access.isFinal
  isOpen : method.access.isPrivate = false

structure IsInUse (publicizer : Publicizer) (program : Program) (holder : ClassDef)
    (definition : MethodDef) : Prop where
  isProgram : holder ∈ program.programClasses
  isLiveClass : publicizer.isLiveClass holder.type
  member : definition ∈ holder.methods
  isLive : publicizer.isLiveMethod definition.method

/-- Calls on an object of the class `lower` find its method instead of one of the class `upper` above
it. -/
structure Overrides (program : Program) (lower upper : ClassDef) (method overridden : MethodDef) :
    Prop where
  below : program.isSubtype lower.type upper.type
  apart : lower.type ≠ upper.type
  isVirtual : method ∈ lower.virtualMethods ∧ overridden ∈ upper.virtualMethods
  isOpen : method.access.isPrivate = false ∧ overridden.access.isPrivate = false
  signature : program.interner.signature method.method =
    program.interner.signature overridden.method

section Collisions

variable {publicizer : Publicizer} {program : Program} {holder : ClassDef} {method : MethodDef}

theorem IsInUse.origin
    (inUse : publicizer.IsInUse (program.reshape (publicizer.finalClass program)) holder method) :
    ∃ old ∈ program.classes, publicizer.works old ∧
      publicizer.finalClass program old = holder ∧
      ∃ definition ∈ old.methods, publicizer.isLiveMethod definition.method ∧
        publicizer.finalMethod program old definition = method := by
  obtain ⟨listed, isProgram⟩ := List.mem_filter.mp inUse.isProgram
  obtain ⟨old, member, rfl⟩ := List.mem_map.mp listed
  obtain ⟨definition, declared, rfl⟩ := mem_methods_finalClass.mp inUse.member
  refine ⟨old, member, ?_, rfl, definition, declared, ?_, rfl⟩
  · have worked : publicizer.works (publicizer.finalClass program old) := by
      rw [works, inUse.isLiveClass, isProgram]
      rfl
    rwa [works_finalClass] at worked
  · simpa using inUse.isLive

theorem signature_inUse_or_opened {old : ClassDef} {definition : MethodDef}
    (member : old ∈ program.classes) (worked : publicizer.works old)
    (declared : definition ∈ old.methods) (live : publicizer.isLiveMethod definition.method)
    (isOpen : (publicizer.finalMethod program old definition).access.isPrivate = false) :
    program.interner.signature definition.method ∈
        (publicizer.collectSignatures program).entries ∨
      (⟨old.type, definition.method⟩ : Slot) ∈ publicizer.openedSlots program := by
  rcases opened_or_shared isOpen with opened | shared
  · exact Or.inr opened
  · refine Or.inl (mem_collectSignatures.mpr ⟨old, member, worked, definition, declared, ?_, rfl⟩)
    simpa [usesSignature, live] using shared

theorem IsOpened.origin (distinct : program.IsDistinct)
    (member : holder ∈ (program.reshape (publicizer.finalClass program)).classes)
    (opened : IsOpened program holder method) :
    ∃ old ∈ program.classes, publicizer.finalClass program old = holder ∧
      ∃ definition ∈ old.methods,
        publicizer.finalMethod program old definition = method ∧
        (⟨old.type, definition.method⟩ : Slot) ∈ publicizer.openedSlots program := by
  obtain ⟨old, listed, rfl⟩ := List.mem_map.mp member
  obtain ⟨before, beforeListed, sameType, definition, declared, named, wasPrivate, wasOwn⟩ :=
    opened.wasPrivate
  have same : before = old := by
    rw [type_finalClass] at sameType
    exact distinct.eq_of_type beforeListed listed sameType
  subst same
  obtain ⟨source, sourceDeclared, rfl⟩ :=
    mem_methods_finalClass.mp (List.mem_append_right _ opened.isVirtual)
  have sameMethod : source = definition := by
    rw [method_finalMethod] at named
    exact distinct.eq_of_method listed sourceDeclared declared named.symm
  subst sameMethod
  rcases opened_or_shared opened.isOpen with claimed | shared
  · exact ⟨before, listed, rfl, source, declared, rfl, claimed⟩
  · simp [wasPrivate, wasOwn] at shared

theorem eq_of_signature_opened (distinct : program.IsDistinct)
    (member : holder ∈ (program.reshape (publicizer.finalClass program)).classes)
    (opened : IsOpened program holder method) {other : ClassDef} {rival : MethodDef}
    (inUse : publicizer.IsInUse (program.reshape (publicizer.finalClass program)) other rival)
    (isOpen : rival.access.isPrivate = false)
    (same : program.interner.signature rival.method =
      program.interner.signature method.method) :
    other = holder ∧ rival = method := by
  obtain ⟨old, listed, rfl, definition, declared, rfl, claimed⟩ := opened.origin distinct member
  obtain ⟨otherOld, otherListed, worked, rfl, rivalOld, rivalDeclared, live, rfl⟩ := inUse.origin
  simp only [method_finalMethod] at same
  rcases signature_inUse_or_opened otherListed worked rivalDeclared live isOpen with known | rivalClaimed
  · rw [same] at known
    exact absurd known (signature_notMem_of_opened claimed)
  · obtain ⟨sameType, sameMethod⟩ := Slot.mk.inj (opened_injective rivalClaimed claimed same)
    cases distinct.eq_of_type otherListed listed sameType
    cases distinct.eq_of_method listed rivalDeclared declared sameMethod
    exact ⟨rfl, rfl⟩

theorem IsOpened.isInUse (distinct : program.IsDistinct)
    (member : holder ∈ (program.reshape (publicizer.finalClass program)).classes)
    (opened : IsOpened program holder method) :
    publicizer.IsInUse (program.reshape (publicizer.finalClass program)) holder method := by
  obtain ⟨old, listed, rfl, definition, declared, rfl, claimed⟩ := opened.origin distinct member
  obtain ⟨-, worked, -⟩ := of_mem_openedSlots distinct listed claimed
  have finalWorked : publicizer.works (publicizer.finalClass program old) := by
    rwa [works_finalClass]
  obtain ⟨live, isProgram⟩ := Bool.and_eq_true_iff.mp finalWorked
  refine ⟨List.mem_filter.mpr ⟨member, isProgram⟩, live,
    List.mem_append_right _ opened.isVirtual, ?_⟩
  rw [method_finalMethod]
  exact (isCandidate_iff.mp (isCandidate_of_opened distinct listed declared claimed)).1

end Collisions

/-- An opened-up method is in use, and no other method in use that is not private has its signature. So no
two opened-up methods have one signature, and none overrides another method or is overridden. -/
theorem opened_signature_unique {publicizer : Publicizer} {program : Program} {previous : Lens}
    {outcome : Outcome} (distinct : program.IsDistinct)
    (success : publicizer.run program previous = .ok outcome) {holder : ClassDef}
    {method : MethodDef} (member : holder ∈ outcome.program.classes)
    (opened : IsOpened program holder method) :
    publicizer.IsInUse outcome.program holder method ∧
      (∀ other rival, publicizer.IsInUse outcome.program other rival →
        rival.access.isPrivate = false →
        outcome.program.interner.signature rival.method =
          outcome.program.interner.signature method.method →
        other = holder ∧ rival = method) ∧
      (∀ other ∈ outcome.program.classes, ∀ rival, IsOpened program other rival →
        outcome.program.interner.signature rival.method =
          outcome.program.interner.signature method.method →
        other = holder ∧ rival = method) ∧
      (∀ other rival, publicizer.IsInUse outcome.program other rival →
        ¬ Overrides outcome.program other holder rival method ∧
          ¬ Overrides outcome.program holder other method rival) := by
  rw [program_of_run distinct success] at member ⊢
  refine ⟨opened.isInUse distinct member, ?_, ?_, ?_⟩
  · intro other rival inUse isOpen same
    exact eq_of_signature_opened distinct member opened inUse isOpen same
  · intro other otherMember rival rivalOpened same
    exact eq_of_signature_opened distinct member opened
      (rivalOpened.isInUse distinct otherMember) rivalOpened.isOpen same
  · intro other rival inUse
    constructor
    · intro overrides
      have same := eq_of_signature_opened distinct member opened inUse overrides.isOpen.1
        overrides.signature
      exact overrides.apart (congrArg ClassDef.type same.1)
    · intro overrides
      have same := eq_of_signature_opened distinct member opened inUse overrides.isOpen.2
        overrides.signature.symm
      exact overrides.apart (congrArg ClassDef.type same.1).symm

namespace Rivals

/-- The references `LA;->run()V` and `LB;->run()V`. -/
def interner : Interner :=
  let (upper, interner) := Interner.standard.internType "LA;"
  let (lower, interner) := interner.internType "LB;"
  let (name, interner) := interner.internSymbol "run"
  let (proto, interner) := interner.internProto ⟨[], .void⟩
  let (_, interner) := interner.internMethod ⟨upper, name, proto⟩
  (interner.internMethod ⟨lower, name, proto⟩).2

def upperRun : MethodDef :=
  { method := ⟨1⟩, access := { isPrivate := true } }

def lowerRun : MethodDef :=
  { method := ⟨2⟩, access := { isPrivate := true } }

def upper : ClassDef :=
  { type := ⟨5⟩, origin := .program, super? := some .object, directMethods := [upperRun] }

def lower : ClassDef :=
  { type := ⟨6⟩, origin := .program, super? := some ⟨5⟩, directMethods := [lowerRun] }

def programOf (upper lower : ClassDef) : Program where
  interner := interner
  classes := [upper, lower]
  hierarchy := (Hierarchy.addClass { root := .object } upper).addClass lower

def publicizer : Publicizer :=
  { keep := ({} : Liveness.Roots).oracle }

end Rivals

open Rivals in
/-- The method of the upper class is visited first and opened up; the lower one stays private. -/
theorem opened_signature_unique_rivals :
    ∃ outcome, publicizer.run (programOf upper lower) .identity = .ok outcome ∧
      ∃ holder ∈ outcome.program.classes,
        IsOpened (programOf upper lower) holder upperRun.publicize ∧
        ∀ other rival, publicizer.IsInUse outcome.program other rival →
          rival.access.isPrivate = false →
          outcome.program.interner.signature rival.method =
            outcome.program.interner.signature upperRun.publicize.method →
          other = holder ∧ rival = upperRun.publicize := by
  have distinct : (programOf upper lower).IsDistinct := ⟨by decide, by decide, by decide⟩
  have success : publicizer.run (programOf upper lower) .identity = .ok _ :=
    run_eq distinct rfl .identity
  have virtual : (publicizer.finalClass (programOf upper lower) upper).virtualMethods =
      [upperRun.publicize] := by
    cbv
  have member : publicizer.finalClass (programOf upper lower) upper ∈
      ((programOf upper lower).reshape
        (publicizer.finalClass (programOf upper lower))).classes :=
    List.mem_map.mpr ⟨upper, by decide, rfl⟩
  have opened : IsOpened (programOf upper lower)
      (publicizer.finalClass (programOf upper lower) upper) upperRun.publicize :=
    { wasPrivate := ⟨upper, by decide, type_finalClass.symm, upperRun, by decide, rfl, rfl, rfl⟩
      isVirtual := by rw [virtual]; exact List.mem_singleton_self _
      isPublic := rfl
      isFinal := rfl
      isOpen := rfl }
  exact ⟨_, success, _, member, opened,
    (opened_signature_unique distinct success member opened).2.1⟩

end Shrinker.Publicizer

import Mathlib.Data.List.TakeWhile
import Shrinker.Proofs.Publicizer.Collision

/-!
Dispatch before and after the pass. Methods that are opened up join those that dispatch searches, behind
the ones that were there. A call changes its target exactly if a class on the way has got a method of the
signature in this manner, which the methods of the program itself are protected against and those of
libraries are not.
-/
namespace Shrinker.Publicizer

open Reference Program

def openedMethods (publicizer : Publicizer) (program : Program) (holder : ClassDef) :
    List MethodDef :=
  holder.directMethods.filter fun definition =>
    (⟨holder.type, definition.method⟩ : Slot) ∈ publicizer.openedSlots program

section Virtual

variable {publicizer : Publicizer} {program : Program} {holder : ClassDef}
  {definition : MethodDef}

theorem mem_openedMethods :
    definition ∈ publicizer.openedMethods program holder ↔
      definition ∈ holder.directMethods ∧
        (⟨holder.type, definition.method⟩ : Slot) ∈ publicizer.openedSlots program := by
  rw [openedMethods, List.mem_filter, decide_eq_true_iff]

theorem virtualMethods_finalClass (distinct : program.IsDistinct)
    (member : holder ∈ program.classes) :
    (publicizer.finalClass program holder).virtualMethods =
      (holder.virtualMethods ++ publicizer.openedMethods program holder).map
        (publicizer.finalMethod program holder) := by
  unfold finalClass openVisited finalMethod
  split
  · simp only [openClass, openedMethods, List.map_append, List.filter_map]
    congr 3
    funext definition
    simp
  · rename_i untouched
    have none : publicizer.openedMethods program holder = [] := by
      refine List.filter_eq_nil_iff.mpr ?_
      intro definition _ opened
      obtain ⟨visited, worked, -⟩ :=
        of_mem_openedSlots distinct member (of_decide_eq_true opened)
      exact untouched ⟨visited, worked⟩
    rw [none]
    simp

theorem isOpened_of_mem_openedMethods (distinct : program.IsDistinct)
    (member : holder ∈ program.classes)
    (opened : definition ∈ publicizer.openedMethods program holder) :
    IsOpened program (publicizer.finalClass program holder)
      (publicizer.finalMethod program holder definition) := by
  obtain ⟨declared, claimed⟩ := mem_openedMethods.mp opened
  have listed : definition ∈ holder.methods := List.mem_append_left _ declared
  have isCandidate := isCandidate_of_opened distinct member listed claimed
  obtain ⟨-, wasPrivate, -, wasOwn, -⟩ := isCandidate_iff.mp isCandidate
  refine ⟨⟨holder, member, type_finalClass.symm, definition, listed, method_finalMethod.symm,
    wasPrivate, wasOwn⟩, ?_, ?_, ?_, ?_⟩
  · rw [virtualMethods_finalClass distinct member]
    exact List.mem_map_of_mem (List.mem_append_right _ opened)
  all_goals
    rw [finalMethod_of_opened distinct member listed claimed]
    rfl

end Virtual

/-- The classes that a dispatch goes past: those before the first one with a virtual method of the
signature. -/
def passedOver (program : Program) (type : TypeId) (signature : Signature) : List ClassDef :=
  (program.searchOrder type).takeWhile fun holder =>
    (program.dispatchIn? signature holder).isNone

def Captures (publicizer : Publicizer) (program : Program) (signature : Signature)
    (holder : ClassDef) : Prop :=
  ∃ definition ∈ publicizer.openedMethods program holder,
    program.interner.signature definition.method = signature

section Searches

variable {publicizer : Publicizer} {program : Program} {signature : Signature}
  {holder : ClassDef}

theorem dispatchIn?_finalClass (distinct : program.IsDistinct)
    (member : holder ∈ program.classes) :
    (program.reshape (publicizer.finalClass program)).dispatchIn? signature
        (publicizer.finalClass program holder) =
      ((holder.virtualMethods ++ publicizer.openedMethods program holder).find?
          fun definition => program.interner.signature definition.method == signature).map
        fun definition => ⟨publicizer.finalClass program holder,
          publicizer.finalMethod program holder definition⟩ := by
  rw [dispatchIn?, withSignature?, virtualMethods_finalClass distinct member, List.find?_map,
    Option.map_map]
  congr 2
  funext definition
  simp only [Function.comp_apply, method_finalMethod]
  rfl

theorem dispatchIn?_of_found (distinct : program.IsDistinct) (member : holder ∈ program.classes)
    {hit : MethodHit} (found : program.dispatchIn? signature holder = some hit) :
    (program.reshape (publicizer.finalClass program)).dispatchIn? signature
        (publicizer.finalClass program holder) =
      some ⟨publicizer.finalClass program holder,
        publicizer.finalMethod program holder hit.definition⟩ := by
  obtain ⟨definition, first, rfl⟩ := Option.map_eq_some_iff.mp found
  rw [dispatchIn?_finalClass distinct member, List.find?_append, first]
  rfl

theorem dispatchIn?_of_missing (distinct : program.IsDistinct) (member : holder ∈ program.classes)
    (missing : program.dispatchIn? signature holder = none) :
    (¬ publicizer.Captures program signature holder ∧
      (program.reshape (publicizer.finalClass program)).dispatchIn? signature
          (publicizer.finalClass program holder) = none) ∨
    (publicizer.Captures program signature holder ∧
      ∃ method, IsOpened program (publicizer.finalClass program holder) method ∧
        (program.reshape (publicizer.finalClass program)).dispatchIn? signature
            (publicizer.finalClass program holder) =
          some ⟨publicizer.finalClass program holder, method⟩) := by
  have old := Option.map_eq_none_iff.mp missing
  rw [dispatchIn?_finalClass distinct member, List.find?_append, old, Option.none_or]
  cases opened : (publicizer.openedMethods program holder).find? fun definition =>
    program.interner.signature definition.method == signature with
  | none =>
      left
      refine ⟨?_, rfl⟩
      intro captures
      obtain ⟨definition, listed, same⟩ := captures
      exact List.find?_eq_none.mp opened definition listed (beq_iff_eq.mpr same)
  | some definition =>
      right
      have listed := List.mem_of_find?_eq_some opened
      have same : program.interner.signature definition.method = signature := by
        simpa using List.find?_some opened
      exact ⟨⟨definition, listed, same⟩, _, isOpened_of_mem_openedMethods distinct member listed, rfl⟩

theorem findSome?_finalClass (distinct : program.IsDistinct) {order : List ClassDef}
    (members : ∀ holder ∈ order, holder ∈ program.classes) {hit : MethodHit}
    (found : order.findSome? (program.dispatchIn? signature) = some hit) :
    ∃ final, (order.map (publicizer.finalClass program)).findSome?
        ((program.reshape (publicizer.finalClass program)).dispatchIn? signature) = some final ∧
      ((∀ holder ∈ order.takeWhile fun holder => (program.dispatchIn? signature holder).isNone,
          ¬ publicizer.Captures program signature holder) ∧
        final.holder.type = hit.holder.type ∧ final.definition.method = hit.definition.method ∨
      (∃ holder ∈ order.takeWhile fun holder => (program.dispatchIn? signature holder).isNone,
          publicizer.Captures program signature holder) ∧
        final.holder.type ≠ hit.holder.type ∧ IsOpened program final.holder final.definition) := by
  induction order with
  | nil => cases found
  | cons first rest ih =>
      have listed := members first List.mem_cons_self
      have others : ∀ holder ∈ rest, holder ∈ program.classes :=
        fun holder later => members holder (List.mem_cons_of_mem _ later)
      rw [List.findSome?_cons] at found
      rw [List.map_cons]
      simp only [List.findSome?_cons]
      cases here : program.dispatchIn? signature first with
      | some other =>
          simp only [here, Option.some.injEq] at found
          subst found
          rw [dispatchIn?_of_found distinct listed here]
          refine ⟨_, rfl, Or.inl ⟨?_, ?_, ?_⟩⟩
          · simp [here]
          · rw [holder_of_dispatchIn? here]
            exact type_finalClass
          · exact method_finalMethod
      | none =>
          simp only [here] at found
          have passed : (first :: rest).takeWhile (fun holder =>
              (program.dispatchIn? signature holder).isNone) =
            first :: rest.takeWhile fun holder =>
              (program.dispatchIn? signature holder).isNone := by
            simp [here]
          rw [passed]
          rcases dispatchIn?_of_missing distinct listed here with
            ⟨free, after⟩ | ⟨captures, method, opened, after⟩
          · obtain ⟨final, finds, outcome⟩ := ih others found
            rw [after]
            refine ⟨final, finds, ?_⟩
            simpa only [List.forall_mem_cons, List.exists_mem_cons_iff, free, not_false_eq_true,
              true_and, false_or] using outcome
          · rw [after]
            refine ⟨_, rfl, Or.inr ⟨⟨first, List.mem_cons_self, captures⟩, ?_, opened⟩⟩
            intro same
            obtain ⟨holder, later, finds⟩ := List.exists_of_findSome?_eq_some found
            rw [holder_of_dispatchIn? finds, type_finalClass] at same
            cases distinct.eq_of_type listed (others holder later) same
            rw [here] at finds
            cases finds

end Searches

/-- A class that a dispatch went past before the pass has got a method of the signature. -/
def IsCaptured (before after : Program) (type : TypeId) (signature : Signature) : Prop :=
  ∃ holder ∈ passedOver before type signature, ∃ changed ∈ after.classes,
    changed.type = holder.type ∧
      ∃ method, IsOpened before changed method ∧
        before.interner.signature method.method = signature

section Dispatch

variable {publicizer : Publicizer} {program : Program} {type : TypeId} {signature : Signature}

theorem of_mem_passedOver {holder : ClassDef} (passed : holder ∈ passedOver program type signature) :
    holder ∈ program.classes ∧ program.dispatchIn? signature holder = none := by
  have missing := List.mem_takeWhile_imp passed
  exact ⟨mem_classes_of_mem_searchOrder (List.takeWhile_subset _ passed),
    Option.isNone_iff_eq_none.mp missing⟩

theorem isCaptured_iff (distinct : program.IsDistinct) :
    IsCaptured program (program.reshape (publicizer.finalClass program)) type signature ↔
      ∃ holder ∈ passedOver program type signature,
        publicizer.Captures program signature holder := by
  constructor
  · intro captured
    obtain ⟨holder, passed, changed, changedListed, sameType, method, opened, same⟩ := captured
    refine ⟨holder, passed, ?_⟩
    obtain ⟨listed, missing⟩ := of_mem_passedOver passed
    obtain ⟨old, oldListed, rfl, definition, declared, rfl, claimed⟩ :=
      opened.origin distinct changedListed
    rw [type_finalClass] at sameType
    cases distinct.eq_of_type oldListed listed sameType
    rw [method_finalMethod] at same
    refine ⟨definition, mem_openedMethods.mpr ⟨?_, claimed⟩, same⟩
    rcases List.mem_append.mp declared with direct | virtual
    · exact direct
    · -- a virtual method of the signature would have ended the search
      have unknown := Option.map_eq_none_iff.mp missing
      exact absurd (beq_iff_eq.mpr same) (List.find?_eq_none.mp unknown definition virtual)
  · intro captured
    obtain ⟨holder, passed, definition, opened, same⟩ := captured
    have listed := (of_mem_passedOver passed).1
    refine ⟨holder, passed, _, List.mem_map_of_mem listed, type_finalClass, _,
      isOpened_of_mem_openedMethods distinct listed opened, ?_⟩
    rw [method_finalMethod]
    exact same

/-- The signature of an open method of the program is in use from the start, so nothing captures it. -/
theorem not_captures_of_isProgram (unrestricted : publicizer.live = none) {holder other : ClassDef}
    {definition : MethodDef} (member : holder ∈ program.classes) (isProgram : holder.isProgram)
    (declared : definition ∈ holder.methods) (isOpen : definition.access.isPrivate = false) :
    ¬ publicizer.Captures program (program.interner.signature definition.method) other := by
  intro captures
  obtain ⟨rival, opened, same⟩ := captures
  refine signature_notMem_of_opened (mem_openedMethods.mp opened).2 ?_
  refine mem_collectSignatures.mpr ⟨holder, member, ?_, definition, declared, ?_, same.symm⟩
  · simp [works, isLiveClass, unrestricted, isProgram]
  · simp [usesSignature, isLiveMethod, unrestricted, isOpen]

end Dispatch

/-- After a pass over all members a dispatch finds the method it found before, unless a class that it went
past has got a method of the signature; then it finds an opened-up method. Methods of the program that are
not private are never lost to it. -/
theorem dispatch_kept_iff_not_captured {publicizer : Publicizer} {program : Program}
    {previous : Lens} {outcome : Outcome} (distinct : program.IsDistinct)
    (success : publicizer.run program previous = .ok outcome)
    (unrestricted : publicizer.live = none) {type : TypeId} {method : MethodId} {hit : MethodHit}
    (found : program.dispatchMethod? type method = some hit) :
    ∃ final, outcome.program.dispatchMethod? type method = some final ∧
      (final.holder.type = hit.holder.type ∧ final.definition.method = hit.definition.method ↔
        ¬ IsCaptured program outcome.program type (program.interner.signature method)) ∧
      (IsCaptured program outcome.program type (program.interner.signature method) →
        IsOpened program final.holder final.definition) ∧
      (hit.holder.isProgram → hit.definition.access.isPrivate = false →
        ¬ IsCaptured program outcome.program type (program.interner.signature method)) := by
  rw [dispatchMethod?_eq] at found
  rw [program_of_run distinct success, dispatchMethod?_eq,
    keepsEdges_finalClass.searchOrder_reshape, isCaptured_iff distinct]
  have members : ∀ holder ∈ program.searchOrder type, holder ∈ program.classes :=
    fun holder => mem_classes_of_mem_searchOrder
  obtain ⟨final, finds, outcomes⟩ := findSome?_finalClass distinct members found
  refine ⟨final, finds, ?_, ?_, ?_⟩
  · rcases outcomes with ⟨free, same⟩ | ⟨captured, different, -⟩
    · refine iff_of_true same ?_
      intro captured
      obtain ⟨holder, passed, captures⟩ := captured
      exact free holder passed captures
    · exact iff_of_false (fun same => different same.1) (fun free => free captured)
  · intro captured
    obtain ⟨holder, passed, captures⟩ := captured
    rcases outcomes with ⟨free, -⟩ | ⟨-, -, opened⟩
    · exact absurd captures (free holder passed)
    · exact opened
  · rintro isProgram isOpen ⟨other, -, captures⟩
    obtain ⟨holder, searched, here⟩ := List.exists_of_findSome?_eq_some found
    obtain ⟨definition, first, rfl⟩ := Option.map_eq_some_iff.mp here
    have same : program.interner.signature definition.method =
        program.interner.signature method := by
      simpa using List.find?_some first
    have declared : definition ∈ holder.methods :=
      List.mem_append_right _ (List.mem_of_find?_eq_some first)
    rw [← same] at captures
    exact not_captures_of_isProgram unrestricted (members holder searched) isProgram declared
      isOpen captures

namespace Rivals

def sharedRun : MethodDef :=
  { method := ⟨1⟩, access := { isPublic := true } }

def libraryUpper : ClassDef :=
  { type := ⟨5⟩, origin := .library, super? := some .object, virtualMethods := [sharedRun] }

end Rivals

open Rivals in
theorem dispatch_kept_iff_not_captured_library :
    ∃ outcome, publicizer.run (programOf libraryUpper lower) .identity = .ok outcome ∧
      (programOf libraryUpper lower).dispatchMethod? ⟨6⟩ ⟨1⟩ = some ⟨libraryUpper, sharedRun⟩ ∧
      ∃ final, outcome.program.dispatchMethod? ⟨6⟩ ⟨1⟩ = some final ∧
        (final.holder.type = ⟨5⟩ ∧ final.definition.method = ⟨1⟩ ↔
          ¬ IsCaptured (programOf libraryUpper lower) outcome.program ⟨6⟩
            (interner.signature ⟨1⟩)) := by
  have distinct : (programOf libraryUpper lower).IsDistinct := ⟨by decide, by decide, by decide⟩
  have success : publicizer.run (programOf libraryUpper lower) .identity = .ok _ :=
    run_eq distinct rfl .identity
  have found : (programOf libraryUpper lower).dispatchMethod? ⟨6⟩ ⟨1⟩ =
      some ⟨libraryUpper, sharedRun⟩ := by
    cbv
  obtain ⟨final, finds, condition, -⟩ :=
    dispatch_kept_iff_not_captured distinct success rfl found
  exact ⟨_, success, found, final, finds, condition⟩

open Rivals in
/-- The private method below the library class is opened up though the library class has a method of its
signature, and the call goes astray. -/
theorem library_method_captured :
    ((programOf libraryUpper lower).dispatchMethod? ⟨6⟩ ⟨1⟩).map
        (fun hit => (hit.holder.type, hit.definition.method)) = some (⟨5⟩, ⟨1⟩) ∧
      ((publicizer.run (programOf libraryUpper lower) .identity).map fun outcome =>
          (outcome.program.dispatchMethod? ⟨6⟩ ⟨1⟩).map
            fun hit => (hit.holder.type, hit.definition.method)) =
        .ok (some (⟨6⟩, ⟨2⟩)) := by
  constructor
  · cbv
  · cbv

end Shrinker.Publicizer

import Mathlib.Data.List.Perm.Basic
import Shrinker.Proofs.Publicizer.Collision

namespace Shrinker.Publicizer

open Reference Program

/-- The verdict of a second pass, by that of the first. -/
def Verdict.again : Verdict → Verdict
  | .promote | .publicize => .leave
  | other => other

theorem carryOut_again (definition : MethodDef) (verdict : Verdict) :
    carryOut definition verdict.again = definition := by
  cases verdict <;> rfl

theorem isPublic_promoteAccess (access : Access) : (promoteAccess access).isPublic = true := by
  unfold promoteAccess
  split <;> rfl

theorem isPrivate_promoteAccess (access : Access) : (promoteAccess access).isPrivate = false := by
  unfold promoteAccess
  split
  · rfl
  · rename_i isOpen
    simpa using isOpen

theorem isSynthetic_promoteAccess (access : Access) :
    (promoteAccess access).isSynthetic = access.isSynthetic := by
  unfold promoteAccess
  split <;> rfl

theorem Verdict.again_eq_skipCollision {verdict : Verdict} :
    verdict.again = .skipCollision ↔ verdict = .skipCollision := by
  cases verdict <;> decide

section Verdicts

variable {publicizer : Publicizer} {interner : Interner} {holder changed : ClassDef}
  {definition : MethodDef} {claimed : List Slot}

theorem decision_of_isPublic (isPublic : definition.access.isPublic) :
    publicizer.decision interner holder claimed definition = .leave := by
  simp [decision, isCandidate, verdict, isPublic]

theorem isCandidate_of_skipCollision
    (skipped : publicizer.decision interner holder claimed definition = .skipCollision) :
    publicizer.isCandidate interner holder definition := by
  unfold decision at skipped
  split at skipped
  · assumption
  · unfold verdict at skipped
    grind [Table.empty]

theorem decision_nil_of_ne
    (unopened : publicizer.decision interner holder claimed definition ≠ .publicize) :
    publicizer.decision interner holder [] definition =
      publicizer.decision interner holder claimed definition := by
  unfold decision at unopened ⊢
  split
  · rename_i candidate
    rw [if_pos candidate] at unopened
    split at unopened
    · exact absurd rfl unopened
    · rename_i unclaimed
      rw [if_neg unclaimed, if_neg List.not_mem_nil]
  · rfl

theorem decision_nil_congr (same : changed.isInterface = holder.isInterface) :
    publicizer.decision interner changed [] definition =
      publicizer.decision interner holder [] definition := by
  simp only [decision, isCandidate, verdict, same, List.not_mem_nil]

theorem decision_settle (same : changed.isInterface = holder.isInterface) :
    publicizer.decision interner changed []
        (publicizer.settle interner holder claimed definition) =
      (publicizer.decision interner holder claimed definition).again := by
  unfold settle
  cases decided : publicizer.decision interner holder claimed definition with
  | promote => exact decision_of_isPublic (isPublic_promoteAccess _)
  | publicize => exact decision_of_isPublic rfl
  | leave | skipPinned | skipCollision =>
      have unopened : publicizer.decision interner holder claimed definition ≠ .publicize := by
        rw [decided]
        nofun
      rw [decision_nil_congr same]
      exact (decision_nil_of_ne unopened).trans decided

theorem settle_settle (same : changed.isInterface = holder.isInterface) :
    publicizer.settle interner changed []
        (publicizer.settle interner holder claimed definition) =
      publicizer.settle interner holder claimed definition := by
  rw [settle, decision_settle same, carryOut_again]

theorem usesSignature_carryOut (uses : publicizer.usesSignature definition) (verdict : Verdict) :
    publicizer.usesSignature (carryOut definition verdict) := by
  have live := (Bool.and_eq_true_iff.mp uses).1
  cases verdict with
  | promote => simp [usesSignature, carryOut, live, isPrivate_promoteAccess]
  | publicize => simp [usesSignature, carryOut, live, MethodDef.publicize, Access.promote]
  | leave | skipPinned | skipCollision => exact uses

theorem openClass_openClass (publicizer : Publicizer) (interner : Interner) (claimed : List Slot)
    (holder : ClassDef) :
    publicizer.openClass interner [] (publicizer.openClass interner claimed holder) =
      publicizer.openClass interner claimed holder := by
  have fixed (method : MethodDef)
      (listed : method ∈ (publicizer.openClass interner claimed holder).methods) :
      publicizer.settle interner (publicizer.openClass interner claimed holder) [] method =
        method := by
    rw [(methods_openClass_perm ..).mem_iff] at listed
    obtain ⟨definition, -, rfl⟩ := List.mem_map.mp listed
    exact settle_settle rfl
  generalize opened : publicizer.openClass interner claimed holder = changed at fixed
  have direct : changed.directMethods.map (publicizer.settle interner changed []) =
      changed.directMethods := by
    refine (List.map_congr_left fun method listed => ?_).trans (List.map_id _)
    exact fixed method (List.mem_append_left _ listed)
  have virtual : changed.virtualMethods.map (publicizer.settle interner changed []) =
      changed.virtualMethods := by
    refine (List.map_congr_left fun method listed => ?_).trans (List.map_id _)
    exact fixed method (List.mem_append_right _ listed)
  have access : changed.access.promote = changed.access := by
    rw [← opened]
    rfl
  have fields : changed.fields.map (fun field => { field with access := field.access.promote }) =
      changed.fields := by
    rw [← opened]
    simp [openClass, Access.promote]
  simp [openClass, direct, virtual, access, fields]

end Verdicts

theorem claim_eq_nil {interner : Interner} {pool : SignaturePool} {slots : List Slot}
    (taken : ∀ slot ∈ slots, interner.signature slot.method ∈ pool.entries) :
    claim interner pool slots = [] := by
  induction slots with
  | nil => rfl
  | cons slot slots ih =>
      rw [claim, if_pos (taken slot List.mem_cons_self)]
      exact ih fun other later => taken other (List.mem_cons_of_mem _ later)

/-- A slot goes without its signature only if it was in use or another slot got it. -/
theorem signature_taken {interner : Interner} {pool : SignaturePool} {slots : List Slot}
    {slot : Slot} (listed : slot ∈ slots) :
    interner.signature slot.method ∈ pool.entries ∨
      ∃ winner ∈ claim interner pool slots,
        interner.signature winner.method = interner.signature slot.method := by
  fun_induction claim interner pool slots with
  | case1 => cases listed
  | case2 pool first slots taken ih =>
      rcases List.mem_cons.mp listed with rfl | later
      · exact Or.inl taken
      · exact ih later
  | case3 pool first slots free ih =>
      rcases List.mem_cons.mp listed with rfl | later
      · exact Or.inr ⟨slot, List.mem_cons_self, rfl⟩
      · rcases ih later with known | ⟨winner, claimed, same⟩
        · rcases Table.mem_entries_insert.mp known with old | new
          · exact Or.inl old
          · exact Or.inr ⟨first, List.mem_cons_self, new.symm⟩
        · exact Or.inr ⟨winner, List.mem_cons_of_mem _ claimed, same⟩

def afterPass (publicizer : Publicizer) (program : Program) : Program :=
  program.reshape (publicizer.finalClass program)

section Programs

variable {publicizer : Publicizer} {program : Program} {signature : Signature}

theorem usesSignature_finalMethod {holder : ClassDef} {definition : MethodDef}
    (uses : publicizer.usesSignature definition) :
    publicizer.usesSignature (publicizer.finalMethod program holder definition) := by
  unfold finalMethod
  split
  · exact usesSignature_carryOut uses _
  · exact uses

theorem mem_collectSignatures_afterPass
    (inUse : signature ∈ (publicizer.collectSignatures program).entries) :
    signature ∈ (publicizer.collectSignatures (publicizer.afterPass program)).entries := by
  obtain ⟨holder, member, worked, definition, declared, uses, same⟩ :=
    mem_collectSignatures.mp inUse
  refine mem_collectSignatures.mpr ⟨publicizer.finalClass program holder,
    List.mem_map_of_mem member, ?_, publicizer.finalMethod program holder definition, ?_,
    usesSignature_finalMethod uses, ?_⟩
  · rwa [works_finalClass]
  · exact mem_methods_finalClass.mpr ⟨definition, declared, rfl⟩
  · rw [method_finalMethod]
    exact same

theorem mem_collectSignatures_of_opened (distinct : program.IsDistinct) {slot : Slot}
    (opened : slot ∈ publicizer.openedSlots program) :
    program.interner.signature slot.method ∈
      (publicizer.collectSignatures (publicizer.afterPass program)).entries := by
  obtain ⟨-, holder, member, sameType, worked, definition, declared, sameMethod, candidate⟩ :=
    exists_of_mem_openedSlots opened
  have own : (⟨holder.type, definition.method⟩ : Slot) ∈ publicizer.openedSlots program := by
    rw [sameType, sameMethod]
    exact opened
  have live := (isCandidate_iff.mp candidate).1
  refine mem_collectSignatures.mpr ⟨publicizer.finalClass program holder,
    List.mem_map_of_mem member, ?_, publicizer.finalMethod program holder definition, ?_, ?_, ?_⟩
  · rwa [works_finalClass]
  · exact mem_methods_finalClass.mpr ⟨definition, declared, rfl⟩
  · rw [finalMethod_of_opened distinct member declared own]
    simp [usesSignature, MethodDef.publicize, Access.promote, live]
  · rw [method_finalMethod, sameMethod]
    rfl

theorem workClass?_afterPass (type : TypeId) :
    publicizer.workClass? (publicizer.afterPass program) type =
      (publicizer.workClass? program type).map (publicizer.finalClass program) := by
  unfold workClass? afterPass
  rw [keepsEdges_finalClass.definition?_reshape]
  cases program.definition? type with
  | none => rfl
  | some definition =>
      simp only [Option.map_some, Option.filter_some, works_finalClass]
      split <;> rfl

theorem isInterface_finalClass {holder : ClassDef} :
    (publicizer.finalClass program holder).isInterface = holder.isInterface := by
  unfold finalClass openVisited
  split <;> rfl

theorem decision_afterPass {holder : ClassDef} {definition : MethodDef}
    (visited : holder.type ∈ visitOrder program.hierarchy) (worked : publicizer.works holder) :
    publicizer.decision program.interner (publicizer.finalClass program holder) []
        (publicizer.finalMethod program holder definition) =
      (publicizer.decision program.interner holder (publicizer.openedSlots program)
        definition).again := by
  rw [finalMethod, if_pos ⟨visited, worked⟩]
  exact decision_settle isInterface_finalClass

theorem isCandidate_of_afterPass {holder : ClassDef} {definition : MethodDef}
    (visited : holder.type ∈ visitOrder program.hierarchy) (worked : publicizer.works holder)
    (candidate : publicizer.isCandidate program.interner (publicizer.finalClass program holder)
      (publicizer.finalMethod program holder definition)) :
    publicizer.isCandidate program.interner holder definition := by
  have skipped : publicizer.decision program.interner (publicizer.finalClass program holder) []
      (publicizer.finalMethod program holder definition) = .skipCollision := by
    rw [decision, if_pos candidate, if_neg List.not_mem_nil]
  rw [decision_afterPass visited worked, Verdict.again_eq_skipCollision] at skipped
  exact isCandidate_of_skipCollision skipped

theorem openedSlots_afterPass (distinct : program.IsDistinct) :
    publicizer.openedSlots (publicizer.afterPass program) = [] := by
  apply claim_eq_nil
  intro slot listed
  obtain ⟨changed, working, own⟩ := List.mem_flatMap.mp listed
  obtain ⟨type, visited, found⟩ := List.mem_filterMap.mp working
  change type ∈ visitOrder program.hierarchy at visited
  rw [workClass?_afterPass] at found
  obtain ⟨holder, foundBefore, rfl⟩ := Option.map_eq_some_iff.mp found
  obtain ⟨defined, worked⟩ := workClass?_eq_some.mp foundBefore
  obtain ⟨-, rfl⟩ := mem_of_definition? defined
  obtain ⟨after, declared, candidate, rfl⟩ := mem_slots.mp own
  obtain ⟨definition, declaredBefore, rfl⟩ := mem_methods_finalClass.mp declared
  -- a slot that waits for its signature now did so in the first pass, and did not get it
  have wasCandidate : publicizer.isCandidate program.interner holder definition :=
    isCandidate_of_afterPass visited worked candidate
  have waiting : (⟨holder.type, definition.method⟩ : Slot) ∈
      publicizer.typeSlots program (visitOrder program.hierarchy) :=
    List.mem_flatMap.mpr ⟨holder, List.mem_filterMap.mpr ⟨_, visited, foundBefore⟩,
      mem_slots.mpr ⟨definition, declaredBefore, wasCandidate, rfl⟩⟩
  have taken : program.interner.signature definition.method ∈
        (publicizer.collectSignatures program).entries ∨
      ∃ winner ∈ publicizer.openedSlots program, program.interner.signature winner.method =
        program.interner.signature definition.method :=
    signature_taken waiting
  rw [method_finalMethod]
  rcases taken with inUse | ⟨winner, claimed, same⟩
  · exact mem_collectSignatures_afterPass inUse
  · have shared := mem_collectSignatures_of_opened distinct claimed
    rw [same] at shared
    exact shared

theorem finalClass_finalClass (distinct : program.IsDistinct) (holder : ClassDef) :
    publicizer.finalClass (publicizer.afterPass program) (publicizer.finalClass program holder) =
      publicizer.finalClass program holder := by
  rw [finalClass, openedSlots_afterPass distinct, openVisited]
  split
  · rename_i again
    obtain ⟨visited, worked⟩ := again
    rw [type_finalClass] at visited
    rw [works_finalClass] at worked
    have opened : publicizer.finalClass program holder =
        publicizer.openClass program.interner (publicizer.openedSlots program) holder :=
      if_pos ⟨visited, worked⟩
    rw [opened]
    exact openClass_openClass ..
  · rfl

theorem afterPass_afterPass (distinct : program.IsDistinct) :
    publicizer.afterPass (publicizer.afterPass program) = publicizer.afterPass program := by
  refine (reshape_congr ?_).trans (reshape_id _)
  intro changed member
  obtain ⟨holder, -, rfl⟩ := List.mem_map.mp member
  exact finalClass_finalClass distinct holder

theorem isDistinct_afterPass (distinct : program.IsDistinct) :
    (publicizer.afterPass program).IsDistinct :=
  isDistinct_afterTypes publicizer _ distinct _

end Programs

theorem checkHolders_eq_ok {program : Program} :
    checkHolders program = .ok () ↔
      ∀ holder ∈ program.programClasses, ∀ definition ∈ holder.methods,
        definition.access.isSynthetic →
          (program.definition? (program.interner.method definition.method).holder).isSome := by
  unfold checkHolders
  dsimp only
  split
  · rename_i none
    simp only [List.flatMap_eq_nil_iff, List.map_eq_nil_iff, List.filter_eq_nil_iff] at none
    refine iff_of_true rfl ?_
    intro holder listed definition declared synthetic
    simpa [synthetic, Option.isSome_iff_ne_none] using none holder listed definition declared
  · rename_i holder definition rest broken
    refine iff_of_false (by nofun) ?_
    intro sound
    have first : (holder, definition) ∈ (holder, definition) :: rest := List.mem_cons_self
    rw [← broken] at first
    obtain ⟨owner, listed, named⟩ := List.mem_flatMap.mp first
    obtain ⟨method, missing, same⟩ := List.mem_map.mp named
    obtain ⟨declared, bad⟩ := List.mem_filter.mp missing
    obtain ⟨synthetic, undefined⟩ := Bool.and_eq_true_iff.mp bad
    have defined := sound owner listed method declared synthetic
    rw [Option.isNone_iff_eq_none.mp undefined] at defined
    cases defined

theorem isSynthetic_finalMethod {publicizer : Publicizer} {program : Program} {holder : ClassDef}
    {definition : MethodDef} :
    (publicizer.finalMethod program holder definition).access.isSynthetic =
      definition.access.isSynthetic := by
  unfold finalMethod settle
  split
  · cases publicizer.decision program.interner holder (publicizer.openedSlots program)
      definition with
    | promote => exact isSynthetic_promoteAccess _
    | _ => rfl
  · rfl

theorem checkHolders_afterPass {publicizer : Publicizer} {program : Program}
    (checked : checkHolders program = .ok ()) :
    checkHolders (publicizer.afterPass program) = .ok () := by
  rw [checkHolders_eq_ok] at checked ⊢
  intro changed listed method declared synthetic
  obtain ⟨member, isProgram⟩ := List.mem_filter.mp listed
  obtain ⟨holder, old, rfl⟩ := List.mem_map.mp member
  obtain ⟨definition, declaredBefore, rfl⟩ := mem_methods_finalClass.mp declared
  rw [isProgram_finalClass] at isProgram
  rw [isSynthetic_finalMethod] at synthetic
  have defined := checked holder (List.mem_filter.mpr ⟨old, isProgram⟩) definition declaredBefore
    synthetic
  unfold afterPass
  rw [keepsEdges_finalClass.definition?_reshape, Option.isSome_map, method_finalMethod]
  exact defined

def Stats.tally (stats : Stats) : Verdict → Nat
  | .leave => 0
  | .promote => stats.promotedMethods
  | .skipPinned => stats.skippedPinned
  | .skipCollision => stats.skippedCollisions
  | .publicize => stats.publicizedMethods

theorem tally_count (stats : Stats) {verdict : Verdict} (counted : verdict ≠ .leave)
    (other : Verdict) :
    (stats.count other).tally verdict = stats.tally verdict + [other].count verdict := by
  cases verdict with
  | leave => exact absurd rfl counted
  | _ => cases other <;> rfl

theorem tally_foldl_count (stats : Stats) {verdict : Verdict} (counted : verdict ≠ .leave)
    (verdicts : List Verdict) :
    (verdicts.foldl Stats.count stats).tally verdict =
      stats.tally verdict + verdicts.count verdict := by
  induction verdicts generalizing stats with
  | nil => rfl
  | cons first verdicts ih =>
      rw [List.foldl_cons, ih, tally_count stats counted, Nat.add_assoc, ← List.count_append]
      rfl

def verdicts (publicizer : Publicizer) (program : Program) (claimed : List Slot)
    (types : List TypeId) : List Verdict :=
  (types.filterMap (publicizer.workClass? program)).flatMap fun holder =>
    holder.methods.map (publicizer.decision program.interner holder claimed)

theorem tally_countTypes {publicizer : Publicizer} {program : Program} (stats : Stats)
    {verdict : Verdict} (counted : verdict ≠ .leave) (claimed : List Slot) (types : List TypeId) :
    (stats.countTypes publicizer program claimed types).tally verdict =
      stats.tally verdict +
        (publicizer.verdicts program claimed types).count verdict := by
  unfold Stats.countTypes verdicts
  induction types.filterMap (publicizer.workClass? program) generalizing stats with
  | nil => rfl
  | cons holder holders ih =>
      have ofClass : (stats.countClass publicizer program.interner claimed holder).tally verdict =
          ((holder.methods.map (publicizer.decision program.interner holder claimed)).foldl
            Stats.count stats).tally verdict := by
        cases verdict <;> rfl
      rw [List.foldl_cons, ih, ofClass, tally_foldl_count stats counted, List.flatMap_cons,
        List.count_append, Nat.add_assoc]

theorem count_map_again (verdicts : List Verdict) :
    (verdicts.map Verdict.again).count .promote = 0 ∧
      (verdicts.map Verdict.again).count .publicize = 0 ∧
      (verdicts.map Verdict.again).count .skipPinned = verdicts.count .skipPinned ∧
      (verdicts.map Verdict.again).count .skipCollision = verdicts.count .skipCollision := by
  induction verdicts with
  | nil => exact ⟨rfl, rfl, rfl, rfl⟩
  | cons first verdicts ih =>
      obtain ⟨promoted, publicized, pinned, collided⟩ := ih
      cases first <;> simp_all [Verdict.again]

theorem verdicts_afterPass_perm {publicizer : Publicizer} {program : Program} :
    (publicizer.verdicts (publicizer.afterPass program) [] (visitOrder program.hierarchy)).Perm
      ((publicizer.verdicts program (publicizer.openedSlots program)
        (visitOrder program.hierarchy)).map Verdict.again) := by
  have classes : (visitOrder program.hierarchy).filterMap
        (publicizer.workClass? (publicizer.afterPass program)) =
      ((visitOrder program.hierarchy).filterMap (publicizer.workClass? program)).map
        (publicizer.finalClass program) := by
    rw [List.map_filterMap]
    exact List.filterMap_congr fun type _ => workClass?_afterPass type
  unfold verdicts
  rw [classes, List.flatMap_map, List.map_flatMap]
  apply List.Perm.flatMap_left
  intro holder listed
  obtain ⟨type, visited, found⟩ := List.mem_filterMap.mp listed
  obtain ⟨defined, worked⟩ := workClass?_eq_some.mp found
  obtain ⟨-, rfl⟩ := mem_of_definition? defined
  have opened : publicizer.finalClass program holder =
      publicizer.openClass program.interner (publicizer.openedSlots program) holder :=
    if_pos ⟨visited, worked⟩
  have methods := methods_openClass_perm publicizer program.interner
    (publicizer.openedSlots program) holder
  rw [← opened] at methods
  refine (methods.map _).trans (List.Perm.of_eq ?_)
  rw [List.map_map, List.map_map]
  refine List.map_congr_left fun definition _ => ?_
  exact decision_settle isInterface_finalClass

theorem tally_of_run {publicizer : Publicizer} {program : Program} {previous : Lens}
    {outcome : Outcome} (distinct : program.IsDistinct)
    (success : publicizer.run program previous = .ok outcome) {verdict : Verdict}
    (counted : verdict ≠ .leave) :
    outcome.stats.tally verdict = (publicizer.verdicts program (publicizer.openedSlots program)
      (visitOrder program.hierarchy)).count verdict := by
  rw [run_eq distinct (checked_of_run success) previous] at success
  cases success
  rw [tally_countTypes _ counted]
  refine (congrArg (· + _) ?_).trans (Nat.zero_add _)
  cases verdict <;> rfl

/-- A second pass over the outcome of a first one succeeds and leaves every class as it is. Its level is
empty. It opens up and promotes nothing more, and it skips as many methods as the first one. -/
theorem second_pass_changes_nothing {publicizer : Publicizer} {program : Program} {previous : Lens}
    {outcome : Outcome} (distinct : program.IsDistinct)
    (success : publicizer.run program previous = .ok outcome) (later : Lens) :
    ∃ again level, publicizer.run outcome.program later = .ok again ∧
      again.program = outcome.program ∧
      again.lens = later.publish level ∧ level.methods = [] ∧ level.fields = [] ∧
      again.stats.publicizedMethods = 0 ∧ again.stats.promotedMethods = 0 ∧
      again.stats.skippedPinned = outcome.stats.skippedPinned ∧
      again.stats.skippedCollisions = outcome.stats.skippedCollisions := by
  have first (verdict : Verdict) (counted : verdict ≠ .leave) :=
    tally_of_run distinct success counted
  have unchanged : outcome.program = publicizer.afterPass program := program_of_run distinct success
  have distinctAfter : (publicizer.afterPass program).IsDistinct := isDistinct_afterPass distinct
  have secondRun : publicizer.run (publicizer.afterPass program) later = .ok _ :=
    run_eq distinctAfter (checkHolders_afterPass (checked_of_run success)) later
  have second (verdict : Verdict) (counted : verdict ≠ .leave) :=
    tally_of_run distinctAfter secondRun counted
  rw [openedSlots_afterPass distinct] at secondRun second
  obtain ⟨promoted, publicized, pinned, collided⟩ := count_map_again (publicizer.verdicts program
    (publicizer.openedSlots program) (visitOrder program.hierarchy))
  -- opened methods have moved to the virtual ones, so the verdicts come in another order
  rw [← verdicts_afterPass_perm.count_eq] at promoted publicized pinned collided
  rw [unchanged]
  refine ⟨_, _, secondRun, afterPass_afterPass distinct, rfl, rfl, rfl, ?_, ?_, ?_, ?_⟩
  · exact (second .publicize nofun).trans publicized
  · exact (second .promote nofun).trans promoted
  · exact (second .skipPinned nofun).trans (pinned.trans (first .skipPinned nofun).symm)
  · exact (second .skipCollision nofun).trans (collided.trans (first .skipCollision nofun).symm)

open Rivals in
/-- The method of the upper class is opened up in the first pass. In the second one it keeps that of the
lower class private from the start. -/
theorem second_pass_changes_nothing_rivals :
    ∃ outcome again level, publicizer.run (programOf upper lower) .identity = .ok outcome ∧
      outcome.stats.publicizedMethods = 1 ∧ outcome.stats.skippedCollisions = 1 ∧
      publicizer.run outcome.program outcome.lens = .ok again ∧
      again.program = outcome.program ∧ again.lens = outcome.lens.publish level ∧
      level.methods = [] ∧ again.stats.publicizedMethods = 0 ∧
      again.stats.skippedCollisions = 1 := by
  have distinct : (programOf upper lower).IsDistinct := ⟨by decide, by decide, by decide⟩
  have success : publicizer.run (programOf upper lower) .identity = .ok _ :=
    run_eq distinct rfl .identity
  obtain ⟨again, level, done, same, published, noMethods, -, publicized, -, -, collided⟩ :=
    second_pass_changes_nothing distinct success
      (Lens.identity.publish (record { name := "publicizer" }
        (publicizer.openedSlots (programOf upper lower))))
  refine ⟨_, again, level, success, ?_, ?_, done, same, published, noMethods, publicized, ?_⟩
  · cbv
  · cbv
  · rw [collided]
    cbv

end Shrinker.Publicizer

import Shrinker.Proofs.Publicizer.Coverage
import Shrinker.Proofs.Publicizer.Repetition

namespace Shrinker.Publicizer

open Reference Program Collection DepthFirst

structure Member where
  holder : ClassDef
  definition : MethodDef
  deriving DecidableEq, Repr

namespace Member

def slot (member : Member) : Slot :=
  ⟨member.holder.type, member.definition.method⟩

def signature (member : Member) (interner : Interner) : Signature :=
  interner.signature member.definition.method

end Member

def members (program : Program) (types : List TypeId) : List Member :=
  (types.filterMap program.definition?).flatMap fun holder =>
    (holder.directMethods ++ holder.virtualMethods).map (Member.mk holder)

/-- Whether the method might be opened up, as far as it and its class are concerned. -/
def isEligible (publicizer : Publicizer) (interner : Interner) (member : Member) : Bool :=
  let method := member.definition.method
  let access := member.definition.access
  member.holder.isProgram && publicizer.isLiveClass member.holder.type &&
    !member.holder.isInterface && publicizer.isLiveMethod method && access.isPrivate &&
    !access.isStatic && !access.isPublic && !access.isSynthetic && !interner.isInitializer method &&
    !publicizer.keep.pinsAgainstShrinking method

def eligible (publicizer : Publicizer) (program : Program) (types : List TypeId) : List Member :=
  (members program types).filter (publicizer.isEligible program.interner)

def Outcome.opens (outcome : Outcome) (member : Member) : Bool :=
  (outcome.program.definition? member.holder.type).any fun changed =>
    member.definition.publicize ∈ changed.virtualMethods

/-- A live method of a live class of the program has the signature and is not private to its objects. -/
def IsTaken (publicizer : Publicizer) (program : Program) (signature : Signature) : Prop :=
  ∃ holder definition, publicizer.IsInUse program holder definition ∧
    (definition.access.isPrivate = false ∨ definition.access.isStatic) ∧
    program.interner.signature definition.method = signature

/-- What the pass makes of the methods that it visits in some order of types. -/
structure Precedence (publicizer : Publicizer) (program : Program) (outcome : Outcome)
    (order : List TypeId) : Prop where
  taken : ∀ signature, publicizer.IsTaken program signature →
    ∀ member ∈ publicizer.eligible program order, member.signature program.interner = signature →
      outcome.opens member = false
  first : ∀ signature, ¬publicizer.IsTaken program signature →
    (∃ member ∈ publicizer.eligible program order, member.signature program.interner = signature) →
    ∃ first, (publicizer.eligible program order).find?
        (fun member => member.signature program.interner = signature) = some first ∧
      ∀ member ∈ publicizer.eligible program order, member.signature program.interner = signature →
        (outcome.opens member ↔ member = first)
  only : ∀ holder ∈ program.classes, ∀ definition ∈ holder.methods, definition.access.isPrivate →
    definition.access.isStatic = false → outcome.opens ⟨holder, definition⟩ →
    ⟨holder, definition⟩ ∈ publicizer.eligible program order
  skipped : outcome.stats.skippedCollisions =
    ((publicizer.eligible program order).filter (!outcome.opens ·)).length

section Members

variable {publicizer : Publicizer} {program : Program} {types : List TypeId} {member : Member}

theorem isEligible_eq (publicizer : Publicizer) (interner : Interner) (member : Member) :
    publicizer.isEligible interner member =
      (publicizer.works member.holder &&
        publicizer.isCandidate interner member.holder member.definition) := by
  rw [Bool.eq_iff_iff, Bool.and_eq_true, isCandidate_iff]
  simp only [isEligible, works, Bool.and_eq_true, Bool.not_eq_true']
  tauto

theorem mem_members :
    member ∈ members program types ↔
      ∃ type ∈ types, program.definition? type = some member.holder ∧
        member.definition ∈ member.holder.methods := by
  simp only [members, List.mem_flatMap, List.mem_filterMap, List.mem_map]
  constructor
  · intro listed
    obtain ⟨holder, ⟨type, visited, defined⟩, definition, declared, rfl⟩ := listed
    exact ⟨type, visited, defined, declared⟩
  · intro listed
    obtain ⟨type, visited, defined, declared⟩ := listed
    exact ⟨member.holder, ⟨type, visited, defined⟩, member.definition, declared, rfl⟩

theorem filter_works_members (publicizer : Publicizer) (program : Program) (types : List TypeId) :
    (members program types).filter (fun member => publicizer.works member.holder) =
      (types.filterMap (publicizer.workClass? program)).flatMap fun holder =>
        holder.methods.map (Member.mk holder) := by
  induction types with
  | nil => rfl
  | cons type types ih =>
      cases defined : program.definition? type with
      | none =>
          have idle : publicizer.workClass? program type = none := by
            rw [workClass?, defined]
            rfl
          rw [members, List.filterMap_cons_none defined, List.filterMap_cons_none idle]
          exact ih
      | some holder =>
          rw [members, List.filterMap_cons_some defined, List.flatMap_cons, List.filter_append]
          cases worked : publicizer.works holder with
          | false =>
              have idle : publicizer.workClass? program type = none := by
                rw [workClass?, defined, Option.filter_some_neg (by simpa using worked)]
              rw [List.filterMap_cons_none idle]
              refine Eq.trans ?_ ih
              simp [List.filter_map, Function.comp_def, worked, members]
          | true =>
              have works : publicizer.workClass? program type = some holder := by
                rw [workClass?, defined, Option.filter_some_pos worked]
              rw [List.filterMap_cons_some works, List.flatMap_cons, ← ih]
              simp [List.filter_map, Function.comp_def, worked, members, ClassDef.methods]

theorem eligible_eq (publicizer : Publicizer) (program : Program) (types : List TypeId) :
    publicizer.eligible program types =
      ((types.filterMap (publicizer.workClass? program)).flatMap fun holder =>
        holder.methods.map (Member.mk holder)).filter fun member =>
          publicizer.isCandidate program.interner member.holder member.definition := by
  rw [← filter_works_members, List.filter_filter, eligible]
  apply List.filter_congr
  intro member _
  rw [isEligible_eq, Bool.and_comm]

theorem map_slot_eligible (publicizer : Publicizer) (program : Program) (types : List TypeId) :
    (publicizer.eligible program types).map Member.slot = publicizer.typeSlots program types := by
  rw [eligible_eq, List.filter_flatMap, List.map_flatMap]
  simp only [List.filter_map, List.map_map]
  rfl

theorem mem_eligible :
    member ∈ publicizer.eligible program types ↔
      member ∈ members program types ∧ publicizer.works member.holder ∧
        publicizer.isCandidate program.interner member.holder member.definition := by
  rw [eligible, List.mem_filter, isEligible_eq, Bool.and_eq_true]

theorem verdicts_eq (claimed : List Slot) :
    publicizer.verdicts program claimed types =
      ((members program types).filter fun member => publicizer.works member.holder).map
        fun member => publicizer.decision program.interner member.holder claimed member.definition := by
  rw [filter_works_members, List.map_flatMap]
  simp only [List.map_map]
  rfl

theorem decision_eq_skipCollision {interner : Interner} {claimed : List Slot} {holder : ClassDef}
    {definition : MethodDef} :
    publicizer.decision interner holder claimed definition = .skipCollision ↔
      publicizer.isCandidate interner holder definition ∧
        (⟨holder.type, definition.method⟩ : Slot) ∉ claimed := by
  constructor
  · intro skipped
    have candidate := isCandidate_of_skipCollision skipped
    refine ⟨candidate, ?_⟩
    intro opened
    rw [decision, if_pos candidate, if_pos opened] at skipped
    cases skipped
  · intro skipped
    rw [decision, if_pos skipped.1, if_neg skipped.2]

theorem count_skipCollision (claimed : List Slot) :
    (publicizer.verdicts program claimed types).count .skipCollision =
      ((publicizer.eligible program types).filter fun member => member.slot ∉ claimed).length := by
  rw [verdicts_eq, List.count_eq_countP, List.countP_map, List.countP_filter, eligible,
    List.filter_filter, ← List.countP_eq_length_filter]
  apply List.countP_congr
  intro member _
  simp only [Function.comp_apply, Bool.and_eq_true, beq_iff_eq, decision_eq_skipCollision,
    isEligible_eq, decide_eq_true_iff]
  rw [Member.slot]
  tauto

end Members

section Runs

variable {publicizer : Publicizer} {program : Program} {previous : Lens} {outcome : Outcome}
  {member : Member}

theorem mem_classes_of_mem_members {types : List TypeId} (listed : member ∈ members program types) :
    member.holder ∈ program.classes ∧ member.definition ∈ member.holder.methods := by
  obtain ⟨type, -, defined, declared⟩ := mem_members.mp listed
  exact ⟨(mem_of_definition? defined).1, declared⟩

theorem eq_of_slot (distinct : program.IsDistinct) {types : List TypeId} {other : Member}
    (listed : member ∈ members program types) (otherListed : other ∈ members program types)
    (same : member.slot = other.slot) : member = other := by
  obtain ⟨known, declared⟩ := mem_classes_of_mem_members listed
  obtain ⟨otherKnown, otherDeclared⟩ := mem_classes_of_mem_members otherListed
  obtain ⟨holder, definition⟩ := member
  obtain ⟨otherHolder, otherDefinition⟩ := other
  obtain ⟨sameType, sameMethod⟩ := Slot.mk.inj same
  cases distinct.eq_of_type known otherKnown sameType
  cases distinct.eq_of_method known declared otherDeclared sameMethod
  rfl

theorem isTaken_iff {signature : Signature} :
    publicizer.IsTaken program signature ↔
      signature ∈ (publicizer.collectSignatures program).entries := by
  rw [mem_collectSignatures]
  constructor
  · intro taken
    obtain ⟨holder, definition, inUse, isOpen, same⟩ := taken
    obtain ⟨listed, isProgram⟩ := List.mem_filter.mp inUse.isProgram
    refine ⟨holder, listed, ?_, definition, inUse.member, ?_, same⟩
    · rw [works, inUse.isLiveClass, isProgram]
      rfl
    · rw [usesSignature, inUse.isLive]
      simpa using isOpen
  · intro collected
    obtain ⟨holder, listed, worked, definition, declared, uses, same⟩ := collected
    obtain ⟨live, isProgram⟩ := Bool.and_eq_true_iff.mp worked
    obtain ⟨isLive, isOpen⟩ := Bool.and_eq_true_iff.mp uses
    exact ⟨holder, definition, ⟨List.mem_filter.mpr ⟨listed, isProgram⟩, live, declared, isLive⟩,
      by simpa using isOpen, same⟩

theorem opens_iff (distinct : program.IsDistinct)
    (success : publicizer.run program previous = .ok outcome)
    (listed : member.holder ∈ program.classes) (declared : member.definition ∈ member.holder.methods)
    (isPrivate : member.definition.access.isPrivate)
    (isOwn : member.definition.access.isStatic = false) :
    outcome.opens member ↔ member.slot ∈ publicizer.openedSlots program := by
  rw [Outcome.opens, program_of_run distinct success, definition?_finalClass distinct listed,
    Option.any_some, decide_eq_true_iff, virtualMethods_finalClass distinct listed, List.mem_map]
  constructor
  · intro listedOpen
    obtain ⟨source, found, changed⟩ := listedOpen
    have sourceDeclared : source ∈ member.holder.methods := by
      rcases List.mem_append.mp found with virtual | opened
      · exact List.mem_append_right _ virtual
      · exact List.mem_append_left _ (mem_openedMethods.mp opened).1
    have sameMethod : source.method = member.definition.method := by
      rw [← method_finalMethod, changed]
      rfl
    cases distinct.eq_of_method listed sourceDeclared declared sameMethod
    have isOpen : (publicizer.finalMethod program member.holder member.definition).access.isPrivate =
        false := by
      rw [changed]
      rfl
    rcases opened_or_shared isOpen with opened | shared
    · exact opened
    · simp [isPrivate, isOwn] at shared
  · intro opened
    refine ⟨member.definition, ?_, finalMethod_of_opened distinct listed declared opened⟩
    rcases List.mem_append.mp declared with direct | virtual
    · exact List.mem_append_right _ (mem_openedMethods.mpr ⟨direct, opened⟩)
    · exact List.mem_append_left _ virtual

theorem opens_iff_of_mem_eligible (distinct : program.IsDistinct)
    (success : publicizer.run program previous = .ok outcome) {types : List TypeId}
    (listed : member ∈ publicizer.eligible program types) :
    outcome.opens member ↔ member.slot ∈ publicizer.openedSlots program := by
  obtain ⟨visited, -, candidate⟩ := mem_eligible.mp listed
  obtain ⟨known, declared⟩ := mem_classes_of_mem_members visited
  obtain ⟨-, isPrivate, -, isOwn, -⟩ := isCandidate_iff.mp candidate
  exact opens_iff distinct success known declared isPrivate isOwn

theorem opens_eligible_iff (distinct : program.IsDistinct)
    (success : publicizer.run program previous = .ok outcome)
    (listed : member ∈ publicizer.eligible program (visitOrder program.hierarchy)) :
    outcome.opens member ↔
      ¬publicizer.IsTaken program (member.signature program.interner) ∧
        (publicizer.eligible program (visitOrder program.hierarchy)).find? (fun other =>
          other.signature program.interner = member.signature program.interner) = some member := by
  rw [opens_iff_of_mem_eligible distinct success listed, openedSlots, mem_claim_iff, isTaken_iff,
    ← map_slot_eligible, List.find?_map, Option.map_eq_some_iff]
  apply and_congr_right
  intro _
  constructor
  · intro claimed
    obtain ⟨first, found, same⟩ := claimed
    have firstVisited := (mem_eligible.mp (List.mem_of_find?_eq_some found)).1
    cases eq_of_slot distinct firstVisited (mem_eligible.mp listed).1 same
    exact found
  · intro found
    exact ⟨member, found, rfl⟩

theorem skippedCollisions_eq (distinct : program.IsDistinct)
    (success : publicizer.run program previous = .ok outcome) :
    outcome.stats.skippedCollisions =
      ((publicizer.eligible program (visitOrder program.hierarchy)).filter
        (!outcome.opens ·)).length := by
  have counted : outcome.stats.tally .skipCollision = _ := tally_of_run distinct success (by decide)
  refine counted.trans ?_
  rw [count_skipCollision]
  congr 1
  apply List.filter_congr
  intro member listed
  rw [decide_not, Bool.not_inj_iff, Bool.eq_iff_iff, decide_eq_true_iff,
    opens_iff_of_mem_eligible distinct success listed]

theorem precedence_visitOrder (distinct : program.IsDistinct)
    (success : publicizer.run program previous = .ok outcome) :
    Precedence publicizer program outcome (visitOrder program.hierarchy) where
  taken signature taken member listed same := by
    rw [← same] at taken
    rw [← Bool.not_eq_true, opens_eligible_iff distinct success listed]
    exact fun opened => opened.1 taken
  first signature free present := by
    obtain ⟨first, found⟩ : ∃ first, (publicizer.eligible program (visitOrder program.hierarchy)).find?
        (fun member => member.signature program.interner = signature) = some first := by
      obtain ⟨member, listed, same⟩ := present
      exact Option.isSome_iff_exists.mp (List.find?_isSome.mpr ⟨member, listed, by simpa using same⟩)
    refine ⟨first, found, ?_⟩
    intro member listed same
    rw [opens_eligible_iff distinct success listed, same, found, Option.some.injEq, eq_comm]
    exact and_iff_right free
  only holder known definition declared isPrivate isOwn opened := by
    have claimed := (opens_iff distinct success known declared isPrivate isOwn).mp opened
    obtain ⟨visited, worked, -⟩ := of_mem_openedSlots distinct known claimed
    refine mem_eligible.mpr ⟨mem_members.mpr ⟨holder.type, visited, ?_, declared⟩, worked,
      isCandidate_of_opened distinct known declared claimed⟩
    exact distinct.definition?_eq_some.mpr ⟨known, rfl⟩
  skipped := skippedCollisions_eq distinct success

end Runs

theorem preorder_visitOrder (hierarchy : Hierarchy) :
    Preorder hierarchy.subclasses [] (hierarchy.interfaces ++ [hierarchy.root])
      (visitOrder hierarchy) := by
  unfold visitOrder
  -- at the start no type is seen, and the domain has both ends of every edge
  refine preorder_visit ?_ ?_ fun type => (and_iff_left List.not_mem_nil).symm
  · intro parent child edge
    refine List.mem_append_right _ (List.mem_flatMap.mpr ⟨_, Hierarchy.mem_targets.mp edge, ?_⟩)
    exact List.mem_cons_of_mem _ List.mem_cons_self
  · exact List.subset_append_left _ _

/-- The pass visits interfaces by increasing number and then the root, each followed by what is below it.
Of the methods with one signature that it might open up it opens up the first, unless the signature is
taken, and it counts those that it does not open up. -/
theorem first_visited_opened {base program : Program} (assembled : base.IsAssembled)
    (same : program.hierarchy = base.hierarchy) (distinct : program.IsDistinct)
    {publicizer : Publicizer} {previous : Lens} {outcome : Outcome}
    (success : publicizer.run program previous = .ok outcome) :
    program.hierarchy.interfaces.Pairwise (fun left right => left.index < right.index) ∧
      program.hierarchy.root = .object ∧
      ∃ order, (∀ other, Preorder program.hierarchy.subclasses []
          (program.hierarchy.interfaces ++ [program.hierarchy.root]) other ↔ other = order) ∧
        Precedence publicizer program outcome order := by
  refine ⟨same ▸ assembled.pairwise_interfaces, same ▸ assembled.root_eq, visitOrder program.hierarchy,
    ?_, precedence_visitOrder distinct success⟩
  intro other
  have visits := preorder_visitOrder program.hierarchy
  constructor
  · exact visits.unique
  · intro same
    rw [same]
    exact visits

open Rivals in
/-- The upper class is visited before the lower one, whose method of the same signature is skipped. -/
theorem first_visited_opened_rivals :
    ∃ outcome, (programOf upper lower).IsAssembled ∧ (programOf upper lower).IsDistinct ∧
      publicizer.run (programOf upper lower) .identity = .ok outcome ∧
      Precedence publicizer (programOf upper lower) outcome [.object, ⟨5⟩, ⟨6⟩] ∧
      outcome.opens ⟨upper, upperRun⟩ ∧ outcome.opens ⟨lower, lowerRun⟩ = false ∧
      outcome.stats.skippedCollisions = 1 := by
  have assembled : (programOf upper lower).IsAssembled :=
    isAssembled_assemble interner [upper, lower]
  have success : publicizer.run (programOf upper lower) .identity = .ok _ :=
    run_eq assembled.isDistinct rfl .identity
  obtain ⟨-, -, order, visits, precedence⟩ :=
    first_visited_opened assembled rfl assembled.isDistinct success
  have types : visitOrder (programOf upper lower).hierarchy = [.object, ⟨5⟩, ⟨6⟩] := by
    cbv
  cases ((visits _).mp (preorder_visitOrder _)).symm.trans types
  have eligible : publicizer.eligible (programOf upper lower) [.object, ⟨5⟩, ⟨6⟩] =
      [⟨upper, upperRun⟩, ⟨lower, lowerRun⟩] := by
    cbv
  have free : ¬publicizer.IsTaken (programOf upper lower) (interner.signature ⟨1⟩) := by
    have unused : (publicizer.collectSignatures (programOf upper lower)).entries = [] := by
      cbv
    rw [isTaken_iff, unused]
    exact List.not_mem_nil
  have same : interner.signature ⟨2⟩ = interner.signature ⟨1⟩ := by
    decide
  have upperListed : ⟨upper, upperRun⟩ ∈ publicizer.eligible (programOf upper lower)
      [.object, ⟨5⟩, ⟨6⟩] := by
    rw [eligible]
    exact List.mem_cons_self
  have lowerListed : ⟨lower, lowerRun⟩ ∈ publicizer.eligible (programOf upper lower)
      [.object, ⟨5⟩, ⟨6⟩] := by
    rw [eligible]
    exact List.mem_cons_of_mem _ List.mem_cons_self
  obtain ⟨winner, found, opened⟩ := precedence.first _ free ⟨_, upperListed, rfl⟩
  rw [eligible] at found
  cases found.symm.trans (List.find?_cons_of_pos (decide_eq_true rfl))
  have upperOpened := (opened _ upperListed rfl).mpr rfl
  have lowerSkipped : _ = false := Bool.eq_false_of_not_eq_true fun lowerOpened =>
    absurd ((opened _ lowerListed same).mp lowerOpened) (by decide)
  refine ⟨_, assembled, assembled.isDistinct, success, precedence, upperOpened, lowerSkipped, ?_⟩
  rw [precedence.skipped, eligible]
  simp [upperOpened, lowerSkipped]

end Shrinker.Publicizer

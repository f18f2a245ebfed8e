import Mathlib.Algebra.Ring.Nat
import Shrinker.Proofs.Program.Additions
import Shrinker.Proofs.Publicizer.Records

namespace Shrinker.Publicizer

open Reference Program Collection DepthFirst

theorem mem_visitOrder {hierarchy : Hierarchy} {type : TypeId} :
    type ∈ visitOrder hierarchy ↔ ∃ start ∈ hierarchy.interfaces ++ [hierarchy.root],
      Reaches hierarchy.subclasses start type := by
  unfold visitOrder
  -- the domain has both ends of every edge, so that it puts no limit to the walk
  rw [mem_visit_iff ?sources]
  case sources =>
    intro parent child edge
    refine List.mem_append_right _ (List.mem_flatMap.mpr ⟨_, Hierarchy.mem_targets.mp edge, ?_⟩)
    exact List.mem_cons_self
  refine and_iff_right_of_imp ?_
  rintro ⟨start, listed, path⟩
  cases path with
  | refl => exact List.mem_append_left _ listed
  | tail _ edge =>
      refine List.mem_append_right _ (List.mem_flatMap.mpr ⟨_, Hierarchy.mem_targets.mp edge, ?_⟩)
      exact List.mem_cons_of_mem _ List.mem_cons_self

/-- What the pass is to come upon: interfaces, and classes from which the walk up ends. -/
def IsWithinReach (program : Program) (definition : ClassDef) : Prop :=
  definition.isInterface ∨ program.WalkEnds definition.type

theorem mem_visitOrder_of_isWithinReach {program : Program} (assembled : program.IsAssembled)
    {definition : ClassDef} (member : definition ∈ program.classes)
    (within : IsWithinReach program definition) :
    definition.type ∈ visitOrder program.hierarchy := by
  rw [mem_visitOrder]
  rcases within with isInterface | ends
  · have listed : definition.type ∈ program.hierarchy.interfaces :=
      (assembled.describes.interfaces _).mpr ⟨definition, member, rfl, isInterface⟩
    exact ⟨definition.type, List.mem_append_left _ listed, .refl _⟩
  · have defined : definition.type ∈ program.definedTypes := List.mem_map_of_mem member
    have path := assembled.reaches_of_walkEnds ends (Or.inr (Or.inl defined))
    rw [← assembled.root_eq] at path
    exact ⟨_, List.mem_append_right _ (List.mem_singleton_self _), path⟩

structure IsPlainlyPublic (access : Access) : Prop where
  isPublic : access.isPublic = true
  notPrivate : access.isPrivate = false
  notProtected : access.isProtected = false

theorem isPlainlyPublic_promote (access : Access) : IsPlainlyPublic access.promote :=
  ⟨rfl, rfl, rfl⟩

section Opening

variable {publicizer : Publicizer} {program : Program} {definition : ClassDef}

theorem mem_liveClasses :
    definition ∈ publicizer.liveClasses program ↔
      definition ∈ program.classes ∧ publicizer.works definition := by
  simp only [liveClasses, programClasses, works, List.mem_filter, Bool.and_eq_true]
  rw [and_assoc, and_comm (a := definition.isProgram = true)]

theorem finalClass_of_visited (visited : definition.type ∈ visitOrder program.hierarchy)
    (worked : publicizer.works definition) :
    publicizer.finalClass program definition =
      publicizer.openClass program.interner (publicizer.openedSlots program) definition :=
  if_pos ⟨visited, worked⟩

theorem isPlainlyPublic_openClass (publicizer : Publicizer) (interner : Interner)
    (claimed : List Slot) (definition : ClassDef) :
    IsPlainlyPublic (publicizer.openClass interner claimed definition).access ∧
      ∀ field ∈ (publicizer.openClass interner claimed definition).fields,
        IsPlainlyPublic field.access := by
  refine ⟨isPlainlyPublic_promote _, ?_⟩
  intro field listed
  obtain ⟨declared, -, rfl⟩ := List.mem_map.mp listed
  exact isPlainlyPublic_promote _

end Opening

section Counting

variable {publicizer : Publicizer} {program : Program}

theorem promoted_count (stats : Stats) (verdicts : List Verdict) :
    (verdicts.foldl Stats.count stats).promotedClasses = stats.promotedClasses ∧
      (verdicts.foldl Stats.count stats).promotedFields = stats.promotedFields := by
  induction verdicts generalizing stats with
  | nil => exact ⟨rfl, rfl⟩
  | cons verdict verdicts ih =>
      obtain ⟨classes, fields⟩ := ih (stats.count verdict)
      rw [List.foldl_cons, classes, fields]
      cases verdict <;> exact ⟨rfl, rfl⟩

theorem promoted_countClass (publicizer : Publicizer) (claimed : List Slot) (interner : Interner)
    (stats : Stats) (definition : ClassDef) :
    (stats.countClass publicizer interner claimed definition).promotedClasses =
        stats.promotedClasses + 1 ∧
      (stats.countClass publicizer interner claimed definition).promotedFields =
        stats.promotedFields + definition.fields.length := by
  obtain ⟨classes, fields⟩ := promoted_count stats
    (definition.methods.map (publicizer.decision interner definition claimed))
  exact ⟨congrArg (· + 1) classes, congrArg (· + _) fields⟩

theorem promoted_foldl_countClass (publicizer : Publicizer) (claimed : List Slot)
    (interner : Interner) (stats : Stats) (definitions : List ClassDef) :
    (definitions.foldl (fun stats definition => stats.countClass publicizer interner claimed
        definition) stats).promotedClasses = stats.promotedClasses + definitions.length ∧
      (definitions.foldl (fun stats definition => stats.countClass publicizer interner claimed
        definition) stats).promotedFields =
          stats.promotedFields + (definitions.map (·.fields.length)).sum := by
  induction definitions generalizing stats with
  | nil => exact ⟨rfl, rfl⟩
  | cons definition definitions ih =>
      obtain ⟨classes, fields⟩ := promoted_countClass publicizer claimed interner stats definition
      rw [List.foldl_cons, (ih _).1, (ih _).2, classes, fields]
      simp only [List.length_cons, List.map_cons, List.sum_cons]
      omega

theorem nodup_liveClasses (distinct : program.IsDistinct) :
    (publicizer.liveClasses program).Nodup := by
  have once : program.classes.Nodup := List.Nodup.of_map _ distinct.types
  exact (once.filter _).filter _

theorem filterMap_workClass?_perm (distinct : program.IsDistinct)
    (visited : ∀ definition ∈ publicizer.liveClasses program,
      definition.type ∈ visitOrder program.hierarchy) :
    ((visitOrder program.hierarchy).filterMap (publicizer.workClass? program)).Perm
      (publicizer.liveClasses program) := by
  have once : ((visitOrder program.hierarchy).filterMap (publicizer.workClass? program)).Nodup := by
    refine (nodup_visitOrder program.hierarchy).filterMap ?_
    intro type other definition found again
    rw [← (mem_of_definition? (workClass?_eq_some.mp found).1).2,
      ← (mem_of_definition? (workClass?_eq_some.mp again).1).2]
  rw [List.perm_ext_iff_of_nodup once (nodup_liveClasses distinct)]
  intro definition
  rw [List.mem_filterMap]
  constructor
  · rintro ⟨type, -, found⟩
    obtain ⟨defined, worked⟩ := workClass?_eq_some.mp found
    exact mem_liveClasses.mpr ⟨(mem_of_definition? defined).1, worked⟩
  · intro live
    obtain ⟨member, worked⟩ := mem_liveClasses.mp live
    have defined := distinct.definition?_eq_some.mpr ⟨member, rfl⟩
    exact ⟨definition.type, visited definition live, workClass?_eq_some.mpr ⟨defined, worked⟩⟩

theorem stats_of_run (distinct : program.IsDistinct) {previous : Lens} {outcome : Outcome}
    (success : publicizer.run program previous = .ok outcome)
    (visited : ∀ definition ∈ publicizer.liveClasses program,
      definition.type ∈ visitOrder program.hierarchy) :
    outcome.stats.promotedClasses = (publicizer.liveClasses program).length ∧
      outcome.stats.promotedFields =
        ((publicizer.liveClasses program).map (·.fields.length)).sum := by
  rw [run_eq distinct (checked_of_run success) previous] at success
  cases success
  have all := filterMap_workClass?_perm distinct visited
  obtain ⟨classes, fields⟩ := promoted_foldl_countClass publicizer
    (publicizer.openedSlots program) program.interner
    { scannedMethods := publicizer.scannedMethods program
      collectedSignatures := (publicizer.collectSignatures program).size }
    ((visitOrder program.hierarchy).filterMap (publicizer.workClass? program))
  refine ⟨classes.trans ?_, fields.trans ?_⟩
  · rw [all.length_eq, Nat.zero_add]
  · rw [(all.map _).sum_eq, Nat.zero_add]

end Counting

/-- The pass comes upon no type twice. It comes upon every live class within reach and leaves it and its
fields plainly public. If all live classes are within reach, it counts every one of them and all their
fields. -/
theorem pass_reaches_live_classes {publicizer : Publicizer} {program : Program} {previous : Lens}
    {outcome : Outcome} (assembled : program.IsAssembled)
    (success : publicizer.run program previous = .ok outcome) :
    (visitOrder program.hierarchy).Nodup ∧
    (∀ definition ∈ publicizer.liveClasses program, IsWithinReach program definition →
      definition.type ∈ visitOrder program.hierarchy ∧
      ∃ changed, outcome.program.definition? definition.type = some changed ∧
        IsPlainlyPublic changed.access ∧
        changed.fields.map (·.field) = definition.fields.map (·.field) ∧
        ∀ field ∈ changed.fields, IsPlainlyPublic field.access) ∧
    ((∀ definition ∈ publicizer.liveClasses program, IsWithinReach program definition) →
      outcome.stats.promotedClasses = (publicizer.liveClasses program).length ∧
      outcome.stats.promotedFields =
        ((publicizer.liveClasses program).map (·.fields.length)).sum) := by
  have distinct := assembled.isDistinct
  refine ⟨nodup_visitOrder _, ?_, ?_⟩
  · intro definition live within
    obtain ⟨member, worked⟩ := mem_liveClasses.mp live
    have visited := mem_visitOrder_of_isWithinReach assembled member within
    refine ⟨visited, publicizer.finalClass program definition, ?_, ?_⟩
    · rw [program_of_run distinct success]
      exact definition?_finalClass distinct member
    · rw [finalClass_of_visited visited worked]
      obtain ⟨ofClass, ofFields⟩ := isPlainlyPublic_openClass publicizer program.interner
        (publicizer.openedSlots program) definition
      refine ⟨ofClass, ?_, ofFields⟩
      simp [openClass]
  · intro within
    refine stats_of_run distinct success ?_
    intro definition live
    exact mem_visitOrder_of_isWithinReach assembled (mem_liveClasses.mp live).1
      (within definition live)

namespace Rehung

/-- The types `LA;`, `LB;`, `LI;` and `LX;`. -/
def interner : Interner :=
  let (_, interner) := Interner.standard.internType "LA;"
  let (_, interner) := interner.internType "LB;"
  let (_, interner) := interner.internType "LI;"
  (interner.internType "LX;").2

def lower : ClassDef where
  type := ⟨5⟩
  origin := .program
  super? := some ⟨6⟩
  fields := [{ field := ⟨0⟩, access := { isPrivate := true } }]

def upper : ClassDef where
  type := ⟨6⟩
  origin := .program
  super? := some ⟨8⟩
  fields := [{ field := ⟨1⟩, access := { isProtected := true } }]

def shape : ClassDef where
  type := ⟨7⟩
  origin := .program
  access := { isInterface := true, isAbstract := true }
  super? := some ⟨7⟩

def program : Program where
  interner := interner
  classes := [lower, upper, shape]
  hierarchy := ((Hierarchy.addClass { root := .object } lower).addClass upper).addClass shape

theorem isAssembled : program.IsAssembled :=
  isAssembled_assemble interner [lower, upper, shape]

theorem isWithinReach (definition : ClassDef) (member : definition ∈ program.classes) :
    IsWithinReach program definition := by
  have upperFound : program.definition? ⟨6⟩ = some upper := rfl
  have lowerFound : program.definition? ⟨5⟩ = some lower := rfl
  have middle : program.WalkEnds ⟨6⟩ := .under upperFound rfl (.undefined rfl)
  simp only [program, List.mem_cons, List.not_mem_nil, or_false] at member
  rcases member with rfl | rfl | rfl
  · exact Or.inr (.under lowerFound rfl middle)
  · exact Or.inr middle
  · exact Or.inl rfl

end Rehung

open Rehung in
/-- The lower class, first hung below a superclass yet to come, and the interface above itself are both
reached. -/
theorem pass_reaches_live_classes_rehung :
    ∃ outcome, Rivals.publicizer.run program .identity = .ok outcome ∧
      outcome.stats.promotedClasses = 3 ∧ outcome.stats.promotedFields = 2 ∧
      ∃ changed, outcome.program.definition? lower.type = some changed ∧
        IsPlainlyPublic changed.access ∧ ∀ field ∈ changed.fields, IsPlainlyPublic field.access := by
  have success : Rivals.publicizer.run program .identity = .ok _ :=
    run_eq isAssembled.isDistinct rfl .identity
  obtain ⟨-, reached, counted⟩ := pass_reaches_live_classes isAssembled success
  have live (definition : ClassDef) (listed : definition ∈ Rivals.publicizer.liveClasses program) :
      IsWithinReach program definition :=
    isWithinReach definition (mem_liveClasses.mp listed).1
  obtain ⟨-, changed, found, ofClass, -, ofFields⟩ :=
    reached lower (by decide) (isWithinReach lower (by decide))
  exact ⟨_, success, (counted live).1, (counted live).2, changed, found, ofClass, ofFields⟩

end Shrinker.Publicizer

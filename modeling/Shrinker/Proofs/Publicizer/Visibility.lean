import Shrinker.Proofs.Publicizer.Records
import Shrinker.Proofs.Publicizer.Repetition

namespace Shrinker

open Reference

namespace Program

def Flag.isVisibility : Flag → Bool
  | .pub | .priv | .prot => true
  | _ => false

namespace Access

/-- Private, package, protected or public, from 0 to 3. A private declaration is private whatever else it
says of itself. -/
def visibility (access : Access) : Nat :=
  if access.isPrivate then 0
  else if access.isPublic then 3
  else if access.isProtected then 2
  else 1

/-- Nothing but the visibility has changed, and it has not become less. -/
structure Widens (before after : Access) : Prop where
  flags : ∀ flag : Flag, flag.isVisibility = false → after.has flag = before.has flag
  visible : before.visibility ≤ after.visibility

theorem Widens.refl (access : Access) : access.Widens access :=
  ⟨fun _ _ => rfl, Nat.le_refl _⟩

theorem visibility_le (access : Access) : access.visibility ≤ 3 := by
  unfold visibility
  grind

theorem visibility_eq_three {access : Access} (isPublic : access.isPublic = true)
    (isOpen : access.isPrivate = false) : access.visibility = 3 := by
  simp [visibility, isPublic, isOpen]

theorem widens_of_isPublic {before after : Access} (isPublic : after.isPublic = true)
    (isOpen : after.isPrivate = false)
    (flags : ∀ flag : Flag, flag.isVisibility = false → after.has flag = before.has flag) :
    before.Widens after where
  flags := flags
  visible := by
    rw [visibility_eq_three isPublic isOpen]
    exact visibility_le before

theorem widens_promote (access : Access) : access.Widens access.promote := by
  refine widens_of_isPublic rfl rfl ?_
  intro flag other
  cases flag with
  | pub | priv | prot => cases other
  | _ => rfl

end Access

end Program

namespace Publicizer

open Program Collection

theorem widens_promoteAccess (access : Access) : access.Widens (promoteAccess access) := by
  refine Access.widens_of_isPublic (isPublic_promoteAccess access) (isPrivate_promoteAccess access) ?_
  intro flag other
  unfold promoteAccess
  cases flag with
  | pub | priv | prot => cases other
  | _ => split <;> rfl

/-- Methods that a pass does not change: class initializers, methods that are not live, private
constructors, and private methods of objects that are kept, compiler-made or of an interface. -/
def IsExempt (publicizer : Publicizer) (interner : Interner) (holder : ClassDef)
    (definition : MethodDef) : Prop :=
  interner.isClassInitializer definition.method ∨
    publicizer.isLiveMethod definition.method = false ∨
    definition.access.isPrivate ∧ interner.isConstructor definition.method ∨
    definition.access.isPrivate ∧ definition.access.isStatic = false ∧
      (publicizer.keep.pinsAgainstShrinking definition.method ∨ definition.access.isSynthetic ∨
        holder.isInterface)

structure MethodKept (publicizer : Publicizer) (interner : Interner) (holder : ClassDef)
    (opened : Bool) (before after : MethodDef) : Prop where
  method : after.method = before.method
  code : after.code = before.code
  access : Access.Widens
    (if opened then { before.access with isFinal := true } else before.access) after.access
  publicized : if opened then IsPublicized before after else after.publicized = before.publicized
  exempt : publicizer.IsExempt interner holder before → after.access = before.access

section Methods

variable {publicizer : Publicizer} {interner : Interner} {holder : ClassDef} {claimed : List Slot}
  {definition : MethodDef}

theorem MethodKept.refl (publicizer : Publicizer) (interner : Interner) (holder : ClassDef)
    (definition : MethodDef) :
    publicizer.MethodKept interner holder false definition definition :=
  ⟨rfl, rfl, .refl _, rfl, fun _ => rfl⟩

theorem decision_of_isExempt (exempt : publicizer.IsExempt interner holder definition) :
    publicizer.decision interner holder claimed definition ≠ .promote ∧
      publicizer.decision interner holder claimed definition ≠ .publicize := by
  unfold IsExempt at exempt
  unfold decision isCandidate verdict
  grind

theorem methodKept_settle :
    publicizer.MethodKept interner holder
      (publicizer.decision interner holder claimed definition == .publicize) definition
      (publicizer.settle interner holder claimed definition) := by
  unfold settle
  cases decided : publicizer.decision interner holder claimed definition with
  | promote =>
      refine ⟨rfl, rfl, widens_promoteAccess _, rfl, ?_⟩
      intro exempt
      exact absurd decided (decision_of_isExempt exempt).1
  | publicize =>
      obtain ⟨candidate, -⟩ := decision_eq_publicize.mp decided
      obtain ⟨-, wasPrivate, -, wasInstance, -⟩ := isCandidate_iff.mp candidate
      refine ⟨rfl, rfl, Access.widens_promote _, ⟨wasPrivate, wasInstance, rfl, rfl, rfl, rfl⟩, ?_⟩
      intro exempt
      exact absurd decided (decision_of_isExempt exempt).2
  | leave | skipPinned | skipCollision => exact .refl ..

theorem isDirect_settle
    (named : definition.access.isConstructor → interner.isInitializer definition.method) :
    (publicizer.settle interner holder claimed definition).isDirect =
      (definition.isDirect &&
        !(publicizer.decision interner holder claimed definition == .publicize)) := by
  unfold settle
  cases decided : publicizer.decision interner holder claimed definition with
  | promote =>
      have shared := shared_of_decision_eq_promote decided
      have isOpen := isPrivate_promoteAccess definition.access
      have flags := (widens_promoteAccess definition.access).flags
      have isStatic := flags .static rfl
      have isConstructor := flags .constructor rfl
      simp only [Access.has] at isStatic isConstructor
      simp only [carryOut, MethodDef.isDirect, isOpen, isStatic, isConstructor]
      cases isPrivate : definition.access.isPrivate with
      | false => simp
      | true =>
          have wasStatic : definition.access.isStatic = true := by
            simpa [isPrivate] using shared
          simp [wasStatic]
  | publicize =>
      obtain ⟨candidate, -⟩ := decision_eq_publicize.mp decided
      obtain ⟨-, -, -, wasInstance, -, -, ordinary, -⟩ := isCandidate_iff.mp candidate
      have unflagged : definition.access.isConstructor = false := by
        rw [← Bool.not_eq_true]
        intro flagged
        rw [named flagged] at ordinary
        cases ordinary
      simp [carryOut, MethodDef.publicize, MethodDef.isDirect, Access.promote, wasInstance, unflagged]
  | leave | skipPinned | skipCollision => simp [carryOut]

end Methods

/-- What may become of a class: its members are those that it had. The direct methods that are opened up
go to the end of the virtual ones, all others stay where they are. -/
structure ClassKept (publicizer : Publicizer) (interner : Interner) (before after : ClassDef) :
    Prop where
  type : after.type = before.type
  origin : after.origin = before.origin
  super? : after.super? = before.super?
  interfaces : after.interfaces = before.interfaces
  access : before.access.Widens after.access
  fields : List.Forall₂ (fun old new => new.field = old.field ∧ old.access.Widens new.access)
    before.fields after.fields
  methods : ∃ (moves : MethodDef → Bool) (stayed joined : List MethodDef),
    List.Forall₂ (publicizer.MethodKept interner before false)
      (before.directMethods.filter (! moves ·)) after.directMethods ∧
    List.Forall₂ (publicizer.MethodKept interner before false) before.virtualMethods stayed ∧
    List.Forall₂ (publicizer.MethodKept interner before true)
      (before.directMethods.filter moves) joined ∧
    after.virtualMethods = stayed ++ joined
  direct : after.methods.filter (·.isDirect) = after.directMethods
  virtual : after.methods.filter (! ·.isDirect) = after.virtualMethods

/-- Only methods that are called like initializers are flagged as constructors. -/
def FlagsInitializers (program : Program) : Prop :=
  ∀ holder ∈ program.classes, ∀ definition ∈ holder.methods,
    definition.access.isConstructor → program.interner.isInitializer definition.method

def opensUp (publicizer : Publicizer) (program : Program) (holder : ClassDef)
    (definition : MethodDef) : Bool :=
  (⟨holder.type, definition.method⟩ : Slot) ∈ publicizer.openedSlots program

section Classes

variable {publicizer : Publicizer} {program : Program} {holder : ClassDef}
  {definition : MethodDef}

theorem opensUp_eq_true :
    publicizer.opensUp program holder definition = true ↔
      (⟨holder.type, definition.method⟩ : Slot) ∈ publicizer.openedSlots program :=
  decide_eq_true_iff

theorem openedMethods_eq :
    publicizer.openedMethods program holder =
      holder.directMethods.filter (publicizer.opensUp program holder) :=
  rfl

theorem opensUp_of_untouched (distinct : program.IsDistinct) (member : holder ∈ program.classes)
    (untouched : ¬ (holder.type ∈ visitOrder program.hierarchy ∧ publicizer.works holder)) :
    publicizer.opensUp program holder definition = false := by
  rw [← Bool.not_eq_true, opensUp_eq_true]
  intro opened
  obtain ⟨visited, worked, -⟩ := of_mem_openedSlots distinct member opened
  exact untouched ⟨visited, worked⟩

variable (publicizer) in
theorem finalMethod_eq_settle_or (distinct : program.IsDistinct) (member : holder ∈ program.classes)
    (declared : definition ∈ holder.methods) :
    publicizer.finalMethod program holder definition =
        publicizer.settle program.interner holder (publicizer.openedSlots program) definition ∧
      (publicizer.decision program.interner holder (publicizer.openedSlots program) definition ==
        .publicize) = publicizer.opensUp program holder definition ∨
    publicizer.finalMethod program holder definition = definition ∧
      publicizer.opensUp program holder definition = false := by
  by_cases visited : holder.type ∈ visitOrder program.hierarchy ∧ publicizer.works holder
  · refine Or.inl ⟨if_pos visited, ?_⟩
    rw [Bool.eq_iff_iff, beq_iff_eq, decision_eq_publicize, opensUp_eq_true]
    exact and_iff_right_of_imp (isCandidate_of_opened distinct member declared)
  · exact Or.inr ⟨if_neg visited, opensUp_of_untouched distinct member visited⟩

variable (publicizer) in
theorem methodKept_finalMethod (distinct : program.IsDistinct) (member : holder ∈ program.classes)
    (declared : definition ∈ holder.methods) :
    publicizer.MethodKept program.interner holder (publicizer.opensUp program holder definition)
      definition (publicizer.finalMethod program holder definition) := by
  rcases finalMethod_eq_settle_or publicizer distinct member declared with
    ⟨settled, decided⟩ | ⟨same, unopened⟩
  · rw [settled, ← decided]
    exact methodKept_settle
  · rw [same, unopened]
    exact .refl ..

theorem isDirect_finalMethod (distinct : program.IsDistinct) (flagged : FlagsInitializers program)
    (member : holder ∈ program.classes) (declared : definition ∈ holder.methods) :
    (publicizer.finalMethod program holder definition).isDirect =
      (definition.isDirect && !publicizer.opensUp program holder definition) := by
  rcases finalMethod_eq_settle_or publicizer distinct member declared with
    ⟨settled, decided⟩ | ⟨same, unopened⟩
  · rw [settled, ← decided]
    exact isDirect_settle (flagged holder member definition declared)
  · rw [same, unopened, Bool.not_false, Bool.and_true]

theorem directMethods_finalClass (distinct : program.IsDistinct)
    (member : holder ∈ program.classes) :
    (publicizer.finalClass program holder).directMethods =
      (holder.directMethods.filter (! publicizer.opensUp program holder ·)).map
        (publicizer.finalMethod program holder) := by
  unfold finalClass openVisited finalMethod
  split
  · simp only [openClass, List.filter_map]
    congr 2
    funext definition
    simp [opensUp]
  · rename_i untouched
    rw [List.map_id', List.filter_eq_self.mpr]
    intro definition _
    rw [opensUp_of_untouched distinct member untouched]
    rfl

theorem isPlaced_finalClass (distinct : program.IsDistinct) (flagged : FlagsInitializers program)
    (member : holder ∈ program.classes) (placed : IsPlaced holder) :
    IsPlaced (publicizer.finalClass program holder) := by
  constructor
  · rw [directMethods_finalClass distinct member]
    intro method listed
    obtain ⟨definition, kept, rfl⟩ := List.mem_map.mp listed
    obtain ⟨direct, unopened⟩ := List.mem_filter.mp kept
    rw [isDirect_finalMethod distinct flagged member (List.mem_append_left _ direct),
      placed.direct definition direct, unopened]
    rfl
  · rw [virtualMethods_finalClass distinct member]
    intro method listed
    obtain ⟨definition, old, rfl⟩ := List.mem_map.mp listed
    rcases List.mem_append.mp old with virtual | moved
    · rw [isDirect_finalMethod distinct flagged member (List.mem_append_right _ virtual),
        placed.virtual definition virtual]
      rfl
    · obtain ⟨direct, opened⟩ := mem_openedMethods.mp moved
      rw [isDirect_finalMethod distinct flagged member (List.mem_append_left _ direct),
        opensUp_eq_true.mpr opened, Bool.not_true, Bool.and_false]

theorem IsPlaced.filter_methods (placed : IsPlaced holder) :
    holder.methods.filter (·.isDirect) = holder.directMethods ∧
      holder.methods.filter (! ·.isDirect) = holder.virtualMethods := by
  have direct : holder.directMethods.filter (·.isDirect) = holder.directMethods :=
    List.filter_eq_self.mpr placed.direct
  have noDirect : holder.virtualMethods.filter (·.isDirect) = [] := by
    simpa using placed.virtual
  have virtual : holder.virtualMethods.filter (! ·.isDirect) = holder.virtualMethods := by
    simpa using placed.virtual
  have noVirtual : holder.directMethods.filter (! ·.isDirect) = [] := by
    simpa using placed.direct
  simp only [ClassDef.methods, List.filter_append, direct, noDirect, virtual, noVirtual,
    List.append_nil, List.nil_append, and_self]

theorem IsPlaced.opensUp_eq_false (placed : IsPlaced holder) (distinct : program.IsDistinct)
    (member : holder ∈ program.classes) (virtual : definition ∈ holder.virtualMethods) :
    publicizer.opensUp program holder definition = false := by
  rw [← Bool.not_eq_true, opensUp_eq_true]
  intro opened
  have declared : definition ∈ holder.methods := List.mem_append_right _ virtual
  have isPrivate :=
    (isCandidate_iff.mp (isCandidate_of_opened distinct member declared opened)).2.1
  have needsDispatch := placed.virtual definition virtual
  simp [MethodDef.isDirect, isPrivate] at needsDispatch

theorem access_finalClass : holder.access.Widens (publicizer.finalClass program holder).access := by
  unfold finalClass openVisited
  split
  · exact Access.widens_promote _
  · exact .refl _

theorem fields_finalClass :
    List.Forall₂ (fun old new => new.field = old.field ∧ old.access.Widens new.access)
      holder.fields (publicizer.finalClass program holder).fields := by
  unfold finalClass openVisited
  split
  · rw [openClass, List.forall₂_map_right_iff, List.forall₂_same]
    intro field _
    exact ⟨rfl, Access.widens_promote _⟩
  · rw [List.forall₂_same]
    intro field _
    exact ⟨rfl, .refl _⟩

theorem classKept_finalClass (distinct : program.IsDistinct) (flagged : FlagsInitializers program)
    (member : holder ∈ program.classes) (placed : IsPlaced holder) :
    publicizer.ClassKept program.interner holder (publicizer.finalClass program holder) := by
  have origin : (publicizer.finalClass program holder).origin = holder.origin := by
    unfold finalClass openVisited
    split <;> rfl
  have placedAfter : IsPlaced (publicizer.finalClass program holder) :=
    isPlaced_finalClass distinct flagged member placed
  obtain ⟨direct, virtual⟩ := placedAfter.filter_methods
  refine ⟨type_finalClass, origin, keepsEdges_finalClass.super? holder,
    keepsEdges_finalClass.interfaces holder, access_finalClass, fields_finalClass, ?_, direct, virtual⟩
  refine ⟨publicizer.opensUp program holder,
    holder.virtualMethods.map (publicizer.finalMethod program holder),
    (publicizer.openedMethods program holder).map (publicizer.finalMethod program holder),
    ?_, ?_, ?_, ?_⟩
  · rw [directMethods_finalClass distinct member, List.forall₂_map_right_iff, List.forall₂_same]
    intro definition listed
    obtain ⟨declared, stays⟩ := List.mem_filter.mp listed
    have unchanged := methodKept_finalMethod publicizer distinct member
      (List.mem_append_left _ declared)
    rw [Bool.not_eq_true'] at stays
    rwa [stays] at unchanged
  · rw [List.forall₂_map_right_iff, List.forall₂_same]
    intro definition declared
    have unchanged := methodKept_finalMethod publicizer distinct member
      (List.mem_append_right _ declared)
    rwa [placed.opensUp_eq_false distinct member declared] at unchanged
  · rw [List.forall₂_map_right_iff, openedMethods_eq, List.forall₂_same]
    intro definition listed
    obtain ⟨declared, opened⟩ := List.mem_filter.mp listed
    have changed := methodKept_finalMethod publicizer distinct member
      (List.mem_append_left _ declared)
    rwa [opened] at changed
  · rw [virtualMethods_finalClass distinct member, List.map_append]

theorem finalClass_of_idle (idle : publicizer.works holder = false) :
    publicizer.finalClass program holder = holder := by
  refine if_neg ?_
  rintro ⟨-, worked⟩
  rw [idle] at worked
  cases worked

end Classes

/-- A pass leaves references and hierarchy alone, and so it does classes of libraries and classes that are
not live. Of the others each keeps its members and all that is said of them but for their visibility, which
never becomes less, and but for the methods that are opened up: they become final too and move to the end
of the virtual ones. Every method stands in the list that it belongs to. -/
theorem pass_changes_visibility_only {publicizer : Publicizer} {program : Program} {previous : Lens}
    {outcome : Outcome} (distinct : program.IsDistinct)
    (built : ∀ holder ∈ program.classes, IsBuilt holder) (flagged : FlagsInitializers program)
    (success : publicizer.run program previous = .ok outcome) :
    outcome.program.interner = program.interner ∧
      outcome.program.hierarchy = program.hierarchy ∧
      List.Forall₂ (fun before after =>
          publicizer.ClassKept program.interner before after ∧
            (before.origin = .library ∨ publicizer.isLiveClass before.type = false →
              after = before))
        program.classes outcome.program.classes := by
  rw [program_of_run distinct success]
  refine ⟨rfl, rfl, ?_⟩
  rw [reshape, List.forall₂_map_right_iff, List.forall₂_same]
  intro holder member
  refine ⟨classKept_finalClass distinct flagged member (built holder member).isPlaced, ?_⟩
  intro idle
  apply finalClass_of_idle
  rcases idle with library | dead
  · simp [works, ClassDef.isProgram, library]
  · simp [works, dead]

namespace Mixed

/-- The references `LA;-><init>()V`, `LA;->run()V`, `LA;->help()V` and `LA;->go()V`. -/
def interner : Interner :=
  let (holder, interner) := Interner.standard.internType "LA;"
  let (proto, interner) := interner.internProto ⟨[], .void⟩
  let (run, interner) := interner.internSymbol "run"
  let (help, interner) := interner.internSymbol "help"
  let (go, interner) := interner.internSymbol "go"
  let (_, interner) := interner.internMethod ⟨holder, .constructor, proto⟩
  let (_, interner) := interner.internMethod ⟨holder, run, proto⟩
  let (_, interner) := interner.internMethod ⟨holder, help, proto⟩
  (interner.internMethod ⟨holder, go, proto⟩).2

def methods : List MethodDef :=
  [{ method := ⟨1⟩, access := { isPrivate := true, isConstructor := true } },
    { method := ⟨2⟩, access := { isPrivate := true } },
    { method := ⟨3⟩, access := { isPrivate := true, isStatic := true } },
    { method := ⟨4⟩, access := { isProtected := true } }]

def holder : ClassDef :=
  methods.foldl ClassDef.addMethod { type := ⟨5⟩, origin := .program, super? := some .object }

def program : Program where
  interner := interner
  classes := [holder]
  hierarchy := Hierarchy.addClass { root := .object } holder

end Mixed

open Mixed Rivals in
/-- The private method of objects moves behind the protected one. The private constructor and the static
method stay where they are. -/
theorem pass_changes_visibility_only_mixed :
    ∃ outcome changed, publicizer.run Mixed.program .identity = .ok outcome ∧
      outcome.program.classes = [changed] ∧
      publicizer.ClassKept Mixed.interner holder changed ∧
      changed.directMethods.map (·.method) = [⟨1⟩, ⟨3⟩] ∧
      changed.virtualMethods.map (·.method) = [⟨4⟩, ⟨2⟩] := by
  have distinct : Mixed.program.IsDistinct := ⟨by decide, by decide, by decide⟩
  have built : ∀ holder ∈ Mixed.program.classes, IsBuilt holder := by
    intro other member
    cases List.mem_singleton.mp member
    exact ⟨{ type := ⟨5⟩, origin := .program, super? := some .object }, methods, rfl, rfl, rfl⟩
  have flagged : FlagsInitializers Mixed.program := by
    unfold FlagsInitializers
    decide
  have success : publicizer.run Mixed.program .identity = .ok _ := run_eq distinct rfl .identity
  obtain ⟨-, -, kept⟩ := pass_changes_visibility_only distinct built flagged success
  have first := (List.forall₂_cons.mp kept).1.1
  refine ⟨_, _, success, rfl, first, ?_, ?_⟩
  · cbv
  · cbv

end Publicizer

end Shrinker

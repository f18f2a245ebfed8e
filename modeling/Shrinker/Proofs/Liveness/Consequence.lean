import Shrinker.Liveness.Assertions
import Shrinker.Liveness.Trace
import Shrinker.Proofs.Liveness.Uses

namespace Shrinker.Liveness.Trace

open Bytecode Reference Program

/-- What the body of a method makes use of. Only bodies of the program count. -/
def methodBody (method : MethodId) (hit : MethodHit) : Except BrokenProgram (List Action) :=
  if hit.holder.isProgram then
    (hit.definition.code.map (bodyActions method)).getD (.ok [])
  else
    .ok []

def methodNeeds (program : Program) (method : MethodId) : List Action :=
  match program.methodDefinition? method with
  | none => []
  | some hit =>
      .markClass hit.holder.type ::
        match methodBody method hit with
        | .ok actions => actions
        | .error _ => []

def statusActions (program : Program) (handlers : List MethodId) (field : FieldId)
    (context : Option MethodId) : List Action :=
  if Assertions.isStatusField program.interner field then
    handlers.map fun handler => .traceInvoke .static handler context
  else
    []

/-- What an action calls for, whatever else is taken. -/
def needs (program : Program) (handlers : List MethodId) : Action → List Action
  | .markClass type => classActions program type
  | .markInstantiated type => [.markClass type]
  | .markMethod method _ => methodNeeds program method
  | .markField field => [.markClass (program.interner.field field).holder]
  | .traceInvoke kind method _ => invokeActions program kind method
  | .traceStaticRead field context =>
      fieldActions program field ++ statusActions program handlers field context
  | .traceStaticWrite field _ | .traceInstanceRead field _ | .traceInstanceWrite field _ =>
      fieldActions program field

section Members

variable {program : Program} {handlers : List MethodId} {action : Action}

theorem mem_classActions {type : TypeId} :
    action ∈ classActions program type ↔
      ∃ definition, program.definition? type = some definition ∧
        ((∃ parent ∈ definition.parents, .markClass parent = action) ∨
          definition.isProgram ∧ ∃ initializer,
            definition.directMethods.find? (fun candidate =>
              program.interner.isClassInitializer candidate.method) = some initializer ∧
            .markMethod initializer.method .classInitializer = action) := by
  unfold classActions
  cases program.definition? type with
  | none => simp
  | some definition =>
      simp only [List.mem_append, List.mem_map, Option.some.injEq, exists_eq_left']
      refine or_congr_right ?_
      split
      · rename_i isProgram
        rw [Option.mem_toList, Option.map_eq_some_iff, and_iff_right isProgram]
      · rename_i library
        simp [library]

theorem mem_overrideActions {type : TypeId} {target : MethodId} :
    action ∈ overrideActions program type target ↔
      program.isSubtype type (program.interner.method target).holder ∧
        ∃ hit, program.dispatchMethod? type target = some hit ∧
          .markMethod hit.definition.method .override = action := by
  unfold overrideActions
  split
  · rename_i below
    rw [Option.mem_toList, Option.map_eq_some_iff, and_iff_right below]
  · rename_i apart
    simp [apart]

theorem mem_invokeActions {kind : InvokeKind} {method : MethodId} :
    action ∈ invokeActions program kind method ↔
      ∃ hit, calledMethod? program kind method = some hit ∧
        .markMethod hit.definition.method (.invoke kind) = action :=
  Option.mem_toList.trans Option.map_eq_some_iff

theorem mem_fieldActions {field : FieldId} :
    action ∈ fieldActions program field ↔
      ∃ hit, program.resolveField? field = some hit ∧
        .markField hit.definition.field = action :=
  Option.mem_toList.trans Option.map_eq_some_iff

theorem mem_statusActions {field : FieldId} {context : Option MethodId} :
    action ∈ statusActions program handlers field context ↔
      Assertions.isStatusField program.interner field ∧
        ∃ handler ∈ handlers, .traceInvoke .static handler context = action := by
  unfold statusActions
  split
  · rename_i status
    rw [List.mem_map, and_iff_right status]
  · rename_i other
    simp [other]

theorem mem_rootActions {roots : Roots} :
    action ∈ rootActions program roots ↔
      (∃ type ∈ roots.classes, .markInstantiated type = action) ∨
        (∃ method ∈ roots.methods, (program.methodDefinition? method).isSome ∧
          .markMethod method .keepRule = action) ∨
        ∃ field ∈ roots.fields, .markField field = action := by
  simp only [rootActions, List.mem_append, List.mem_map, List.mem_filter, and_assoc, or_assoc]

theorem mem_methodBody {method : MethodId} {hit : MethodHit} {actions : List Action}
    (read : methodBody method hit = .ok actions) :
    action ∈ actions ↔
      hit.holder.isProgram ∧ ∃ code, hit.definition.code = some code ∧
        ∃ instruction ∈ uses code, stackAction? method instruction = some action := by
  unfold methodBody at read
  split at read
  · rename_i isProgram
    cases body : hit.definition.code with
    | none =>
        rw [body] at read
        cases read
        simp
    | some code =>
        rw [body] at read
        cases bodyActions_eq_ok read
        simp [isProgram, List.mem_filterMap]
  · rename_i library
    cases read
    simp [library]

theorem mem_methodNeeds {method : MethodId} :
    action ∈ methodNeeds program method ↔
      ∃ hit, program.methodDefinition? method = some hit ∧
        (action = .markClass hit.holder.type ∨
          ∃ actions, methodBody method hit = .ok actions ∧ action ∈ actions) := by
  unfold methodNeeds
  cases program.methodDefinition? method with
  | none => simp
  | some hit => cases body : methodBody method hit <;> simp [body]

end Members

def IsTarget (taken : Action → Prop) (target : MethodId) : Prop :=
  ∃ kind context, isDispatched kind ∧ taken (.traceInvoke kind target context)

inductive Consequence (program : Program) (handlers : List MethodId) (taken : Action → Prop) :
    Action → Prop where
  | need {cause action : Action} :
      taken cause → action ∈ needs program handlers cause →
        Consequence program handlers taken action
  | override {type : TypeId} {target : MethodId} {action : Action} :
      taken (.markInstantiated type) → IsTarget taken target →
        action ∈ overrideActions program type target →
          Consequence program handlers taken action

inductive Derived (program : Program) (handlers : List MethodId) (start : List Action) :
    Action → Prop where
  | start {action : Action} : action ∈ start → Derived program handlers start action
  | need {cause action : Action} :
      Derived program handlers start cause → action ∈ needs program handlers cause →
        Derived program handlers start action
  | override {type : TypeId} {kind : InvokeKind} {target : MethodId} {context : Option MethodId}
      {action : Action} :
      Derived program handlers start (.markInstantiated type) →
        Derived program handlers start (.traceInvoke kind target context) →
          isDispatched kind → action ∈ overrideActions program type target →
            Derived program handlers start action

section Consequences

variable {program : Program} {handlers : List MethodId} {start : List Action}
  {action other : Action}

theorem Consequence.mono {fewer more : Action → Prop} (weaker : ∀ action, fewer action → more action)
    (consequence : Consequence program handlers fewer action) :
    Consequence program handlers more action := by
  cases consequence with
  | need taken needed => exact .need (weaker _ taken) needed
  | override instantiated target overrides =>
      obtain ⟨kind, context, dispatched, called⟩ := target
      exact .override (weaker _ instantiated) ⟨kind, context, dispatched, weaker _ called⟩ overrides

theorem Derived.of_consequence {taken : Action → Prop}
    (derived : ∀ action, taken action → Derived program handlers start action)
    (consequence : Consequence program handlers taken action) :
    Derived program handlers start action := by
  cases consequence with
  | need taken needed => exact .need (derived _ taken) needed
  | override instantiated target overrides =>
      obtain ⟨kind, context, dispatched, called⟩ := target
      exact .override (derived _ instantiated) (derived _ called) dispatched overrides

theorem Derived.least {allowed : Action → Prop} (first : ∀ action ∈ start, allowed action)
    (closed : ∀ action, Consequence program handlers allowed action → allowed action)
    (derived : Derived program handlers start action) : allowed action := by
  induction derived with
  | start listed => exact first _ listed
  | need _ needed ih => exact closed _ (.need ih needed)
  | override _ _ dispatched overrides ihInstance ihCall =>
      exact closed _ (.override ihInstance ⟨_, _, dispatched, ihCall⟩ overrides)

/-- What a new action has for consequence together with an older one. -/
inductive Crosses (program : Program) (taken : List Action) : Action → Action → Prop where
  | instantiated {type : TypeId} {target : MethodId} {action : Action} :
      IsTarget (· ∈ taken) target → action ∈ overrideActions program type target →
        Crosses program taken (.markInstantiated type) action
  | called {kind : InvokeKind} {target : MethodId} {context : Option MethodId} {type : TypeId}
      {action : Action} :
      isDispatched kind → .markInstantiated type ∈ taken →
        action ∈ overrideActions program type target →
          Crosses program taken (.traceInvoke kind target context) action

theorem isTarget_append {taken : List Action} {target : MethodId} :
    IsTarget (· ∈ taken ++ [action]) target ↔
      IsTarget (· ∈ taken) target ∨
        ∃ kind context, isDispatched kind ∧ action = .traceInvoke kind target context := by
  simp only [IsTarget, List.mem_append, List.mem_singleton]
  constructor
  · intro target
    obtain ⟨kind, context, dispatched, old | new⟩ := target
    · exact Or.inl ⟨kind, context, dispatched, old⟩
    · exact Or.inr ⟨kind, context, dispatched, new.symm⟩
  · intro either
    rcases either with ⟨kind, context, dispatched, old⟩ | ⟨kind, context, dispatched, rfl⟩
    · exact ⟨kind, context, dispatched, Or.inl old⟩
    · exact ⟨kind, context, dispatched, Or.inr rfl⟩

theorem consequence_append {taken : List Action} :
    Consequence program handlers (· ∈ taken ++ [action]) other ↔
      Consequence program handlers (· ∈ taken) other ∨
        other ∈ needs program handlers action ∨ Crosses program taken action other := by
  constructor
  · intro consequence
    cases consequence with
    | need cause needed =>
        rcases List.mem_append.mp cause with old | new
        · exact Or.inl (.need old needed)
        · cases List.mem_singleton.mp new
          exact Or.inr (Or.inl needed)
    | override instantiated target overrides =>
        rcases List.mem_append.mp instantiated with old | new
        · rcases isTarget_append.mp target with known | ⟨kind, context, dispatched, rfl⟩
          · exact Or.inl (.override old known overrides)
          · exact Or.inr (Or.inr (.called dispatched old overrides))
        · cases List.mem_singleton.mp new
          rcases isTarget_append.mp target with known | ⟨kind, context, dispatched, impossible⟩
          · exact Or.inr (Or.inr (.instantiated known overrides))
          · cases impossible
  · have last : action ∈ taken ++ [action] := List.mem_append_right _ (List.mem_singleton_self _)
    intro due
    rcases due with old | needed | crosses
    · exact old.mono fun _ => List.mem_append_left _
    · exact .need last needed
    · cases crosses with
      | instantiated target overrides =>
          exact .override last (isTarget_append.mpr (Or.inl target)) overrides
      | called dispatched instantiated overrides =>
          exact .override (List.mem_append_left _ instantiated)
            (isTarget_append.mpr (Or.inr ⟨_, _, dispatched, rfl⟩)) overrides

end Consequences

end Shrinker.Liveness.Trace

import Mathlib
import Shrinker.Proofs.Liveness.Bound

namespace Shrinker.Liveness

open Bytecode Reference Program

structure Members where
  classes : TypeId → Prop
  instantiated : TypeId → Prop
  methods : MethodId → Prop
  fields : FieldId → Prop

namespace Members

structure Within (members larger : Members) : Prop where
  classes : ∀ type, members.classes type → larger.classes type
  instantiated : ∀ type, members.instantiated type → larger.instantiated type
  methods : ∀ method, members.methods method → larger.methods method
  fields : ∀ field, members.fields field → larger.fields field

def ofLive (live : LiveSet) : Members where
  classes type := type ∈ live.classes
  instantiated type := type ∈ live.instantiated
  methods method := method ∈ live.methods
  fields field := field ∈ live.fields

/-- The method is a member, unless the program has no definition of it. -/
def Holds (members : Members) (program : Program) (method : MethodId) : Prop :=
  (program.methodDefinition? method).isSome → members.methods method

/-- The methods that a call may run are members. A call with dispatch may run a method of each
instantiated type below the holder that it names. -/
structure HonoursCall (members : Members) (program : Program) (kind : InvokeKind)
    (method : MethodId) : Prop where
  exact : kind = .direct → members.Holds program method
  resolved : kind ≠ .direct → ∀ hit, program.resolveMethod? method = some hit →
    members.Holds program hit.definition.method
  dispatched : kind = .virtual ∨ kind = .interface → ∀ type, members.instantiated type →
    program.isSubtype type (program.interner.method method).holder →
      ∀ hit, program.dispatchMethod? type method = some hit →
        members.Holds program hit.definition.method

def HonoursField (members : Members) (program : Program) (field : FieldId) : Prop :=
  ∀ hit, program.resolveField? field = some hit → members.fields hit.definition.field

def IsStatus (program : Program) (field : FieldId) : Prop :=
  Assertions.IsFlag program.interner field ∨ field = .kotlinAssertionsEnabled

/-- What an instruction refers to is found among the members. -/
def Honours (members : Members) (program : Program) (handlers : List MethodId) :
    StackInstruction → Prop
  | .new type => members.instantiated type
  | .constClass type => members.classes type
  | .staticGet field =>
      members.HonoursField program field ∧
        (IsStatus program field → ∀ handler ∈ handlers,
          members.HonoursCall program .static handler)
  | .staticPut field | .instanceGet field | .instancePut field =>
      members.HonoursField program field
  | .invoke kind method => members.HonoursCall program kind method
  | _ => True

/-- The members have the roots and all that they need. -/
structure IsClosed (members : Members) (program : Program) (roots : Roots)
    (handlers : List MethodId) : Prop where
  rootClasses : ∀ type ∈ roots.classes, members.instantiated type
  rootMethods : ∀ method ∈ roots.methods, members.Holds program method
  rootFields : ∀ field ∈ roots.fields, members.fields field
  instantiated : ∀ type, members.instantiated type → members.classes type
  parents : ∀ type, members.classes type →
    ∀ definition, program.definition? type = some definition →
      (∀ parent, definition.super? = some parent → members.classes parent) ∧
        ∀ parent ∈ definition.interfaces, members.classes parent
  initializers : ∀ type, members.classes type →
    ∀ definition, program.definition? type = some definition → definition.isProgram →
      ∀ initializer, definition.directMethods.find? (fun candidate =>
        program.interner.isClassInitializer candidate.method) = some initializer →
          members.Holds program initializer.method
  holders : ∀ method, members.methods method →
    ∀ hit, program.methodDefinition? method = some hit → members.classes hit.holder.type
  bodies : ∀ method, members.methods method →
    ∀ hit, program.methodDefinition? method = some hit → hit.holder.isProgram →
      ∀ code, hit.definition.code = some code →
        ∀ instruction ∈ uses code, members.Honours program handlers instruction
  fields : ∀ field, members.fields field → members.classes (program.interner.field field).holder

end Members

namespace Trace

open Members

def Allows (members : Members) (program : Program) (handlers : List MethodId) : Action → Prop
  | .markClass type => members.classes type
  | .markInstantiated type => members.instantiated type
  | .markMethod method _ => members.Holds program method
  | .markField field => members.fields field
  | .traceInvoke kind method _ => members.HonoursCall program kind method
  | .traceStaticRead field _ => members.Honours program handlers (.staticGet field)
  | .traceStaticWrite field _ | .traceInstanceRead field _ | .traceInstanceWrite field _ =>
      members.HonoursField program field

variable {program : Program} {handlers : List MethodId} {roots : Roots} {members : Members}

theorem allows_stackAction? {context : MethodId} {instruction : StackInstruction} {action : Action}
    (issued : stackAction? context instruction = some action) :
    Allows members program handlers action ↔ members.Honours program handlers instruction := by
  cases instruction with
  | invoke | staticGet | staticPut | instanceGet | instancePut | new | constClass =>
      cases issued
      exact Iff.rfl
  | _ => cases issued

theorem honours_of_stackAction?_eq_none {context : MethodId} {instruction : StackInstruction}
    (free : stackAction? context instruction = none) :
    members.Honours program handlers instruction := by
  cases instruction with
  | invoke | staticGet | staticPut | instanceGet | instancePut | new | constClass => cases free
  | _ => trivial

theorem isDispatched_iff {kind : InvokeKind} :
    isDispatched kind ↔ kind = .virtual ∨ kind = .interface := by
  cases kind <;> decide

theorem holds_calledMethod?_iff {kind : InvokeKind} {method : MethodId} :
    (∀ hit, calledMethod? program kind method = some hit →
        members.Holds program hit.definition.method) ↔
      (kind = .direct → members.Holds program method) ∧
        (kind ≠ .direct → ∀ hit, program.resolveMethod? method = some hit →
          members.Holds program hit.definition.method) := by
  cases kind with
  | direct =>
      simp only [calledMethod?, true_implies, ne_eq, not_true_eq_false, false_implies, and_true]
      constructor
      · intro found defined
        obtain ⟨hit, exact⟩ := Option.isSome_iff_exists.mp defined
        have same := (declared_of_methodDefinition? exact).2
        exact same ▸ found hit exact (same.symm ▸ defined)
      · intro holds hit exact
        exact (declared_of_methodDefinition? exact).2.symm ▸ holds
  | virtual | interface | static | super => simp [calledMethod?]

theorem allows_rootActions (closed : members.IsClosed program roots handlers) {action : Action}
    (first : action ∈ rootActions program roots) : Allows members program handlers action := by
  rcases mem_rootActions.mp first with
    ⟨type, kept, rfl⟩ | ⟨method, kept, -, rfl⟩ | ⟨field, kept, rfl⟩
  · exact closed.rootClasses type kept
  · exact closed.rootMethods method kept
  · exact closed.rootFields field kept

theorem allows_fieldActions {field : FieldId} {action : Action}
    (honours : members.HonoursField program field) (issued : action ∈ fieldActions program field) :
    Allows members program handlers action := by
  obtain ⟨hit, found, rfl⟩ := mem_fieldActions.mp issued
  exact honours hit found

theorem allows_classActions (closed : members.IsClosed program roots handlers) {type : TypeId}
    {action : Action} (live : members.classes type) (issued : action ∈ classActions program type) :
    Allows members program handlers action := by
  obtain ⟨definition, found, ⟨parent, above, rfl⟩ | ⟨isProgram, initializer, first, rfl⟩⟩ :=
    mem_classActions.mp issued
  · obtain ⟨super, interfaces⟩ := closed.parents type live definition found
    rcases List.mem_append.mp above with extended | implemented
    · exact super parent (Option.mem_toList.mp extended)
    · exact interfaces parent implemented
  · exact closed.initializers type live definition found isProgram initializer first

theorem allows_methodNeeds (closed : members.IsClosed program roots handlers) {method : MethodId}
    {action : Action} (holds : members.Holds program method)
    (needed : action ∈ methodNeeds program method) : Allows members program handlers action := by
  obtain ⟨hit, found, rfl | ⟨actions, read, issued⟩⟩ := mem_methodNeeds.mp needed
  all_goals have live := holds (Option.isSome_iff_exists.mpr ⟨hit, found⟩)
  · exact closed.holders method live hit found
  · obtain ⟨isProgram, code, body, instruction, used, refers⟩ := (mem_methodBody read).mp issued
    exact (allows_stackAction? refers).mpr
      (closed.bodies method live hit found isProgram code body instruction used)

theorem allows_needs (closed : members.IsClosed program roots handlers) {cause action : Action}
    (allowed : Allows members program handlers cause)
    (needed : action ∈ needs program handlers cause) : Allows members program handlers action := by
  cases cause with
  | markClass type => exact allows_classActions closed allowed needed
  | markInstantiated type =>
      cases List.mem_singleton.mp needed
      exact closed.instantiated type allowed
  | markMethod method reason => exact allows_methodNeeds closed allowed needed
  | markField field =>
      cases List.mem_singleton.mp needed
      exact closed.fields field allowed
  | traceInvoke kind method context =>
      obtain ⟨hit, found, rfl⟩ := mem_invokeActions.mp needed
      exact holds_calledMethod?_iff.mpr ⟨allowed.exact, allowed.resolved⟩ hit found
  | traceStaticRead field context =>
      obtain ⟨honours, status⟩ := allowed
      rcases List.mem_append.mp needed with read | called
      · exact allows_fieldActions honours read
      · obtain ⟨isStatus, handler, listed, rfl⟩ := mem_statusActions.mp called
        exact status (Assertions.isStatusField_iff.mp isStatus) handler listed
  | traceStaticWrite | traceInstanceRead | traceInstanceWrite =>
      exact allows_fieldActions allowed needed

theorem allows_derived (closed : members.IsClosed program roots handlers) {action : Action}
    (derived : Derived program handlers (rootActions program roots) action) :
    Allows members program handlers action := by
  refine derived.least (fun _ => allows_rootActions closed) ?_
  intro next consequence
  cases consequence with
  | need allowed needed => exact allows_needs closed allowed needed
  | override instantiated target issued =>
      obtain ⟨kind, context, dispatched, honours⟩ := target
      obtain ⟨below, hit, found, rfl⟩ := mem_overrideActions.mp issued
      exact honours.dispatched (isDispatched_iff.mp dispatched) _ instantiated below hit found

structure Settled (program : Program) (handlers : List MethodId) (roots : Roots)
    (taken : List Action) (live : LiveSet) : Prop where
  marks : Marks program taken live
  readable : Readable program live
  complete : ∀ action,
    action ∈ taken ↔ Derived program handlers (rootActions program roots) action

namespace Settled

variable {taken : List Action} {live : LiveSet}

theorem root (settled : Settled program handlers roots taken live) {action : Action}
    (first : action ∈ rootActions program roots) : action ∈ taken :=
  (settled.complete action).mpr (.start first)

theorem need (settled : Settled program handlers roots taken live) {cause action : Action}
    (made : cause ∈ taken) (needed : action ∈ needs program handlers cause) : action ∈ taken :=
  (settled.complete action).mpr (.need ((settled.complete cause).mp made) needed)

theorem holds (settled : Settled program handlers roots taken live) {method : MethodId}
    {reason : Reason} (marked : .markMethod method reason ∈ taken) :
    (ofLive live).Holds program method := by
  intro defined
  exact (settled.marks.methods method).mpr ⟨defined, reason, marked⟩

theorem honoursField (settled : Settled program handlers roots taken live) {cause : Action}
    {field : FieldId} (made : cause ∈ taken)
    (needed : ∀ action ∈ fieldActions program field, action ∈ needs program handlers cause) :
    (ofLive live).HonoursField program field := by
  intro hit found
  have marked := needed _ (mem_fieldActions.mpr ⟨hit, found, rfl⟩)
  exact (settled.marks.fields _).mpr (settled.need made marked)

theorem honoursCall (settled : Settled program handlers roots taken live) {kind : InvokeKind}
    {method : MethodId} {context : Option MethodId}
    (called : .traceInvoke kind method context ∈ taken) :
    (ofLive live).HonoursCall program kind method := by
  have named : ∀ hit, calledMethod? program kind method = some hit →
      (ofLive live).Holds program hit.definition.method := by
    intro hit found
    exact settled.holds (settled.need called (mem_invokeActions.mpr ⟨hit, found, rfl⟩))
  obtain ⟨exact, resolved⟩ := holds_calledMethod?_iff.mp named
  refine ⟨exact, resolved, ?_⟩
  -- the call and the instance may have been taken in either order
  intro dispatched type instantiated below hit found
  have derived := Derived.override
    ((settled.complete _).mp ((settled.marks.instantiated type).mp instantiated))
    ((settled.complete _).mp called) (isDispatched_iff.mpr dispatched)
    (mem_overrideActions.mpr ⟨below, hit, found, rfl⟩)
  exact settled.holds ((settled.complete _).mpr derived)

theorem allows (settled : Settled program handlers roots taken live) {action : Action}
    (made : action ∈ taken) : Allows (ofLive live) program handlers action := by
  cases action with
  | markClass type => exact (settled.marks.classes type).mpr made
  | markInstantiated type => exact (settled.marks.instantiated type).mpr made
  | markMethod method reason => exact settled.holds made
  | markField field => exact (settled.marks.fields field).mpr made
  | traceInvoke kind method context => exact settled.honoursCall made
  | traceStaticRead field context =>
      refine ⟨settled.honoursField made fun _ => List.mem_append_left _, ?_⟩
      intro status handler listed
      have called : .traceInvoke .static handler context ∈
          statusActions program handlers field context :=
        mem_statusActions.mpr ⟨Assertions.isStatusField_iff.mpr status, handler, listed, rfl⟩
      exact settled.honoursCall (settled.need made (List.mem_append_right _ called))
  | traceStaticWrite | traceInstanceRead | traceInstanceWrite =>
      exact settled.honoursField made fun _ => id

theorem honours (settled : Settled program handlers roots taken live) {method : MethodId}
    {hit : MethodHit} {code : Code} {instruction : StackInstruction}
    (member : method ∈ live.methods) (found : program.methodDefinition? method = some hit)
    (isProgram : hit.holder.isProgram) (body : hit.definition.code = some code)
    (used : instruction ∈ uses code) : (ofLive live).Honours program handlers instruction := by
  obtain ⟨-, reason, marked⟩ := (settled.marks.methods method).mp member
  obtain ⟨actions, read⟩ := settled.readable method member hit found
  cases refers : stackAction? method instruction with
  | none => exact honours_of_stackAction?_eq_none refers
  | some action =>
      have issued : action ∈ actions :=
        (mem_methodBody read).mpr ⟨isProgram, code, body, instruction, used, refers⟩
      have needed : action ∈ methodNeeds program method :=
        mem_methodNeeds.mpr ⟨hit, found, Or.inr ⟨actions, read, issued⟩⟩
      exact (allows_stackAction? refers).mp (settled.allows (settled.need marked needed))

theorem isClosed (settled : Settled program handlers roots taken live) :
    (ofLive live).IsClosed program roots handlers where
  rootClasses type kept := settled.allows
    (settled.root (mem_rootActions.mpr (Or.inl ⟨type, kept, rfl⟩)))
  rootMethods method kept defined := settled.holds
    (settled.root (mem_rootActions.mpr (Or.inr (Or.inl ⟨method, kept, defined, rfl⟩)))) defined
  rootFields field kept := settled.allows
    (settled.root (mem_rootActions.mpr (Or.inr (Or.inr ⟨field, kept, rfl⟩))))
  instantiated type member := settled.allows
    (settled.need ((settled.marks.instantiated type).mp member) (List.mem_singleton_self _))
  parents type member definition found := by
    have marked := (settled.marks.classes type).mp member
    have above : ∀ parent ∈ definition.parents, parent ∈ live.classes := by
      intro parent named
      exact settled.allows (settled.need marked
        (mem_classActions.mpr ⟨definition, found, Or.inl ⟨parent, named, rfl⟩⟩))
    refine ⟨fun parent extended => above parent ?_, fun parent implemented => above parent ?_⟩
    · exact List.mem_append_left _ (Option.mem_toList.mpr extended)
    · exact List.mem_append_right _ implemented
  initializers type member definition found isProgram initializer first := settled.holds
    (settled.need ((settled.marks.classes type).mp member)
      (mem_classActions.mpr
        ⟨definition, found, Or.inr ⟨isProgram, initializer, first, rfl⟩⟩))
  holders method member hit found := by
    obtain ⟨-, reason, marked⟩ := (settled.marks.methods method).mp member
    exact settled.allows (settled.need marked (mem_methodNeeds.mpr ⟨hit, found, Or.inl rfl⟩))
  bodies method member hit found isProgram code body instruction used :=
    settled.honours member found isProgram body used
  fields field member := settled.allows
    (settled.need ((settled.marks.fields field).mp member) (List.mem_singleton_self _))

theorem within (settled : Settled program handlers roots taken live)
    (closed : members.IsClosed program roots handlers) : (ofLive live).Within members where
  classes type member :=
    allows_derived closed ((settled.complete _).mp ((settled.marks.classes type).mp member))
  instantiated type member :=
    allows_derived closed ((settled.complete _).mp ((settled.marks.instantiated type).mp member))
  methods method member := by
    obtain ⟨defined, reason, marked⟩ := (settled.marks.methods method).mp member
    exact allows_derived closed ((settled.complete _).mp marked) defined
  fields field member :=
    allows_derived closed ((settled.complete _).mp ((settled.marks.fields field).mp member))

end Settled

end Trace

theorem Tracer.settled_of_trace {σ : Type} {program : Program} {handlers : List MethodId} {data : σ}
    {roots : Roots} {result : TraceResult}
    (traced : (Tracer.trace { program, analyses := [Assertions.analysis handlers], data }
      roots).1 = .ok result) :
    ∃ taken, Trace.Settled program handlers roots taken result.live := by
  unfold Tracer.trace at traced
  dsimp only at traced
  split at traced
  · cases traced
  · rename_i final done
    cases traced
    obtain ⟨taken, tracks, complete⟩ := Trace.run_complete done
    exact ⟨taken, tracks.marks, tracks.readable, complete⟩

/-- A trace that succeeds finds the least sets that are closed. -/
theorem trace_least_closed {σ : Type} (program : Program) (handlers : List MethodId) (data : σ)
    (roots : Roots) (result : TraceResult)
    (traced : (Tracer.trace { program, analyses := [Assertions.analysis handlers], data }
      roots).1 = .ok result) :
    (Members.ofLive result.live).IsClosed program roots handlers ∧
      ∀ members : Members, members.IsClosed program roots handlers →
        (Members.ofLive result.live).Within members := by
  obtain ⟨taken, settled⟩ := Tracer.settled_of_trace traced
  exact ⟨settled.isClosed, fun _ => settled.within⟩

namespace Sample

/-- The references `LA;->run()V`, `LB;->run()V`, `LA;->main()V` and `LB;-><clinit>()V`. -/
def interner : Interner :=
  let (upper, interner) := Interner.standard.internType "LA;"
  let (lower, interner) := interner.internType "LB;"
  let (run, interner) := interner.internSymbol "run"
  let (main, interner) := interner.internSymbol "main"
  let (proto, interner) := interner.internProto ⟨[], .void⟩
  let (_, interner) := interner.internMethod ⟨upper, run, proto⟩
  let (_, interner) := interner.internMethod ⟨lower, run, proto⟩
  let (_, interner) := interner.internMethod ⟨upper, main, proto⟩
  (interner.internMethod ⟨lower, .classInitializer, proto⟩).2

def upperRun : MethodDef :=
  { method := ⟨1⟩, access := { isPublic := true } }

def lowerRun : MethodDef :=
  { method := ⟨2⟩, access := { isPublic := true } }

def main : MethodDef where
  method := ⟨3⟩
  access := { isPublic := true, isStatic := true }
  code := some (.stack [.invoke .virtual ⟨1⟩, .new ⟨6⟩])

def lowerInitializer : MethodDef :=
  { method := ⟨4⟩, access := { isStatic := true, isConstructor := true } }

def upper : ClassDef where
  type := ⟨5⟩
  origin := .program
  super? := some .object
  directMethods := [main]
  virtualMethods := [upperRun]

def lower : ClassDef :=
  { type := ⟨6⟩, origin := .program, super? := some ⟨5⟩, virtualMethods := [lowerRun] }

def program : Program where
  interner := interner
  classes := [upper, lower]
  hierarchy := (Hierarchy.addClass { root := .object } upper).addClass lower

/-- A class with the initializer of another one, which the program does not have. -/
def strange : ClassDef :=
  { type := ⟨5⟩, origin := .program, super? := some .object, directMethods := [lowerInitializer] }

def strangeProgram : Program where
  interner := interner
  classes := [strange]
  hierarchy := Hierarchy.addClass { root := .object } strange

/-- Calls `run` of a class that has the method of another one instead. -/
def strangeMain : MethodDef :=
  { main with code := some (.stack [.invoke .virtual ⟨1⟩, .new ⟨5⟩]) }

def strangeCaller : ClassDef :=
  { upper with directMethods := [strangeMain], virtualMethods := [lowerRun] }

def strangeCalls : Program where
  interner := interner
  classes := [strangeCaller]
  hierarchy := Hierarchy.addClass { root := .object } strangeCaller

def trace (program : Program) (roots : Roots) : Except Error TraceResult :=
  (Tracer.trace { program, analyses := [Assertions.analysis []], data := () } roots).1

end Sample

open Sample in
/-- The override is found live though its class gets an instance only after the call. -/
theorem trace_least_closed_late_instance :
    ∃ result, trace program { methods := [⟨3⟩] } = .ok result ∧
      result.live =
        { classes := [⟨5⟩, .object, ⟨6⟩], instantiated := [⟨6⟩], methods := [⟨3⟩, ⟨1⟩, ⟨2⟩] } ∧
      (Members.ofLive result.live).IsClosed program { methods := [⟨3⟩] } [] ∧
      ∀ members : Members, members.IsClosed program { methods := [⟨3⟩] } [] →
        (Members.ofLive result.live).Within members := by
  have traced : trace program { methods := [⟨3⟩] } =
      .ok ⟨{ classes := [⟨5⟩, .object, ⟨6⟩], instantiated := [⟨6⟩], methods := [⟨3⟩, ⟨1⟩, ⟨2⟩] },
        [], 8⟩ := by
    cbv
  exact ⟨_, traced, rfl, trace_least_closed program [] () _ _ traced⟩

open Sample in
/-- Methods that the class named as their holder does not define are never live: neither the first
initializer of a live class nor what a live call resolves to and an instance dispatches it to. -/
theorem strange_methods_not_live :
    (∃ result, trace strangeProgram { classes := [⟨5⟩] } = .ok result ∧
      ⟨5⟩ ∈ result.live.classes ∧
      strangeProgram.definition? ⟨5⟩ = some strange ∧ strange.isProgram ∧
      strange.directMethods.find? (fun candidate =>
        strangeProgram.interner.isClassInitializer candidate.method) = some lowerInitializer ∧
      lowerInitializer.method ∉ result.live.methods) ∧
      ∃ result, trace strangeCalls { methods := [⟨3⟩] } = .ok result ∧
        strangeMain.method ∈ result.live.methods ∧ ⟨5⟩ ∈ result.live.instantiated ∧
        strangeCalls.resolveMethod? ⟨1⟩ = some ⟨strangeCaller, lowerRun⟩ ∧
        strangeCalls.isSubtype ⟨5⟩ (strangeCalls.interner.method ⟨1⟩).holder ∧
        strangeCalls.dispatchMethod? ⟨5⟩ ⟨1⟩ = some ⟨strangeCaller, lowerRun⟩ ∧
        lowerRun.method ∉ result.live.methods := by
  have initialized : trace strangeProgram { classes := [⟨5⟩] } =
      .ok ⟨{ classes := [⟨5⟩, .object], instantiated := [⟨5⟩] }, [], 4⟩ := by
    cbv
  have called : trace strangeCalls { methods := [⟨3⟩] } =
      .ok ⟨{ classes := [⟨5⟩, .object], instantiated := [⟨5⟩], methods := [⟨3⟩] }, [], 7⟩ := by
    cbv
  exact ⟨⟨_, initialized, by decide, rfl, rfl, rfl, by decide⟩, _, called, by decide, by decide,
    by cbv, by cbv, by cbv, by decide⟩

end Shrinker.Liveness

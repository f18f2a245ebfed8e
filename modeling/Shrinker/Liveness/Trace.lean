import Shrinker.Liveness.Analysis
import Shrinker.Liveness.Body
import Shrinker.Liveness.Roots

namespace Shrinker.Liveness

open Bytecode Reference Program

/-- A trace on its way. `targets` has the methods called with dispatch so far, `reported` the methods that
analyses reported. -/
structure TraceState (σ : Type) where
  live : LiveSet := {}
  worklist : Worklist := {}
  targets : List MethodId := []
  reported : List MethodId := []
  processed : Nat := 0
  data : σ

structure Failure (σ : Type) where
  error : Error
  data : σ

namespace Trace

def classActions (program : Program) (type : TypeId) : List Action :=
  match program.definition? type with
  | none => []
  | some definition =>
      definition.parents.map Action.markClass ++
        if definition.isProgram then
          ((definition.directMethods.find? fun candidate =>
            program.interner.isClassInitializer candidate.method).map fun initializer =>
              Action.markMethod initializer.method .classInitializer).toList
        else
          []

def overrideActions (program : Program) (type : TypeId) (target : MethodId) : List Action :=
  if program.isSubtype type (program.interner.method target).holder then
    ((program.dispatchMethod? type target).map fun hit =>
      Action.markMethod hit.definition.method .override).toList
  else
    []

def calledMethod? (program : Program) (kind : InvokeKind) (method : MethodId) :
    Option MethodHit :=
  match kind with
  | .direct => program.methodDefinition? method
  | _ => program.resolveMethod? method

def invokeActions (program : Program) (kind : InvokeKind) (method : MethodId) : List Action :=
  ((calledMethod? program kind method).map fun hit =>
    Action.markMethod hit.definition.method (.invoke kind)).toList

def fieldActions (program : Program) (field : FieldId) : List Action :=
  ((program.resolveField? field).map fun hit => Action.markField hit.definition.field).toList

def isDispatched : InvokeKind → Bool
  | .virtual | .interface => true
  | _ => false

/-- The actions that roots start with. A kept method without definition is passed over. -/
def rootActions (program : Program) (roots : Roots) : List Action :=
  roots.classes.map Action.markInstantiated ++
    (roots.methods.filter fun method => (program.methodDefinition? method).isSome).map
      (Action.markMethod · .keepRule) ++
    roots.fields.map Action.markField

variable {σ : Type}

def enqueueAll (state : TraceState σ) (actions : List Action) : TraceState σ :=
  { state with worklist := state.worklist.enqueueAll actions }

/-- Tells the analyses of an event, one after the other; each sees what those before it asked for. -/
def notify (program : Program)
    (hook : Analysis σ → Snapshot → σ → Except Error (Response σ)) :
    List (Analysis σ) → TraceState σ → Except (Failure σ) (TraceState σ)
  | [], state => .ok state
  | analysis :: analyses, state =>
      match hook analysis ⟨program, state.live, state.worklist⟩ state.data with
      | .error cause => .error ⟨.analysis analysis.name cause, state.data⟩
      | .ok response =>
          notify program hook analyses
            { enqueueAll state response.actions with
              reported := response.reported.foldl Roots.addNew state.reported
              data := response.data }

def markClass (program : Program) (type : TypeId) (state : TraceState σ) : TraceState σ :=
  if state.live.hasClass type then
    state
  else
    enqueueAll { state with live := state.live.addClass type } (classActions program type)

/-- Calls with dispatch traced before may run methods of the new type. -/
def markInstantiated (program : Program) (type : TypeId) (state : TraceState σ) :
    TraceState σ :=
  if state.live.hasInstance type then
    state
  else
    enqueueAll { state with live := state.live.addInstance type }
      (.markClass type :: state.targets.flatMap (overrideActions program type))

def markField (program : Program) (field : FieldId) (state : TraceState σ) : TraceState σ :=
  if state.live.hasField field then
    state
  else
    enqueueAll { state with live := state.live.addField field }
      [.markClass (program.interner.field field).holder]

def markMethod (program : Program) (analyses : List (Analysis σ)) (method : MethodId)
    (state : TraceState σ) : Except (Failure σ) (TraceState σ) :=
  match program.methodDefinition? method with
  | none => .ok state
  | some hit =>
      if state.live.hasMethod method then
        .ok state
      else
        let marked := enqueueAll { state with live := state.live.addMethod method }
          [.markClass hit.holder.type]
        if hit.holder.isProgram then
          match (hit.definition.code.map (bodyActions method)).getD (.ok []) with
          | .error cause => .error ⟨.brokenProgram cause, state.data⟩
          | .ok actions =>
              notify program (fun analysis snapshot data => analysis.methodLive snapshot hit data)
                analyses (enqueueAll marked actions)
        else
          .ok marked

/-- A method called with dispatch for the first time may run in all types instantiated so far. -/
def traceInvoke (program : Program) (kind : InvokeKind) (method : MethodId)
    (state : TraceState σ) : TraceState σ :=
  let called := enqueueAll state (invokeActions program kind method)
  if isDispatched kind && method ∉ state.targets then
    enqueueAll { called with targets := called.targets ++ [method] }
      (called.live.instantiated.flatMap fun type => overrideActions program type method)
  else
    called

def traceStaticRead (program : Program) (analyses : List (Analysis σ)) (field : FieldId)
    (context : Option MethodId) (state : TraceState σ) :
    Except (Failure σ) (TraceState σ) :=
  notify program
    (fun analysis snapshot data =>
      analysis.staticRead snapshot field (program.resolveField? field) context data)
    analyses (enqueueAll state (fieldActions program field))

def process (program : Program) (analyses : List (Analysis σ)) (action : Action)
    (state : TraceState σ) : Except (Failure σ) (TraceState σ) :=
  match action with
  | .markClass type => .ok (markClass program type state)
  | .markInstantiated type => .ok (markInstantiated program type state)
  | .markMethod method _ => markMethod program analyses method state
  | .markField field => .ok (markField program field state)
  | .traceInvoke kind method _ => .ok (traceInvoke program kind method state)
  | .traceStaticRead field context => traceStaticRead program analyses field context state
  | .traceStaticWrite field _ | .traceInstanceRead field _ | .traceInstanceWrite field _ =>
      .ok (enqueueAll state (fieldActions program field))

def run (program : Program) (analyses : List (Analysis σ)) :
    Nat → TraceState σ → Except (Failure σ) (TraceState σ)
  | 0, state => .ok state
  | steps + 1, state =>
      match state.worklist.poll with
      | none => .ok state
      | some (action, worklist) =>
          match process program analyses action { state with worklist } with
          | .error failure => .error failure
          | .ok next => run program analyses steps { next with processed := next.processed + 1 }

def instructionVocabulary : StackInstruction → Vocabulary
  | .invoke _ method => { methods := [method] }
  | .staticGet field | .staticPut field | .instanceGet field | .instancePut field =>
      { fields := [field] }
  | .new type | .constClass type => { types := [type] }
  | _ => {}

def codeVocabulary : Code → Vocabulary
  | .stack instructions => (instructions.map instructionVocabulary).foldl Vocabulary.join {}
  | .register code =>
      { types := code.references.types
        methods := code.references.methods
        fields := code.references.fields }

def methodVocabulary (definition : MethodDef) : Vocabulary :=
  Vocabulary.join { methods := [definition.method] }
    ((definition.code.map codeVocabulary).getD {})

def classVocabulary (definition : ClassDef) : Vocabulary :=
  (definition.methods.map methodVocabulary).foldl Vocabulary.join
    { types := definition.type :: definition.parents
      fields := definition.fields.map (·.field) }

def vocabulary (program : Program) (analyses : List (Analysis σ)) (roots : Roots) : Vocabulary :=
  let mentioned := (program.classes.map classVocabulary ++ analyses.map (·.vocabulary)).foldl
    Vocabulary.join { types := roots.classes, methods := roots.methods, fields := roots.fields }
  { mentioned with
    types := mentioned.types ++
      mentioned.fields.map fun field => (program.interner.field field).holder }

end Trace

/-- How far a tracer is. A tracer that met an error stays running. -/
inductive Phase where
  | idle | running | fixpoint | done
  deriving DecidableEq, Repr

def Phase.name : Phase → String
  | idle => "Idle"
  | running => "Running"
  | fixpoint => "Fixpoint"
  | done => "Done"

structure TraceResult where
  live : LiveSet
  reported : List MethodId
  processed : Nat
  deriving DecidableEq, Repr

structure Tracer (σ : Type) where
  program : Program
  analyses : List (Analysis σ)
  phase : Phase := .idle
  data : σ

namespace Tracer

variable {σ : Type}

/-- Finds all that is live. Each action is taken once and mentions only what the program, the analyses and
the roots do, so their number bounds the length of the trace. -/
def trace (tracer : Tracer σ) (roots : Roots) : Except Error TraceResult × Tracer σ :=
  match tracer.phase with
  | .idle =>
      let start := Trace.enqueueAll ({ data := tracer.data } : TraceState σ)
        (Trace.rootActions tracer.program roots)
      let bound := (Trace.vocabulary tracer.program tracer.analyses roots).actionCount
      match Trace.run tracer.program tracer.analyses bound start with
      | .error failure =>
          (.error failure.error, { tracer with phase := .running, data := failure.data })
      | .ok state =>
          (.ok ⟨state.live, state.reported, state.processed⟩,
            { tracer with phase := .done, data := state.data })
  | _ => (.error .alreadyTraced, tracer)

end Tracer

end Shrinker.Liveness

import Shrinker.Bytecode.Opcode
import Shrinker.Reference.Interner

namespace Shrinker.Liveness

open Bytecode Reference

inductive Reason where
  | keepRule
  | classInitializer
  | invoke (kind : InvokeKind)
  | override
  deriving DecidableEq, Repr

/-- A member that has to be marked live or a use that has to be followed. The context of a use is the
method whose body makes it. -/
inductive Action where
  | markClass (type : TypeId)
  | markInstantiated (type : TypeId)
  | markMethod (method : MethodId) (reason : Reason)
  | markField (field : FieldId)
  | traceInvoke (kind : InvokeKind) (method : MethodId) (context : Option MethodId)
  | traceStaticRead (field : FieldId) (context : Option MethodId)
  | traceStaticWrite (field : FieldId) (context : Option MethodId)
  | traceInstanceRead (field : FieldId) (context : Option MethodId)
  | traceInstanceWrite (field : FieldId) (context : Option MethodId)
  deriving DecidableEq, Repr

/-- Actions that were ever accepted, and those of them that are pending, oldest first. -/
structure Worklist where
  seen : List Action := []
  queue : List Action := []
  deriving DecidableEq, Repr

namespace Worklist

def empty : Worklist := {}

def accepts (worklist : Worklist) (action : Action) : Bool :=
  action ∉ worklist.seen

def enqueue (worklist : Worklist) (action : Action) : Worklist :=
  if worklist.accepts action then
    ⟨action :: worklist.seen, worklist.queue ++ [action]⟩
  else
    worklist

def enqueueAll (worklist : Worklist) (actions : List Action) : Worklist :=
  actions.foldl enqueue worklist

def poll (worklist : Worklist) : Option (Action × Worklist) :=
  match worklist.queue with
  | [] => none
  | action :: rest => some (action, { worklist with queue := rest })

def accepted (worklist : Worklist) : Nat :=
  worklist.seen.length

end Worklist

end Shrinker.Liveness

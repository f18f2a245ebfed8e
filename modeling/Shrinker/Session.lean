import Shrinker.Lens.Apply
import Shrinker.Liveness.Assertions
import Shrinker.Liveness.Trace
import Shrinker.Publicizer.Pass

namespace Shrinker

open Bytecode Reference Program Liveness

structure Session where
  program : Program
  options : Options := {}
  lens : Lens := .identity
  traced : Option TraceResult := none

namespace Session

structure Summary where
  processedActions : Nat
  publicizer : Option Publicizer.Stats
  lensDepth : Nat
  deriving DecidableEq, Repr

/-- Work on a session that may fail; what was done before a failure stays. -/
abbrev Work (α : Type) := ExceptT Error (StateM Session) α

def interning {α : Type} (work : Options.Interning α) : Work α := do
  let session ← get
  let (result, interner) := work.run.run session.program.interner
  set { session with program := { session.program with interner } }
  match result with
  | .ok value => return value
  | .error cause => throw (.options cause)

def roots : Work Roots := do
  interning (Roots.ofKeep (← get).options.keep)

def trace (roots : Roots) : Work TraceResult := do
  let handlers ← interning (← get).options.internHandlers
  let session ← get
  let tracer : Tracer Unit :=
    { program := session.program, analyses := [Assertions.analysis handlers], data := () }
  match (tracer.trace roots).1 with
  | .error error => throw error
  | .ok result =>
      set { session with traced := some result }
      return result

/-- Runs the publicizer on what the last trace found live, unless the options turn it off. -/
def publicize (keep : KeepOracle) : Work (Option Publicizer.Stats) := do
  let session ← get
  if session.options.publicize then
    let publicizer : Publicizer := { keep, live := session.traced.map (·.live) }
    match publicizer.run session.program session.lens with
    | .error error => throw error
    | .ok outcome =>
        set { session with program := outcome.program, lens := outcome.lens }
        return some outcome.stats
  else
    return none

def optimize : Work Summary := do
  let roots ← roots
  let result ← trace roots
  let stats ← publicize roots.oracle
  return ⟨result.processed, stats, (← get).lens.depth⟩

def currentCode (session : Session) (method : MethodId) : Except Error (Option Code) :=
  match (session.program.methodDefinition? method).bind (·.definition.code) with
  | none => .ok none
  | some code => ((session.lens.applyCode code).mapError Error.brokenProgram).map some

/-- The register body of a method through the lens, in code units. After a trace dead methods have none. -/
def encodeMethod (session : Session) (method : MethodId) :
    Except Error (Option (List CodeUnit)) :=
  if session.traced.all (·.live.hasMethod method) then do
    match ← session.currentCode method with
    | some (.register code) => return some (Instruction.encodeAll code.instructions)
    | _ => return none
  else
    .ok none

end Session

end Shrinker

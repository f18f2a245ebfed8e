import Shrinker.Publicizer.Basic

namespace Shrinker.Publicizer

open Reference Program Collection

/-- Compiler-made methods have to name a defined class as their holder. -/
def checkHolders (program : Program) : Except Error Unit :=
  let broken := program.programClasses.flatMap fun definition =>
    (definition.methods.filter fun method =>
      method.access.isSynthetic &&
        (program.definition? (program.interner.method method.method).holder).isNone).map
      fun method => (definition, method)
  match broken with
  | [] => .ok ()
  | (definition, method) :: _ =>
      .error (.brokenProgram (.holderUndefined (program.interner.methodText method.method)
        (program.interner.typeText definition.type)))

/-- Types in the order of their visits: interfaces by increasing number, then the root, each followed by
the types below it. -/
def visitOrder (hierarchy : Hierarchy) : List TypeId :=
  let starts := hierarchy.interfaces ++ [hierarchy.root]
  let domain := starts ++ hierarchy.extending.flatMap fun (parent, child) => [parent, child]
  DepthFirst.visit hierarchy.subclasses domain starts

def publicizeMethods (publicizer : Publicizer) (interner : Interner) (holder : ClassDef) :
    List MethodDef → State → Except Error (List MethodDef × List MethodId × State)
  | [], state => .ok ([], [], state)
  | definition :: definitions, state => do
      let verdict := publicizer.verdict interner holder state.pool definition
      let (changed, state) ← applyVerdict interner definition state verdict
      let (rest, opened, state) ←
        publicizeMethods publicizer interner holder definitions state
      return (changed :: rest,
        if verdict = .publicize then definition.method :: opened else opened, state)

/-- Publicizes a class with all its members. Opened-up methods move to the virtual ones. -/
def publicizeClass (publicizer : Publicizer) (interner : Interner) (definition : ClassDef)
    (state : State) : Except Error (ClassDef × State) := do
  let (direct, openedDirect, state) ←
    publicizer.publicizeMethods interner definition definition.directMethods state
  let (virtual, openedVirtual, state) ←
    publicizer.publicizeMethods interner definition definition.virtualMethods state
  let changed : ClassDef :=
    { definition with
      access := definition.access.promote
      fields := definition.fields.map fun field => { field with access := field.access.promote }
      directMethods := direct
      virtualMethods := virtual }
  let stats :=
    { state.stats with
      promotedClasses := state.stats.promotedClasses + 1
      promotedFields := state.stats.promotedFields + definition.fields.length }
  return (changed.virtualize (openedDirect ++ openedVirtual), { state with stats })

def publicizeType (publicizer : Publicizer) (type : TypeId) (program : Program) (state : State) :
    Except Error (Program × State) :=
  match program.definition? type with
  | none => .ok (program, state)
  | some definition =>
      if publicizer.isLiveClass type && definition.isProgram then do
        let (changed, state) ←
          publicizer.publicizeClass program.interner definition state
        return (program.mapClass type fun _ => changed, state)
      else
        .ok (program, state)

def publicizeTypes (publicizer : Publicizer) :
    List TypeId → Program → State → Except Error (Program × State)
  | [], program, state => .ok (program, state)
  | type :: types, program, state => do
      let (program, state) ← publicizer.publicizeType type program state
      publicizer.publicizeTypes types program state

structure Outcome where
  program : Program
  lens : Lens
  stats : Stats

def run (publicizer : Publicizer) (program : Program) (previous : Lens) : Except Error Outcome := do
  checkHolders program
  let pool := publicizer.collectSignatures program
  let start : State :=
    { pool
      level := { name := "publicizer" }
      stats :=
        { scannedMethods := publicizer.scannedMethods program
          collectedSignatures := pool.size } }
  let (changed, finish) ←
    publicizer.publicizeTypes (visitOrder program.hierarchy) program start
  return ⟨changed, previous.publish finish.level, finish.stats⟩

end Shrinker.Publicizer

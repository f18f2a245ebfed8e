import Shrinker.Error
import Shrinker.Liveness.LiveSet
import Shrinker.Liveness.Roots
import Shrinker.Program.Lookup

namespace Shrinker

open Reference Program Liveness

/-- `live` restricts the work to live members; without it all members count as live. -/
structure Publicizer where
  keep : KeepOracle
  live : Option LiveSet := none

namespace Publicizer

structure Stats where
  scannedMethods : Nat := 0
  collectedSignatures : Nat := 0
  promotedClasses : Nat := 0
  promotedFields : Nat := 0
  promotedMethods : Nat := 0
  publicizedMethods : Nat := 0
  skippedPinned : Nat := 0
  skippedCollisions : Nat := 0
  deriving DecidableEq, Repr

abbrev SignaturePool := Table Signature

def isLiveClass (publicizer : Publicizer) (type : TypeId) : Bool :=
  publicizer.live.all (·.hasClass type)

def isLiveMethod (publicizer : Publicizer) (method : MethodId) : Bool :=
  publicizer.live.all (·.hasMethod method)

def liveClasses (publicizer : Publicizer) (program : Program) : List ClassDef :=
  program.programClasses.filter fun definition => publicizer.isLiveClass definition.type

/-- Whether the signature of a method is in use from the start: live, and not private to its object. -/
def usesSignature (publicizer : Publicizer) (definition : MethodDef) : Bool :=
  publicizer.isLiveMethod definition.method &&
    (!definition.access.isPrivate || definition.access.isStatic)

def classSignatures (publicizer : Publicizer) (interner : Interner) (definition : ClassDef) :
    List Signature :=
  (definition.methods.filter publicizer.usesSignature).map fun used =>
    interner.signature used.method

def collectSignatures (publicizer : Publicizer) (program : Program) : SignaturePool :=
  ((publicizer.liveClasses program).flatMap
    (publicizer.classSignatures program.interner)).foldl Table.insert .empty

def scannedMethods (publicizer : Publicizer) (program : Program) : Nat :=
  ((publicizer.liveClasses program).map (·.methods.length)).foldr (· + ·) 0

inductive Verdict where
  | leave
  | promote
  | skipPinned
  | skipCollision
  | publicize
  deriving DecidableEq, Repr

/-- Methods of an interface and compiler-made methods are not opened up: they might turn into default
methods or clash with copies. -/
def verdict (publicizer : Publicizer) (interner : Interner) (holder : ClassDef)
    (pool : SignaturePool) (definition : MethodDef) : Verdict :=
  let method := definition.method
  let access := definition.access
  if access.isPublic || interner.isClassInitializer method then
    .leave
  else if !publicizer.isLiveMethod method then
    .leave
  else if !access.isPrivate then
    .promote
  else if interner.isConstructor method then
    .leave
  else if access.isStatic then
    .promote
  else if publicizer.keep.pinsAgainstShrinking method then
    .skipPinned
  else if holder.isInterface || access.isSynthetic then
    .leave
  else if interner.signature method ∈ pool.entries then
    .skipCollision
  else
    .publicize

def promoteAccess (access : Access) : Access :=
  if access.isPrivate then
    { access with isPrivate := false, isPublic := true }
  else
    { access with isProtected := false, isPublic := true }

structure State where
  pool : SignaturePool
  level : Lens.Level
  stats : Stats

def applyVerdict (interner : Interner) (definition : MethodDef) (state : State) :
    Verdict → Except Error (MethodDef × State)
  | .leave => .ok (definition, state)
  | .promote =>
      .ok ({ definition with access := promoteAccess definition.access },
        { state with
          stats := { state.stats with promotedMethods := state.stats.promotedMethods + 1 } })
  | .skipPinned =>
      .ok (definition,
        { state with
          stats := { state.stats with skippedPinned := state.stats.skippedPinned + 1 } })
  | .skipCollision =>
      .ok (definition,
        { state with
          stats := { state.stats with skippedCollisions := state.stats.skippedCollisions + 1 } })
  | .publicize =>
      match state.level.recordMethod interner definition.method definition.method .publicized with
      | .error cause => .error (.lens cause)
      | .ok level =>
          .ok (definition.publicize,
            { pool := state.pool.insert (interner.signature definition.method)
              level
              stats :=
                { state.stats with publicizedMethods := state.stats.publicizedMethods + 1 } })

end Publicizer

end Shrinker

import Shrinker.Options.Basic

namespace Shrinker.Liveness

open Reference Options

structure KeepOracle where
  pinsAgainstShrinking : MethodId → Bool
  pinsAgainstRenaming : MethodId → Bool

/-- Kept members in the order in which they were named, without repetition. -/
structure Roots where
  classes : List TypeId := []
  methods : List MethodId := []
  fields : List FieldId := []
  pinnedNames : List MethodId := []
  deriving DecidableEq, Repr

namespace Roots

def addNew {α : Type} [DecidableEq α] (entries : List α) (entry : α) : List α :=
  if entry ∈ entries then entries else entries ++ [entry]

theorem mem_addNew {α : Type} [DecidableEq α] {entries : List α} {entry other : α} :
    other ∈ addNew entries entry ↔ other ∈ entries ∨ other = entry := by
  unfold addNew
  split
  · rename_i known
    refine (or_iff_left_of_imp ?_).symm
    rintro rfl
    exact known
  · simp

def keepClass (roots : Roots) (type : TypeId) : Roots :=
  { roots with classes := addNew roots.classes type }

def keepMethod (roots : Roots) (method : MethodId) : Roots :=
  { roots with methods := addNew roots.methods method }

def keepField (roots : Roots) (field : FieldId) : Roots :=
  { roots with fields := addNew roots.fields field }

def pinName (roots : Roots) (method : MethodId) : Roots :=
  { roots with pinnedNames := addNew roots.pinnedNames method }

def oracle (roots : Roots) : KeepOracle where
  pinsAgainstShrinking method := method ∈ roots.methods
  pinsAgainstRenaming method := method ∈ roots.pinnedNames

/-- Reads classes, methods, fields and pinned methods, in this order, up to the first that is no member
text. The texts of classes are not checked. -/
def ofKeep (keep : Keep) : Interning Roots := do
  let classes ← modifyGet fun (interner : Interner) => interner.internTypes keep.classes
  let methods ← keep.methods.mapM (internMember Interner.parseMethod?)
  let fields ← keep.fields.mapM (internMember Interner.parseField?)
  let pinnedNames ← keep.pinnedNames.mapM (internMember Interner.parseMethod?)
  return {
    classes := classes.foldl addNew []
    methods := methods.foldl addNew []
    fields := fields.foldl addNew []
    pinnedNames := pinnedNames.foldl addNew [] }

end Roots

end Shrinker.Liveness

import Shrinker.Bytecode.Opcode
import Shrinker.Reference.Interner

/-!
A lens tells what has become of a reference after some passes over the program. Each pass leaves one
level, a table of references it changed. Looking a reference up goes through the levels from the oldest
to the newest and starts over until no level that was not used yet knows the reference reached.
-/
namespace Shrinker

open Bytecode Reference

namespace Lens

inductive Change where
  | renamed | publicized | retargeted
  deriving DecidableEq, Repr

namespace Change

def all : List Change :=
  [.renamed, .publicized, .retargeted]

def name : Change → String
  | renamed => "renamed"
  | publicized => "publicized"
  | retargeted => "retargeted"

def ofName? (text : String) : Option Change :=
  all.find? (·.name == text)

end Change

structure ChangeSet where
  renamed : Bool := false
  publicized : Bool := false
  retargeted : Bool := false
  deriving DecidableEq, Repr

namespace ChangeSet

def empty : ChangeSet := {}

def insert (changes : ChangeSet) : Change → ChangeSet
  | .renamed => { changes with renamed := true }
  | .publicized => { changes with publicized := true }
  | .retargeted => { changes with retargeted := true }

def contains (changes : ChangeSet) : Change → Bool
  | .renamed => changes.renamed
  | .publicized => changes.publicized
  | .retargeted => changes.retargeted

def toList (changes : ChangeSet) : List Change :=
  Change.all.filter changes.contains

end ChangeSet

structure Entry (α : Type) where
  target : α
  change : Change
  deriving DecidableEq, Repr

abbrev Entries (α : Type) := List (α × Entry α)

structure Level where
  name : String
  methods : Entries MethodId := []
  fields : Entries FieldId := []
  deriving DecidableEq, Repr

structure Lookup (α : Type) where
  target : α
  changes : ChangeSet
  deriving DecidableEq, Repr

namespace Lookup

variable {α : Type}

def start (reference : α) : Lookup α :=
  ⟨reference, .empty⟩

def follow (lookup : Lookup α) (entry : Entry α) : Lookup α :=
  ⟨entry.target, lookup.changes.insert entry.change⟩

variable [DecidableEq α]

/-- One way through the tables, oldest first. A table that knows the current reference is followed and
used up; the others are left over. -/
def sweep : List (Entries α) → Lookup α → Lookup α × List (Entries α)
  | [], lookup => (lookup, [])
  | table :: tables, lookup =>
      match table.lookup lookup.target with
      | some entry => sweep tables (lookup.follow entry)
      | none =>
          let (reached, left) := sweep tables lookup
          (reached, table :: left)

/-- Sweeps until no table that is left knows the current reference. -/
def settle (tables : List (Entries α)) (lookup : Lookup α) : Lookup α :=
  if (sweep tables lookup).2.length < tables.length then
    settle (sweep tables lookup).2 (sweep tables lookup).1
  else
    (sweep tables lookup).1
termination_by tables.length

end Lookup

end Lens

structure Lens where
  levels : List Lens.Level
  deriving DecidableEq, Repr

namespace Lens

def identity : Lens :=
  ⟨[]⟩

def isIdentity (lens : Lens) : Bool :=
  lens.levels.isEmpty

def depth (lens : Lens) : Nat :=
  lens.levels.length

def publish (lens : Lens) (level : Level) : Lens :=
  ⟨lens.levels ++ [level]⟩

def lookupMethod (lens : Lens) (method : MethodId) : Lookup MethodId :=
  Lookup.settle (lens.levels.map Level.methods) (.start method)

def lookupField (lens : Lens) (field : FieldId) : Lookup FieldId :=
  Lookup.settle (lens.levels.map Level.fields) (.start field)

def resolveMethod (lens : Lens) (method : MethodId) : MethodId :=
  (lens.lookupMethod method).target

def resolveField (lens : Lens) (field : FieldId) : FieldId :=
  (lens.lookupField field).target

/-- The kind of call that reaches a method now: one that was opened up takes part in dispatch. -/
def Lookup.invokeKind (lookup : Lookup MethodId) (kind : InvokeKind) : InvokeKind :=
  if kind = .direct ∧ lookup.changes.publicized then .virtual else kind

end Lens

end Shrinker

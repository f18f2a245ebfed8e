import Shrinker.Lens.Basic

namespace Shrinker.Lens

open Reference

inductive RecordError where
  | duplicateEntry (pass member : String)
  | chainedEntry (pass member target : String)
  | protectedMember (pass member : String)
  deriving DecidableEq, Repr

namespace RecordError

def message : RecordError → String
  | duplicateEntry pass member => s!"Pass '{pass}' recorded {member} twice"
  | chainedEntry pass member target =>
      s!"Pass '{pass}' chains {member} through {target} within one level"
  | protectedMember pass member => s!"Pass '{pass}' cannot rewrite initializer {member}"

end RecordError

namespace Entries

variable {α : Type} [DecidableEq α]

inductive Rejection where
  | duplicate | chained
  deriving DecidableEq, Repr

def moves (entries : Entries α) (reference : α) : Bool :=
  (entries.lookup reference).any (·.target != reference)

def isMoveTarget (entries : Entries α) (reference : α) : Bool :=
  entries.any fun (source, entry) => entry.target == reference && source != reference

/-- Adds an entry. A reference that has one already is refused; so is a move to a reference that moves
on, or from a reference that another one moves to. -/
def record (entries : Entries α) (source target : α) (change : Change) :
    Except Rejection (Entries α) :=
  if (entries.lookup source).isSome then
    .error .duplicate
  else if source != target && (entries.moves target || entries.isMoveTarget source) then
    .error .chained
  else
    .ok (entries ++ [(source, ⟨target, change⟩)])

end Entries

namespace Level

def isEmpty (level : Level) : Bool :=
  level.methods.isEmpty && level.fields.isEmpty

def rejected (level : Level) (source target : String) : Entries.Rejection → RecordError
  | .duplicate => .duplicateEntry level.name source
  | .chained => .chainedEntry level.name source target

def recordMethod (level : Level) (interner : Interner) (source target : MethodId)
    (change : Change) : Except RecordError Level :=
  match [source, target].find? interner.isInitializer with
  | some member => .error (.protectedMember level.name (interner.methodText member))
  | none =>
      match level.methods.record source target change with
      | .ok methods => .ok { level with methods }
      | .error rejection =>
          .error (level.rejected (interner.methodText source) (interner.methodText target)
            rejection)

def recordField (level : Level) (interner : Interner) (source target : FieldId)
    (change : Change) : Except RecordError Level :=
  match level.fields.record source target change with
  | .ok fields => .ok { level with fields }
  | .error rejection =>
      .error (level.rejected (interner.fieldText source) (interner.fieldText target) rejection)

end Level

end Shrinker.Lens

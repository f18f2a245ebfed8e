import Shrinker.Reference.Interner

namespace Shrinker

open Reference

namespace Options

structure AssertionHandler where
  holder : String
  name : String
  descriptor : String
  deriving DecidableEq, Repr

/-- Members that stay. Classes are kept with instances; methods whose names are pinned keep their names. -/
structure Keep where
  classes : List String := []
  methods : List String := []
  fields : List String := []
  pinnedNames : List String := []
  deriving DecidableEq, Repr

end Options

/-- No number of threads stands for as many as the machine has processors. -/
structure Options where
  threads : Nat := 0
  publicize : Bool := true
  assertionHandlers : List Options.AssertionHandler := []
  keep : Options.Keep := {}
  deriving DecidableEq, Repr

namespace Options

inductive OptionsError where
  | unreadable
  | malformed
  | invalidMember (text : String)
  | invalidHolder (holder : String)
  deriving DecidableEq, Repr

namespace OptionsError

def message : OptionsError → String
  | unreadable => "Failed to read options file"
  | malformed => "Failed to parse options"
  | invalidMember text => s!"Invalid member reference '{text}'"
  | invalidHolder holder =>
      s!"Invalid options: Assertion handler holder '{holder}' is not a class descriptor"

end OptionsError

def AssertionHandler.text (handler : AssertionHandler) : String :=
  handler.holder ++ "->" ++ handler.name ++ handler.descriptor

def isMethodText (text : String) : Bool :=
  match Interner.splitArrow? text.toList with
  | none => false
  | some (holder, member) =>
      let descriptor := member.dropWhile (· != '(')
      member.head? != some '(' && Descriptor.isTypeChars holder &&
        (Descriptor.splitMethodChars? descriptor).isSome

def isFieldText (text : String) : Bool :=
  match Interner.splitArrow? text.toList with
  | none => false
  | some (holder, member) =>
      match member.dropWhile (· != ':') with
      | [] => false
      | _ :: type =>
          member.head? != some ':' && Descriptor.isTypeChars holder &&
            Descriptor.isTypeChars type

def AssertionHandler.check (handler : AssertionHandler) : Except OptionsError Unit :=
  if !(Descriptor.isType handler.holder && handler.holder.toList.head? == some 'L') then
    .error (.invalidHolder handler.holder)
  else if handler.name.isEmpty || !Descriptor.isMethod handler.descriptor then
    .error (.invalidMember handler.text)
  else
    .ok ()

def checkMembers (passes : String → Bool) (texts : List String) : Except OptionsError Unit :=
  match texts.find? (!passes ·) with
  | some text => .error (.invalidMember text)
  | none => .ok ()

/-- Checks handlers, kept classes, kept and pinned methods, and kept fields, in this order. -/
def validate (options : Options) : Except OptionsError Unit := do
  options.assertionHandlers.forM AssertionHandler.check
  checkMembers Descriptor.isType options.keep.classes
  checkMembers isMethodText options.keep.methods
  checkMembers isMethodText options.keep.pinnedNames
  checkMembers isFieldText options.keep.fields

/-- Work that adds references and may fail; what was added before a failure stays. -/
abbrev Interning (α : Type) := ExceptT OptionsError (StateM Interner) α

def internMember {α : Type} (parse? : Interner → String → Option (α × Interner)) (text : String) :
    Interning α := do
  match parse? (← get) text with
  | some (member, interner) => set interner; return member
  | none => throw (.invalidMember text)

def AssertionHandler.intern (handler : AssertionHandler) : Interning MethodId := do
  match (← get).internMethodParts? handler.holder handler.name handler.descriptor with
  | some (method, interner) => set interner; return method
  | none => throw (.invalidMember handler.text)

def internHandlers (options : Options) : Interning (List MethodId) :=
  options.assertionHandlers.mapM AssertionHandler.intern

end Options

end Shrinker

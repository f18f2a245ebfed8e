namespace Shrinker.Program

inductive Flag where
  | pub | priv | prot | static | final | interface | abstract | synthetic | constructor
  deriving DecidableEq, Repr

namespace Flag

def all : List Flag :=
  [.pub, .priv, .prot, .static, .final, .interface, .abstract, .synthetic, .constructor]

def name : Flag → String
  | .pub => "public"
  | .priv => "private"
  | .prot => "protected"
  | .static => "static"
  | .final => "final"
  | .interface => "interface"
  | .abstract => "abstract"
  | .synthetic => "synthetic"
  | .constructor => "constructor"

def ofName? (text : String) : Option Flag :=
  all.find? (·.name == text)

def bit : Flag → Nat
  | .pub => 0x1
  | .priv => 0x2
  | .prot => 0x4
  | .static => 0x8
  | .final => 0x10
  | .interface => 0x200
  | .abstract => 0x400
  | .synthetic => 0x1000
  | .constructor => 0x10000

end Flag

structure Access where
  isPublic : Bool := false
  isPrivate : Bool := false
  isProtected : Bool := false
  isStatic : Bool := false
  isFinal : Bool := false
  isInterface : Bool := false
  isAbstract : Bool := false
  isSynthetic : Bool := false
  isConstructor : Bool := false
  deriving DecidableEq, Repr, Inhabited

namespace Access

def none : Access := {}

def has (access : Access) : Flag → Bool
  | .pub => access.isPublic
  | .priv => access.isPrivate
  | .prot => access.isProtected
  | .static => access.isStatic
  | .final => access.isFinal
  | .interface => access.isInterface
  | .abstract => access.isAbstract
  | .synthetic => access.isSynthetic
  | .constructor => access.isConstructor

def set (access : Access) : Flag → Access
  | .pub => { access with isPublic := true }
  | .priv => { access with isPrivate := true }
  | .prot => { access with isProtected := true }
  | .static => { access with isStatic := true }
  | .final => { access with isFinal := true }
  | .interface => { access with isInterface := true }
  | .abstract => { access with isAbstract := true }
  | .synthetic => { access with isSynthetic := true }
  | .constructor => { access with isConstructor := true }

def ofFlags (flags : List Flag) : Access :=
  flags.foldl set none

def flags (access : Access) : List Flag :=
  Flag.all.filter access.has

def union (left right : Access) : Access :=
  right.flags.foldl set left

def contains (access other : Access) : Bool :=
  other.flags.all access.has

def isPackagePrivate (access : Access) : Bool :=
  !access.isPublic && !access.isPrivate && !access.isProtected

def bits (access : Access) : Nat :=
  (access.flags.map Flag.bit).foldr (· + ·) 0

def text (access : Access) : String :=
  " ".intercalate (access.flags.map Flag.name)

/-- The access whose flags are named, with single blanks between them. Other words count for nothing. -/
def ofText (text : String) : Access :=
  ofFlags ((text.splitOn " ").filterMap Flag.ofName?)

def debugText (access : Access) : String :=
  "AccessFlags(" ++ access.text ++ ")"

def unsetPrivate (access : Access) : Access :=
  { access with isPrivate := false }

def unsetProtected (access : Access) : Access :=
  { access with isProtected := false }

def promote (access : Access) : Access :=
  { access with isPublic := true, isPrivate := false, isProtected := false }

end Access

end Shrinker.Program

import Shrinker.Options.Basic
import Shrinker.Toml.Document

namespace Shrinker.Options

open Toml

def string? : Value → Option String
  | .string text => some text
  | _ => none

def boolean? : Value → Option Bool
  | .boolean value => some value
  | _ => none

def count? : Value → Option Nat
  | .integer value => if 0 ≤ value then some value.toNat else none
  | _ => none

def elements? : Value → Option (List Value)
  | .array elements => some elements
  | .tables elements => some (elements.map (.table .header))
  | _ => none

def list? {α : Type} (element? : Value → Option α) (value : Value) : Option (List α) := do
  (← elements? value).mapM element?

/-- The fields of a record: a table by name, an array by position. A moment has none of them. -/
def fields? (names : List String) : Value → Option Table
  | .table _ entries => some entries
  | .moment _ => some []
  | value => (elements? value).map names.zip

def optionalField {α : Type} (read? : Value → Option α) (fields : Table) (name : String)
    (default : α) : Option α :=
  match fields.lookup name with
  | some value => read? value
  | none => some default

def requiredField {α : Type} (read? : Value → Option α) (fields : Table) (name : String) :
    Option α := do
  read? (← fields.lookup name)

def AssertionHandler.ofValue? (value : Value) : Option AssertionHandler := do
  let fields ← fields? ["holder", "name", "descriptor"] value
  return {
    holder := ← requiredField string? fields "holder"
    name := ← requiredField string? fields "name"
    descriptor := ← requiredField string? fields "descriptor" }

def Keep.ofValue? (value : Value) : Option Keep := do
  let fields ← fields? ["classes", "methods", "fields", "no-obfuscation"] value
  return {
    classes := ← optionalField (list? string?) fields "classes" []
    methods := ← optionalField (list? string?) fields "methods" []
    fields := ← optionalField (list? string?) fields "fields" []
    pinnedNames := ← optionalField (list? string?) fields "no-obfuscation" [] }

def publicize? (value : Value) : Option Bool := do
  optionalField boolean? (← fields? ["enabled"] value) "enabled" true

def ofTable? (table : Table) : Option Options := do
  return {
    threads := ← optionalField count? table "threads" 0
    publicize := ← optionalField publicize? table "publicizer" true
    assertionHandlers :=
      ← optionalField (list? AssertionHandler.ofValue?) table "assertion-handlers" []
    keep := ← optionalField Keep.ofValue? table "keep" {} }

def parse (text : String) : Except OptionsError Options :=
  match (Toml.parse? text).bind ofTable? with
  | none => .error .malformed
  | some options => do
      options.validate
      return options

/-- The options in a file with this content, or in one that is missing. -/
def ofFile : Option ByteArray → Except OptionsError Options
  | none => .error .unreadable
  | some content =>
      match String.fromUTF8? content with
      | none => .error .unreadable
      | some text => parse text

end Shrinker.Options

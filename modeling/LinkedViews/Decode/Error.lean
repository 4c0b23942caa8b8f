import LinkedViews.Json.Value
import LinkedViews.Text.Quoted

/-!
Why a JSON value is not the value it should be.
-/

namespace LinkedViews

/-- A record as it is written: its name and the number of its fields. -/
structure Shape where
  name : String
  fields : Nat
  deriving DecidableEq, Repr

inductive Expected where
  | string
  | boolean
  | sequence
  | offset
  | record (shape : Shape)
  deriving DecidableEq, Repr

inductive DecodeError where
  /-- The value is of another type. -/
  | wrongType (found : Json) (expected : Expected)
  /-- The value is of the right type and out of range. -/
  | wrongValue (found : Json) (expected : Expected)
  | missingField (name : String)
  /-- A record given as an array ends before a field that has no default. -/
  | tooShort (length : Nat) (shape : Shape)
  /-- A record given as an array goes on behind its last field. -/
  | tooLong (length : Nat)

def Expected.text : Expected → String
  | .string => "a string"
  | .boolean => "a boolean"
  | .sequence => "a sequence"
  | .offset => "usize"
  | .record shape => "struct " ++ shape.name

namespace DecodeError

/-- A value as a message names it. -/
def describe : Json → String
  | .null => "null"
  | .bool b => "boolean `" ++ (if b then "true" else "false") ++ "`"
  | .unsigned n => "integer `" ++ toString n ++ "`"
  | .negative n => "integer `" ++ toString n ++ "`"
  | .double x => "floating point `" ++ Json.doubleText x ++ "`"
  | .str s => "string " ++ Text.quote s
  | .arr _ => "sequence"
  | .obj _ => "map"

def message : DecodeError → String
  | .wrongType found expected =>
    "invalid type: " ++ describe found ++ ", expected " ++ expected.text
  | .wrongValue found expected =>
    "invalid value: " ++ describe found ++ ", expected " ++ expected.text
  | .missingField name => "missing field `" ++ name ++ "`"
  | .tooShort length shape =>
    "invalid length " ++ toString length ++ ", expected struct " ++ shape.name ++
      " with " ++ toString shape.fields ++ " elements"
  | .tooLong length =>
    "invalid length " ++ toString length ++ ", expected fewer elements in array"

example : (tooShort 1 ⟨"Pair", 2⟩).message =
    "invalid length 1, expected struct Pair with 2 elements" := by decide

end DecodeError

end LinkedViews

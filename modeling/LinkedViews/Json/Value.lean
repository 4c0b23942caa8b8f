import LinkedViews.Decimal.Shortest

/-!
JSON values.

An integer literal that fits a word is kept exactly, every other number is a double; so `5`
and `5.0` are different values. The members of an object keep the order they are given in.
-/

namespace LinkedViews

inductive Json where
  | null
  | bool (value : Bool)
  /-- An integer that is not negative. -/
  | unsigned (value : UInt64)
  /-- A negative integer. -/
  | negative (value : Int64)
  | double (value : Float)
  | str (value : String)
  | arr (items : List Json)
  | obj (members : List (String × Json))
  deriving Inhabited

namespace Json

/-- The member of an object with a given key; no other value has members. -/
def member? (key : String) : Json → Option Json
  | .obj members => members.lookup key
  | _ => none

def str? : Json → Option String
  | .str s => some s
  | _ => none

def isNull : Json → Bool
  | .null => true
  | _ => false

/-- Doubles have a fraction; from `1e+16` on and below `0.00001` they have an exponent. -/
def doubleLayout : Decimal.Layout := ⟨-5, 15⟩

def doubleText (x : Float) : String := doubleLayout.text x.toBits

example : doubleText 5.0 = "5.0" ∧ doubleText 2.5 = "2.5" ∧ doubleText 1e20 = "1e+20" := by
  decide +kernel
example : doubleText 1e-5 = "0.00001" ∧ doubleText 1.5e-6 = "1.5e-6" := by decide +kernel

end Json

end LinkedViews

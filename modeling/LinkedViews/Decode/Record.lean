import LinkedViews.Decode.Error

/-!
Reading values and records out of JSON.

A record is given as an object or as the array of its fields. In an object the fields that
are present are read first, by ascending name, and only then is a missing one reported. In
an array the fields stand in the order of their declaration.
-/

namespace LinkedViews.Decode

abbrev Result (α : Type) : Type := Except DecodeError α

def string : Json → Result String
  | .str s => .ok s
  | v => .error (.wrongType v .string)

def boolean : Json → Result Bool
  | .bool b => .ok b
  | v => .error (.wrongType v .boolean)

def offset : Json → Result UInt64
  | .unsigned n => .ok n
  | .negative n => .error (.wrongValue (.negative n) .offset)
  | v => .error (.wrongType v .offset)

def all {α : Type} (item : Json → Result α) : List Json → Result (List α)
  | [] => .ok []
  | v :: rest => do return (← item v) :: (← all item rest)

def sequence {α : Type} (item : Json → Result α) : Json → Result (List α)
  | .arr items => all item items
  | v => .error (.wrongType v .sequence)

variable {α : Type}

/-- A field of an object, if it is there. -/
def field? (members : List (String × Json)) (name : String) (value : Json → Result α) :
    Result (Option α) :=
  match members.lookup name with
  | some v => (value v).map some
  | none => .ok none

def require (name : String) : Option α → Result α
  | some a => .ok a
  | none => .error (.missingField name)

/-- A field of an array that has no default. -/
def element (shape : Shape) (items : List Json) (i : Nat) (value : Json → Result α) : Result α :=
  match items[i]? with
  | some v => value v
  | none => .error (.tooShort items.length shape)

/-- A field of an array that has a default. -/
def elementOr (default : α) (items : List Json) (i : Nat) (value : Json → Result α) : Result α :=
  match items[i]? with
  | some v => value v
  | none => .ok default

/-- The end of an array of fields. -/
def close (shape : Shape) (items : List Json) : Result Unit :=
  if items.length ≤ shape.fields then .ok () else .error (.tooLong items.length)

end LinkedViews.Decode

import LinkedViews.Json.Value

/-!
Writing a JSON value as text.
-/

namespace LinkedViews.Json

def escapeChar (c : Char) : List Char :=
  if c = '"' then ['\\', '"']
  else if c = '\\' then ['\\', '\\']
  else if c.toNat < 32 then
    let digit (n : Nat) := Nat.digitChar n
    ['\\', 'u', '0', '0', digit (c.toNat / 16), digit (c.toNat % 16)]
  else [c]

def writeString (s : String) : String :=
  String.ofList ('"' :: s.toList.flatMap escapeChar ++ ['"'])

mutual

def write : Json → String
  | .null => "null"
  | .bool b => if b then "true" else "false"
  | .unsigned n => toString n
  | .negative n => toString n
  | .double x => doubleText x
  | .str s => writeString s
  | .arr items => "[" ++ ",".intercalate (writeItems items) ++ "]"
  | .obj members => "\x7b" ++ ",".intercalate (writeMembers members) ++ "\x7d"

def writeItems : List Json → List String
  | [] => []
  | v :: rest => v.write :: writeItems rest

def writeMembers : List (String × Json) → List String
  | [] => []
  | (key, v) :: rest => (writeString key ++ ":" ++ v.write) :: writeMembers rest

end

end LinkedViews.Json

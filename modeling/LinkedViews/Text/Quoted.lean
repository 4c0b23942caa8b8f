import LinkedViews.Text.Hidden

/-!
Texts in double quotes, for messages.
-/

namespace LinkedViews.Text

def hexDigits (n : Nat) : List Char := Nat.toDigits 16 n

/-- Quotes, backslashes and a few controls have short forms; other characters that do not
show are given by number. -/
def quoteChar (c : Char) : List Char :=
  if c = '"' ∨ c = '\\' then ['\\', c]
  else if c = '\x00' then ['\\', '0']
  else if c = '\t' then ['\\', 't']
  else if c = '\n' then ['\\', 'n']
  else if c = '\r' then ['\\', 'r']
  else if isHidden c then ['\\', 'u', '\x7b'] ++ hexDigits c.toNat ++ ['\x7d']
  else [c]

def quote (s : String) : String := String.ofList ('"' :: s.toList.flatMap quoteChar ++ ['"'])

example : quote "a\"b\\c\n" = "\"a\\\"b\\\\c\\n\"" := by decide
example : quote "é\x01" = "\"é\\u\x7b1\x7d\"" := by decide

end LinkedViews.Text

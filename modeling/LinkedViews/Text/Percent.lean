import LinkedViews.Text.Utf8

/-!
Percent coding of paths.

Letters, digits and a few marks stand for themselves; every other byte of the text is written
as `%` and two upper-case hexadecimal digits. Reading takes digits of either case and keeps a
`%` that no two digits follow.
-/

namespace LinkedViews.Text.Percent

/-- Whether a byte stands for itself in a coded path. -/
def isPlain (b : UInt8) : Bool :=
  let c := Char.ofNat b.toNat
  c.isAlphanum || c ∈ ['-', '.', '_', '~', '/']

/-- The upper-case hexadecimal digit of a number below 16. -/
def hexDigit (n : Nat) : Char := Char.ofNat (if n < 10 then 48 + n else 55 + n)

def hexValue? (b : UInt8) : Option UInt8 :=
  if 48 ≤ b ∧ b ≤ 57 then some (b - 48)
  else if 97 ≤ b ∧ b ≤ 102 then some (b - 87)
  else if 65 ≤ b ∧ b ≤ 70 then some (b - 55)
  else none

def encodeByte (b : UInt8) : List Char :=
  if isPlain b then [Char.ofNat b.toNat]
  else ['%', hexDigit (b.toNat / 16), hexDigit (b.toNat % 16)]

def encode (s : String) : String := String.ofList ((Utf8.encode s.toList).flatMap encodeByte)

/-- The byte that three bytes write, if they are an escape. -/
def escape? (a b c : UInt8) : Option UInt8 :=
  if a = 37 then
    match hexValue? b, hexValue? c with
    | some hi, some lo => some (hi * 16 + lo)
    | _, _ => none
  else none

def decodeBytes : List UInt8 → List UInt8
  | a :: b :: c :: rest =>
    match escape? a b c with
    | some byte => byte :: decodeBytes rest
    | none => a :: decodeBytes (b :: c :: rest)
  | a :: rest => a :: decodeBytes rest
  | [] => []

def decode (s : String) : String :=
  String.ofList (Utf8.decode (decodeBytes (Utf8.encode s.toList)))

example : encode "/tmp/hello world.c" = "/tmp/hello%20world.c" := by decide
example : decode "/a%20b%2" = "/a b%2" := by decide
example : decode "%c3%A9%zz%" = "é%zz%" := by decide

end LinkedViews.Text.Percent

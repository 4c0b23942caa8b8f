/-!
Characters as bytes and back.

Reading takes any bytes: each longest beginning of a character that does not go on to be one
is read as a single U+FFFD, and so is each byte that begins no character.
-/

namespace LinkedViews.Text.Utf8

def encode (cs : List Char) : List UInt8 := cs.flatMap String.utf8EncodeChar

/-- A character of which some bytes are still to come. -/
structure Pending where
  /-- The bits read so far. -/
  bits : Nat
  /-- How many more bytes follow the next one. -/
  more : Nat
  /-- The least byte that may come next. -/
  low : UInt8
  /-- The greatest byte that may come next. -/
  high : UInt8
  deriving DecidableEq, Repr

def replacement : Char := '\uFFFD'

/-- The first byte of a character: what it completes, and what it leaves open. -/
def start (b : UInt8) : List Char × Option Pending :=
  if b ≤ 0x7F then ([Char.ofNat b.toNat], none)
  else if b < 0xC2 then ([replacement], none)
  else if b ≤ 0xDF then ([], some ⟨b.toNat % 32, 0, 0x80, 0xBF⟩)
  else if b = 0xE0 then ([], some ⟨0, 1, 0xA0, 0xBF⟩)
  else if b = 0xED then ([], some ⟨13, 1, 0x80, 0x9F⟩)
  else if b ≤ 0xEF then ([], some ⟨b.toNat % 16, 1, 0x80, 0xBF⟩)
  else if b = 0xF0 then ([], some ⟨0, 2, 0x90, 0xBF⟩)
  else if b ≤ 0xF3 then ([], some ⟨b.toNat % 8, 2, 0x80, 0xBF⟩)
  else if b = 0xF4 then ([], some ⟨4, 2, 0x80, 0x8F⟩)
  else ([replacement], none)

def step : Option Pending → UInt8 → List Char × Option Pending
  | none, b => start b
  | some p, b =>
    if p.low ≤ b ∧ b ≤ p.high then
      match p.more with
      | 0 => ([Char.ofNat (p.bits * 64 + b.toNat % 64)], none)
      | more + 1 => ([], some ⟨p.bits * 64 + b.toNat % 64, more, 0x80, 0xBF⟩)
    else
      let (out, next) := start b
      (replacement :: out, next)

def decodeFrom : Option Pending → List UInt8 → List Char
  | none, [] => []
  | some _, [] => [replacement]
  | state, b :: bytes => (step state b).1 ++ decodeFrom (step state b).2 bytes

def decode (bytes : List UInt8) : List Char := decodeFrom none bytes

@[simp] theorem decode_nil : decode [] = [] := rfl

example : decode [0x61, 0xC3, 0xA9, 0xF0, 0x9F, 0x98, 0x80] = ['a', 'é', '😀'] := by decide
example : decode [0xE2, 0x82, 0x61, 0xFF, 0xED, 0xA0] =
    [replacement, 'a', replacement, replacement, replacement] := by decide

end LinkedViews.Text.Utf8

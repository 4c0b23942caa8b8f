import LinkedViews.Json.Value
import LinkedViews.Text.Cut

/-!
Reading a JSON value from its text.

The digits of a number are taken as long as they fit 64 bits; those behind them only scale
it. Surrogate escapes are joined in pairs.
-/

namespace LinkedViews.Json

def isBlank (c : Char) : Bool := c == ' ' || c == '\n' || c == '\t' || c == '\r'

def skipBlanks (cs : List Char) : List Char := cs.dropWhile isBlank

def hexDigit? (c : Char) : Option Nat :=
  if '0' ≤ c ∧ c ≤ '9' then some (c.toNat - 48)
  else if 'a' ≤ c ∧ c ≤ 'f' then some (c.toNat - 87)
  else if 'A' ≤ c ∧ c ≤ 'F' then some (c.toNat - 55)
  else none

def hex? (cs : List Char) : Option Nat :=
  cs.foldlM (fun n c => (hexDigit? c).map (16 * n + ·)) 0

/-- The character behind a backslash that stands for one character. -/
def unescape? : Char → Option Char
  | '"' => some '"'
  | '\\' => some '\\'
  | '/' => some '/'
  | 'b' => some '\x08'
  | 'f' => some '\x0c'
  | 'n' => some '\n'
  | 'r' => some '\r'
  | 't' => some '\t'
  | _ => none

/-- The code units of a string up to its closing quote, behind those of `done` in reverse. -/
def units? (done : List Nat) : List Char → Option (List Nat × List Char)
  | [] => none
  | '"' :: rest => some (done.reverse, rest)
  | '\\' :: 'u' :: a :: b :: c :: d :: rest =>
    match hex? [a, b, c, d] with
    | some u => units? (u :: done) rest
    | none => none
  | '\\' :: c :: rest =>
    match unescape? c with
    | some c => units? (c.toNat :: done) rest
    | none => none
  | c :: rest => units? (c.toNat :: done) rest

def joinUnits (done : List Char) : List Nat → List Char
  | [] => done.reverse
  | [u] => (Char.ofNat u :: done).reverse
  | u :: v :: rest =>
    if 0xD800 ≤ u ∧ u < 0xDC00 ∧ 0xDC00 ≤ v ∧ v < 0xE000 then
      joinUnits (Char.ofNat (0x10000 + (u - 0xD800) * 1024 + (v - 0xDC00)) :: done) rest
    else joinUnits (Char.ofNat u :: done) (v :: rest)

/-- The string behind an opening quote. -/
def string? (cs : List Char) : Option (String × List Char) :=
  (units? [] cs).map fun (us, rest) => (String.ofList (joinUnits [] us), rest)

/-- Puts digits behind a number while it fits 64 bits; with the number of digits left over. -/
def absorb (n : Nat) : List Char → Nat × Nat
  | [] => (n, 0)
  | d :: ds =>
    if 10 * n + (d.toNat - 48) < UInt64.size then absorb (10 * n + (d.toNat - 48)) ds
    else (n, ds.length + 1)

/-- `n · 10 ^ e` for a number that fits 64 bits. -/
def scale (n : Nat) (e : Int) : Float :=
  let tens (k : Nat) : Float := Float.ofScientific 1 false k
  let x := Float.ofNat n
  if 0 ≤ e then if n = 0 then x else x * tens e.toNat
  else if -e ≤ 308 then x / tens (-e).toNat
  else if -e ≤ 616 then x / tens 308 / tens ((-e).toNat - 308)
  else 0

def digitsOf (cs : List Char) : Nat := cs.foldl (fun n c => 10 * n + (c.toNat - 48)) 0

/-- The value of a number literal without its sign. -/
def magnitude (negative : Bool) (cs : List Char) : Json :=
  let whole := cs.takeWhile Char.isDigit
  let cs := cs.drop whole.length
  let (n, extra) := absorb 0 whole
  let signed (x : Float) : Json := .double (if negative then -x else x)
  if cs.isEmpty ∧ extra = 0 then
    if ¬ negative then .unsigned n.toUInt64
    else if n = 0 ∨ UInt64.size / 2 < n then signed (Float.ofNat n)
    else .negative (Int64.ofInt (-n))
  else
    let fraction := match cs with
      | '.' :: cs => cs.takeWhile Char.isDigit
      | _ => []
    let cs := if fraction.isEmpty then cs else cs.drop (fraction.length + 1)
    let exponent : Int := match cs with
      | _ :: '-' :: cs => -(digitsOf cs : Int)
      | _ :: '+' :: cs => digitsOf cs
      | _ :: cs => digitsOf cs
      | [] => 0
    let (m, left) := absorb n fraction
    signed (scale m (extra - (fraction.length - left : Nat) + exponent))

def isNumeric (c : Char) : Bool := c.isDigit || c ∈ ['.', 'e', 'E', '+', '-']

def number? (cs : List Char) : Option (Json × List Char) :=
  let literal := cs.takeWhile isNumeric
  let rest := cs.drop literal.length
  match literal with
  | '-' :: c :: ds => if c.isDigit then some (magnitude true (c :: ds), rest) else none
  | c :: ds => if c.isDigit then some (magnitude false (c :: ds), rest) else none
  | [] => none

def word? (word : String) (value : Json) (cs : List Char) : Option (Json × List Char) :=
  (Text.behind? word.toList cs).map (value, ·)

mutual

/-- A value at the start of a text; `fuel` bounds the steps. -/
def value? (fuel : Nat) (cs : List Char) : Option (Json × List Char) :=
  match fuel with
  | 0 => none
  | fuel + 1 =>
    match skipBlanks cs with
    | '"' :: rest => (string? rest).map fun (s, rest) => (.str s, rest)
    | '[' :: rest =>
      match skipBlanks rest with
      | ']' :: rest => some (.arr [], rest)
      | _ => items? fuel [] rest
    | '\x7b' :: rest =>
      match skipBlanks rest with
      | '\x7d' :: rest => some (.obj [], rest)
      | _ => members? fuel [] rest
    | 'n' :: rest => word? "ull" .null rest
    | 't' :: rest => word? "rue" (.bool true) rest
    | 'f' :: rest => word? "alse" (.bool false) rest
    | cs => number? cs

def items? (fuel : Nat) (done : List Json) (cs : List Char) : Option (Json × List Char) :=
  match fuel with
  | 0 => none
  | fuel + 1 =>
    match value? fuel cs with
    | none => none
    | some (v, rest) =>
      match skipBlanks rest with
      | ',' :: rest => items? fuel (v :: done) rest
      | ']' :: rest => some (.arr (v :: done).reverse, rest)
      | _ => none

def members? (fuel : Nat) (done : List (String × Json)) (cs : List Char) :
    Option (Json × List Char) :=
  match fuel with
  | 0 => none
  | fuel + 1 =>
    match skipBlanks cs with
    | '"' :: rest =>
      match string? rest with
      | none => none
      | some (key, rest) =>
        match skipBlanks rest with
        | ':' :: rest =>
          match value? fuel rest with
          | none => none
          | some (v, rest) =>
            match skipBlanks rest with
            | ',' :: rest => members? fuel ((key, v) :: done) rest
            | '\x7d' :: rest => some (.obj ((key, v) :: done).reverse, rest)
            | _ => none
        | _ => none
    | _ => none

end

/-- The value that a text writes, if nothing but blanks follows it. -/
def parse? (text : String) : Option Json :=
  let cs := text.toList
  match value? (2 * cs.length + 2) cs with
  | some (v, rest) => if (skipBlanks rest).isEmpty then some v else none
  | none => none

end LinkedViews.Json

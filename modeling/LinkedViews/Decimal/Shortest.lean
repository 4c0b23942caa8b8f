/-!
The shortest decimal text of a finite double.

A double stands for every real number that rounds to it. Of the decimals among those the
ones with the fewest digits are taken, and of these the one nearest to the double itself.
-/

namespace LinkedViews.Decimal

/-- `digits · 10 ^ exponent`. -/
structure Scaled where
  digits : Nat
  exponent : Int
  deriving DecidableEq, Repr

/-- The magnitude of a finite double as `mantissa · 2 ^ exponent`. -/
structure Binary where
  mantissa : Nat
  exponent : Int
  deriving DecidableEq, Repr

/-- The mantissa that stands for a power of two. -/
def Binary.unit : Nat := Nat.pow 2 52

def Binary.ofBits (bits : UInt64) : Binary :=
  let fraction := bits.toNat % unit
  let biased := bits.toNat / unit % 2048
  if biased = 0 then ⟨fraction, -1074⟩ else ⟨fraction + unit, Int.ofNat biased - 1075⟩

/-- The quotient of two numbers that is the rational `n · base ^ e`. -/
def ratio (n base : Nat) (e : Int) : Nat × Nat :=
  if 0 ≤ e then (n * Nat.pow base e.toNat, 1) else (n, Nat.pow base (-e).toNat)

/-- The exponent of the first digit of a positive rational. -/
def leadingExponent (num den : Nat) : Int :=
  if den ≤ num then ((Nat.toDigits 10 (num / den)).length : Int) - 1
  else -(((List.range 400).find? fun j => den ≤ num * Nat.pow 10 (j + 1)).getD 0 + 1 : Nat)

/-- The multiple of `10 ^ k` nearest to the double among those that round to it; of two that
are equally near the even one. -/
def onGrid? (b : Binary) (k : Int) : Option Nat :=
  -- all numbers in units of `2 ^ (exponent - 2)`
  let tens := ratio 1 10 k
  let twos := ratio 1 2 (b.exponent - 2)
  let unit := tens.1 * twos.2
  let scale := tens.2 * twos.1
  let value := 4 * b.mantissa * scale
  let low := (4 * b.mantissa - if b.mantissa = Binary.unit ∧ -1074 < b.exponent then 1 else 2) * scale
  let high := (4 * b.mantissa + 2) * scale
  let rounds (c : Nat) : Bool :=
    if b.mantissa % 2 = 0 then low ≤ c * unit && c * unit ≤ high
    else low < c * unit && c * unit < high
  let down := value / unit
  let nearer :=
    if 2 * (value - down * unit) < unit then down
    else if unit < 2 * (value - down * unit) then down + 1
    else if down % 2 = 0 then down else down + 1
  let farther := if nearer = down then down + 1 else down
  [nearer, farther].find? rounds

/-- The digits of a positive double. Seventeen always suffice. -/
def shortest (b : Binary) : Scaled :=
  let v := ratio b.mantissa 2 b.exponent
  let e := leadingExponent v.1 v.2
  let found := (List.range 17).findSome? fun (n : Nat) =>
    (onGrid? b (e - n)).map fun c => Scaled.mk c (e - n)
  found.getD ⟨0, 0⟩

/-- Which numbers are written by position; the others have an exponent, with its sign and no
more digits than it needs. -/
structure Layout where
  /-- The least exponent of a first digit that is written by position. -/
  least : Int
  /-- The greatest one. -/
  greatest : Int

/-- The digits without the zeros at their end, and the exponent of the first one. -/
def Scaled.significant (d : Scaled) : List Char × Int :=
  let ds := Nat.toDigits 10 d.digits
  ((ds.reverse.dropWhile (· == '0')).reverse, d.exponent + ds.length - 1)

def Layout.write (l : Layout) (d : Scaled) : String :=
  let (ds, e) := d.significant
  let fraction (r : List Char) : List Char := if r.isEmpty then ['0'] else r
  if e < l.least ∨ l.greatest < e then
    let point := if ds.length ≤ 1 then [] else '.' :: ds.drop 1
    String.ofList (ds.take 1 ++ point) ++ (if e < 0 then "e-" else "e+") ++
      toString e.natAbs
  else if e < 0 then
    String.ofList ('0' :: '.' :: List.replicate ((-e).toNat - 1) '0' ++ ds)
  else
    let whole := ds.take (e.toNat + 1)
    String.ofList (whole ++ List.replicate (e.toNat + 1 - whole.length) '0' ++
      '.' :: fraction (ds.drop (e.toNat + 1)))

/-- The text of a finite double. -/
def Layout.text (l : Layout) (bits : UInt64) : String :=
  let b := Binary.ofBits bits
  (if UInt64.size / 2 ≤ bits.toNat then "-" else "") ++
    if b.mantissa = 0 then "0.0" else l.write (shortest b)

end LinkedViews.Decimal

/-!
# `Numeric/Decimal.lean` — shortest decimals

The decimal of a binary64 number is the one with the fewest digits that reads back as the same
number, and the nearest of those. The search for it runs in exact natural arithmetic: a finite
positive number is `m * 2 ^ q`, and the reals that round to it form an interval around it. For
each count of digits the two decimals next to the number are tried; the first count for which one
lies in the interval wins.

Two layouts write it out: `inspect` keeps a fraction and turns to an exponent far from one, and
`plain` is always positional.
-/

set_option autoImplicit false

namespace GeneticRepair.Decimal

/-- A positive decimal, `digits * 10 ^ exponent`. -/
structure Shortest where
  /-- The digits, read as one natural number. -/
  digits : Nat
  /-- The power of ten of the last digit. -/
  exponent : Int
deriving DecidableEq

/-- A positive fraction of natural numbers. -/
structure Fraction where
  num : Nat
  /-- The part below the line, positive in every use. -/
  den : Nat

/-- `n * 10 ^ e` as a fraction. -/
def Fraction.ofDecimal (n : Nat) (e : Int) : Fraction :=
  if 0 ≤ e then ⟨n * Nat.pow 10 e.toNat, 1⟩ else ⟨n, Nat.pow 10 (-e).toNat⟩

/-- `n * 2 ^ e` as a fraction. -/
def Fraction.ofBinary (n : Nat) (e : Int) : Fraction :=
  if 0 ≤ e then ⟨n * Nat.pow 2 e.toNat, 1⟩ else ⟨n, Nat.pow 2 (-e).toNat⟩

/-- Order of fractions by cross multiplication. -/
def Fraction.le (a b : Fraction) : Bool := a.num * b.den ≤ b.num * a.den

def Fraction.lt (a b : Fraction) : Bool := a.num * b.den < b.num * a.den

def Fraction.floor (a : Fraction) : Nat := a.num / a.den

def Fraction.distance (a b : Fraction) : Fraction :=
  ⟨max (a.num * b.den) (b.num * a.den) - min (a.num * b.den) (b.num * a.den), a.den * b.den⟩

/-- A positive binary64 number with the interval of reals that round to it. -/
structure Binary where
  value : Fraction
  low : Fraction
  high : Fraction
  /-- Whether the ends belong to the interval: ties round to the even significand. -/
  closed : Bool

/-- Reads significand and exponent from the bits of a finite positive number. -/
def Binary.ofBits (bits : Nat) : Binary :=
  let field : Nat := bits / Nat.pow 2 52 % Nat.pow 2 11
  let low : Nat := bits % Nat.pow 2 52
  let m : Nat := if field = 0 then low else low + Nat.pow 2 52
  let q : Int := if field = 0 then -1074 else (field : Int) - 1075
  -- at a power of two the number below is only half as far away as the one above
  let below := if low = 0 ∧ 1 < field then 4 * m - 1 else 4 * m - 2
  ⟨.ofBinary (4 * m) (q - 2), .ofBinary below (q - 2), .ofBinary (4 * m + 2) (q - 2), m % 2 = 0⟩

/-- Whether a decimal reads back as the number. -/
def Binary.readsBack (x : Binary) (d : Fraction) : Bool :=
  if x.closed then x.low.le d && d.le x.high else x.low.lt d && d.lt x.high

/-- The least `e` such that `10 ^ e` is above the value, searched downwards from a bound that holds
for every binary64 number. -/
def magnitude (value : Fraction) : Nat → Int → Int
  | 0, e => e
  | steps + 1, e =>
    if (Fraction.ofDecimal 1 (e - 1)).le value then e else magnitude value steps (e - 1)

/-- The nearer of the two decimals with last digit at `10 ^ e` next to the value, if it reads
back. -/
def Binary.atExponent (x : Binary) (e : Int) : Option Shortest :=
  let grid := Fraction.floor
    (if 0 ≤ e then ⟨x.value.num, x.value.den * Nat.pow 10 e.toNat⟩
     else ⟨x.value.num * Nat.pow 10 (-e).toNat, x.value.den⟩)
  let down := Fraction.ofDecimal grid e
  let up := Fraction.ofDecimal (grid + 1) e
  let fitsDown := grid ≠ 0 ∧ x.readsBack down
  let fitsUp := x.readsBack up
  if fitsDown ∧ (¬ fitsUp ∨ (x.value.distance down).le (x.value.distance up)) then
    some ⟨grid, e⟩
  else if fitsUp then some ⟨grid + 1, e⟩
  else none

/-- Drops zeros at the end of the digits. -/
def Shortest.trim (d : Shortest) : Nat → Shortest
  | 0 => d
  | steps + 1 =>
    if d.digits % 10 = 0 ∧ d.digits ≠ 0 then
      Shortest.trim ⟨d.digits / 10, d.exponent + 1⟩ steps
    else d

/-- The shortest decimal of the positive finite number with the given bits. -/
def shortest (bits : Nat) : Shortest :=
  let x := Binary.ofBits bits
  -- binary64 numbers lie between `10 ^ -324` and `10 ^ 309`
  let top := magnitude x.value 640 310
  let found := (List.range 17).findSome? fun (n : Nat) => x.atExponent (top - 1 - Int.ofNat n)
  (found.getD ⟨0, 0⟩).trim 20

/-- Digits with the decimal point where it belongs, without an exponent. -/
def Shortest.positional (d : Shortest) : String :=
  let ds := (toString d.digits).toList
  if 0 ≤ d.exponent then String.ofList (ds ++ List.replicate d.exponent.toNat '0')
  else
    let places := (-d.exponent).toNat
    if places < ds.length then
      String.ofList (ds.take (ds.length - places) ++ '.' :: ds.drop (ds.length - places))
    else String.ofList ('0' :: '.' :: List.replicate (places - ds.length) '0' ++ ds)

/-- The power of ten of the first digit. -/
def Shortest.leading (d : Shortest) : Int := d.exponent + ((toString d.digits).length : Int) - 1

/-- One digit before the point and a power of ten. -/
def Shortest.scientific (d : Shortest) : String :=
  match (toString d.digits).toList with
  | [] => "0e0"
  | [c] => s!"{c}e{d.leading}"
  | c :: cs => s!"{c}.{String.ofList cs}e{d.leading}"

/-- Writes a number, given how to write zero and a positive finite one. -/
def write (zero : String) (finite : Shortest → String) (x : Float) : String :=
  if x.isNaN then "NaN"
  else
    let bits := x.toBits.toNat
    let sign := if bits / Nat.pow 2 63 = 1 then "-" else ""
    let size := bits % Nat.pow 2 63
    if x.isInf then sign ++ "inf"
    else if size = 0 then sign ++ zero
    else sign ++ finite (shortest size)

/-- Positional text: an integral number is written without a point. -/
def plain (x : Float) : String := write "0" Shortest.positional x

/-- The text for a person who inspects a value: an integral number keeps `.0`, and numbers from
`1e16` on or below `1e-4` are written with an exponent. -/
def inspect (x : Float) : String :=
  write "0.0"
    (fun d =>
      if -4 ≤ d.leading ∧ d.leading < 16 then
        if 0 ≤ d.exponent then d.positional ++ ".0" else d.positional
      else d.scientific)
    x

end GeneticRepair.Decimal

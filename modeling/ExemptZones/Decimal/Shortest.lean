/-
The shortest decimal of a 64-bit binary number: of all decimals that round to the number, one on
the coarsest grid of powers of ten, and there the nearest.

A number is read off its bits as `m · 2^q`. The reals that round to it lie between the midpoints to
its two neighbours, the midpoints included when `m` is even. Everything is exact: `scaled` holds
the number and the two ends as multiples of one unit.
-/

namespace ExemptZones.Decimal

/-- A finite positive number `m · 2^q` as its format holds it. -/
structure Binary where
  m : Nat
  q : Int
  /-- The number below is half as far away as the number above. -/
  steep : Bool
  deriving DecidableEq, Repr

inductive Magnitude where
  | zero
  | finite (b : Binary)
  | infinite
  | nan
  deriving DecidableEq, Repr

/-- The highest of 64 bits. -/
def signBit : Nat := 0x8000000000000000

/-- The least `m` of a number that is held in full: the bit above the 52 bits of a fraction. -/
def leastNormal : Nat := 0x10000000000000

/-- The magnitude that the low 63 bits stand for. -/
def Magnitude.ofBits (bits : UInt64) : Magnitude :=
  let n := bits.toNat % signBit
  let e := n / leastNormal
  let f := n % leastNormal
  if e = 2047 then if f = 0 then .infinite else .nan
  else if e = 0 then if f = 0 then .zero else .finite ⟨f, -1074, false⟩
  else .finite ⟨leastNormal + f, Int.ofNat e - 1075, f = 0 && e > 1⟩

def isNegative (bits : UInt64) : Bool :=
  signBit ≤ bits.toNat

/-- An interval around a number, all over one denominator. -/
structure Interval where
  low : Nat
  value : Nat
  high : Nat
  unit : Nat
  closed : Bool

def Binary.interval (b : Binary) : Interval :=
  let up := Nat.pow 2 b.q.toNat
  let down := Nat.pow 2 (-b.q).toNat
  ⟨(4 * b.m - if b.steep then 1 else 2) * up, 4 * b.m * up, (4 * b.m + 2) * up, 4 * down, b.m % 2 = 0⟩

/-- The interval in units of `10^g`. -/
def Interval.scaled (i : Interval) (g : Int) : Interval :=
  let down := Nat.pow 10 (-g).toNat
  ⟨i.low * down, i.value * down, i.high * down, i.unit * Nat.pow 10 g.toNat, i.closed⟩

def Interval.holds (i : Interval) (k : Nat) : Bool :=
  let x := k * i.unit
  if i.closed then i.low ≤ x && x ≤ i.high else i.low < x && x < i.high

/-- The multiple of the unit that lies in the interval and nearest to the value; of two the even one. -/
def Interval.nearest? (i : Interval) : Option Nat :=
  let k := i.value / i.unit
  match k > 0 && i.holds k, i.holds (k + 1) with
  | true, true =>
    let below := i.value - k * i.unit
    let above := (k + 1) * i.unit - i.value
    some (if below < above || below = above && k % 2 = 0 then k else k + 1)
  | true, false => some k
  | false, true => some (k + 1)
  | false, false => none

/-- Grids from `10^g` down, at most `fuel` of them. -/
def search (i : Interval) : Nat → Int → Nat × Int
  | 0, g => (0, g)
  | fuel + 1, g =>
    match (i.scaled g).nearest? with
    | some k => (k, g)
    | none => search i fuel (g - 1)

/-- Digits `k` and exponent `g` of the shortest decimal `k · 10^g`. No number of the format exceeds
`10^309`, and all are multiples of a power of ten on the finest grid tried. -/
def Binary.shortest (b : Binary) : Nat × Int :=
  search b.interval 660 309

/-- How a number is written out. -/
structure Style where
  /-- Positional when the decimal point falls after this many digits or later … -/
  pointFrom : Int
  /-- … and after no more than this many. -/
  pointTo : Int
  /-- The least count of digits of an exponent. -/
  exponentDigits : Nat
  infinite : String
  nan : String

def padLeft (width : Nat) (ds : List Char) : List Char :=
  List.replicate (width - ds.length) '0' ++ ds

/-- The decimal `k · 10^g` written out. A whole number keeps one zero after the point. -/
def Style.digits (st : Style) (k : Nat) (g : Int) : List Char :=
  let ds := (toString k).toList
  let point := Int.ofNat ds.length + g
  if st.pointFrom ≤ point ∧ point ≤ st.pointTo then
    if point ≤ 0 then '0' :: '.' :: List.replicate (-point).toNat '0' ++ ds
    else if g ≥ 0 then ds ++ List.replicate g.toNat '0' ++ ['.', '0']
    else ds.take point.toNat ++ '.' :: ds.drop point.toNat
  else
    let e := point - 1
    let tail := if ds.length > 1 then '.' :: ds.drop 1 else []
    ds.take 1 ++ tail ++ 'e' :: (if e < 0 then '-' else '+') ::
      padLeft st.exponentDigits (toString e.natAbs).toList

def Style.write (st : Style) (bits : UInt64) : String :=
  let sign := if isNegative bits then "-" else ""
  match Magnitude.ofBits bits with
  | .zero => sign ++ "0.0"
  | .infinite => sign ++ st.infinite
  | .nan => st.nan
  | .finite b =>
    let (k, g) := b.shortest
    sign ++ String.ofList (st.digits k g)

/-- The number `m · 10^e`, rounded to the nearest. Beyond the reach of the format there is no need
to look at the digits. -/
def toFloat (m : Nat) (e : Int) : Float :=
  let size := Int.ofNat (toString m).length + e
  if m = 0 || size < -330 then 0.0
  else if size > 330 then Float.ofBits 0x7ff0000000000000
  else Float.ofScientific m (e < 0) e.natAbs

end ExemptZones.Decimal

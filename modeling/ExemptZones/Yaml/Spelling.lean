import ExemptZones.Text.Blank
import ExemptZones.Text.Quoted
import ExemptZones.Value.Shown
import ExemptZones.Yaml.Fault
import ExemptZones.Yaml.Kind
import ExemptZones.Yaml.Scalar

/-
What the spelling of a scalar is worth, once its kind is known. A document may claim a kind for any text, so
each reading may fail.
-/

namespace ExemptZones.Yaml

/-! ## Flags and integers -/

def flagValue (s : String) : Except Fault Value :=
  let w := s.toLower
  if ["yes", "true", "on"].contains w then .ok (.bool true)
  else if ["no", "false", "off"].contains w then .ok (.bool false)
  else .error (.scalar .flag)

/-- The number that digits spell in a base up to sixteen. -/
def inBase? (base : Nat) (ds : List Char) : Option Nat :=
  if ds.isEmpty then none
  else ds.foldlM (fun n c => (hexValue? c).bind fun d => if d < base then some (base * n + d) else none) 0

/-- The number that parts spell in base sixty, the highest first. -/
def inSixties? (ps : List (List Char)) : Option Nat :=
  ps.foldlM (fun n p => (inBase? 10 p).map (60 * n + ·)) 0

def magnitude? (cs : List Char) : Option Nat :=
  match cs with
  | '0' :: 'b' :: r => inBase? 2 r
  | '0' :: 'x' :: r => inBase? 16 r
  | '0' :: r => if r.isEmpty then some 0 else inBase? 8 r
  | cs => if cs.contains ':' then inSixties? (parts cs) else inBase? 10 (Text.trimBy Text.isBlank cs)

def isNegative (cs : List Char) : Bool :=
  cs.head? = some '-'

def integerValue (s : String) : Except Fault Value :=
  let cs := s.toList.filter (· ≠ '_')
  match magnitude? (dropSign cs) with
  | some n => .ok (.int (if isNegative cs then -Int.ofNat n else Int.ofNat n))
  | none => .error (.scalar .integer)

/-! ## Floats -/

def exponentValue? : List Char → Option Int
  | [] => some 0
  | c :: cs =>
    if c ≠ 'e' then none
    else (inBase? 10 (dropSign cs)).map fun n => if isNegative cs then -Int.ofNat n else Int.ofNat n

/-- Digits with a point and an exponent, each of which may be missing. -/
def decimal? (cs : List Char) : Option Float :=
  let whole := cs.takeWhile Char.isDigit
  let (fraction, rest) := match cs.dropWhile Char.isDigit with
    | '.' :: r => (r.takeWhile Char.isDigit, r.dropWhile Char.isDigit)
    | r => ([], r)
  if whole.isEmpty && fraction.isEmpty then none
  else (exponentValue? rest).map fun e =>
    Decimal.toFloat ((inBase? 10 (whole ++ fraction)).getD 0) (e - fraction.length)

/-- The sum of parts in base sixty, the lowest first; `unit` is what the next part counts. -/
def sumSixties? (sum : Float) (unit : Nat) : List (List Char) → Option Float
  | [] => some sum
  | p :: ps => do sumSixties? (sum + (← decimal? p) * Float.ofNat unit) (unit * 60) ps

def unsignedFloat? (cs : List Char) : Option Float :=
  if cs = ".inf".toList || cs = "inf".toList || cs = "infinity".toList then some (1.0 / 0.0)
  else if cs = ".nan".toList || cs = "nan".toList then some (0.0 / 0.0)
  else if cs.contains ':' then sumSixties? 0.0 1 (parts cs).reverse
  else decimal? (Text.trimBy Text.isBlank cs)

def floatValue (s : String) : Except Fault Value :=
  let cs := s.toLower.toList.filter (· ≠ '_')
  match unsignedFloat? (dropSign cs) with
  | some x => .ok (.float (if isNegative cs then -x else x))
  | none => .error (.scalar .float)

/-! ## Dates -/

def isLeap (year : Nat) : Bool :=
  year % 4 = 0 && (year % 100 ≠ 0 || year % 400 = 0)

def monthLength (year month : Nat) : Nat :=
  if month = 2 then (if isLeap year then 29 else 28)
  else if month = 4 || month = 6 || month = 9 || month = 11 then 30
  else 31

/-- Whether the calendar has the date, the day has the time, and the zone is less than a day away. -/
def Stamp.exists (s : Stamp) : Bool :=
  1 ≤ s.year && 1 ≤ s.month && s.month ≤ 12 && 1 ≤ s.day && s.day ≤ monthLength s.year s.month &&
    (match s.time with | some (h, m, t, _) => h < 24 && m < 60 && t < 60 | none => true) &&
    (match s.zone with | some z => z.natAbs < 1440 | none => true)

/-- A number with at least `width` digits. -/
def padded (width n : Nat) : String :=
  String.ofList (Decimal.padLeft width (toString n).toList)

/-- Millionths of a second; further digits do not count. -/
def micros (fraction : List Char) : Nat :=
  number ((fraction ++ List.replicate 6 '0').take 6)

def zoneText (z : Int) : String :=
  (if z < 0 then "-" else "+") ++ padded 2 (z.natAbs / 60) ++ ":" ++ padded 2 (z.natAbs % 60)

/-- A date as it is shown on its own. -/
def Stamp.plain (s : Stamp) : String :=
  let date := padded 4 s.year ++ "-" ++ padded 2 s.month ++ "-" ++ padded 2 s.day
  match s.time with
  | none => date
  | some (h, m, t, fraction) =>
    let us := micros fraction
    date ++ " " ++ padded 2 h ++ ":" ++ padded 2 m ++ ":" ++ padded 2 t ++
      (if us = 0 then "" else "." ++ padded 6 us) ++
      (match s.zone with | some z => zoneText z | none => "")

/-- A zone as it is shown inside a list. -/
def zoneInside (z : Int) : String :=
  if z = 0 then "datetime.timezone.utc"
  else
    let amount :=
      if z < 0 then "days=-1, seconds=" ++ toString (60 * (1440 + z)) else "seconds=" ++ toString (60 * z)
    "datetime.timezone(datetime.timedelta(" ++ amount ++ "))"

/-- A date as it is shown inside a list: seconds and their parts are left out when zero. -/
def Stamp.inside (s : Stamp) : String :=
  let list (ns : List Nat) := ", ".intercalate (ns.map toString)
  match s.time with
  | none => "datetime.date(" ++ list [s.year, s.month, s.day] ++ ")"
  | some (h, m, t, fraction) =>
    let us := micros fraction
    let tail := if us ≠ 0 then [t, us] else if t ≠ 0 then [t] else []
    "datetime.datetime(" ++ list ([s.year, s.month, s.day, h, m] ++ tail) ++
      (match s.zone with | some z => ", tzinfo=" ++ zoneInside z | none => "") ++ ")"

def dateValue (s : String) : Except Fault Value :=
  match stamp? s.toList with
  | none => .error (.scalar .date)
  | some d => if d.exists then .ok (.other d.plain d.inside) else .error (.scalar .day)

/-! ## Bytes -/

def base64Value? (c : Char) : Option Nat :=
  if 'A' ≤ c ∧ c ≤ 'Z' then some (c.toNat - 65)
  else if 'a' ≤ c ∧ c ≤ 'z' then some (c.toNat - 71)
  else if c.isDigit then some (c.toNat + 4)
  else if c = '+' then some 62
  else if c = '/' then some 63
  else none

/-- Bytes from characters of six bits each; `held` are the bits not yet used, `seen` says how many characters
of a group of four have come, `pads` how many signs fill it up. Other characters do not count. -/
def base64From (held seen pads : Nat) : List Char → Option Bytes
  | [] => if seen = 0 then some [] else none
  | c :: cs =>
    if c = '=' then
      if 2 ≤ seen && 4 ≤ seen + pads + 1 then some []
      else base64From held seen (if 2 ≤ seen then pads + 1 else pads) cs
    else
      match base64Value? c with
      | none => base64From held seen pads cs
      | some v =>
        if seen = 0 then base64From v 1 0 cs
        else if seen = 1 then (base64From (v % 16) 2 0 cs).map (UInt8.ofNat (held * 4 + v / 16) :: ·)
        else if seen = 2 then (base64From (v % 4) 3 0 cs).map (UInt8.ofNat (held * 16 + v / 4) :: ·)
        else (base64From 0 0 0 cs).map (UInt8.ofNat (held * 64 + v) :: ·)

def bytesValue (s : String) : Except Fault Value :=
  if s.toList.all fun c => c.toNat < 0x80 then
    match base64From 0 0 0 s.toList with
    | some b => .ok (.bytes b)
    | none => .error .badBytes
  else .error .badBytes

end ExemptZones.Yaml

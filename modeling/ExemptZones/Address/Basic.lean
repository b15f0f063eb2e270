import ExemptZones.Text.Basic
import ExemptZones.Text.Blank
import ExemptZones.Address.Regroup
import ExemptZones.Address.Checksum

/-
Addresses: a readable part, the separator `1`, the account's bytes in symbols, and six symbols of
checksum. `encode` writes one, `validate` accepts one that carries the expected readable part and
stands for at most 255 bytes, and answers these.
-/

namespace ExemptZones.Address

/-- The part before the last `1` and the part after it. -/
def splitLast : List Char → Option (List Char × List Char)
  | [] => none
  | c :: cs =>
    match splitLast cs with
    | some (a, b) => some (c :: a, b)
    | none => if c = '1' then some ([], cs) else none

/-- The readable part and the data of a text with a right checksum. The text may be all in upper
case; what is answered is in lower case. -/
def decode? (s : String) : Option (String × List Symbol) := do
  let cs := s.toList
  guard (cs.all fun c => 33 ≤ c.toNat && c.toNat ≤ 126)
  guard (cs.map Char.toLower = cs || cs.map Char.toUpper = cs)
  let (hrp, rest) ← splitLast (cs.map Char.toLower)
  guard (1 ≤ hrp.length && hrp.length ≤ 83 && 6 ≤ rest.length)
  let data ← rest.mapM Symbol.symbol?
  guard (Checksum.verify hrp data)
  return (String.ofList hrp, data.take (data.length - 6))

def encode (raw : Bytes) (hrp : String) : String :=
  let data := Regroup.ofBytes raw
  let check := Checksum.create hrp.toList data
  String.ofList (hrp.toList ++ '1' :: (data ++ check).map Symbol.toChar)

/-- The most bytes that an address stands for. -/
def maxLength : Nat := 255

/-- Why a text is no address. -/
inductive Fault where
  | empty
  | undecodable
  | uppercase
  | wrongPrefix (expected got : String)
  | padding
  | noBytes
  | tooLong (size : Nat)
  deriving DecidableEq, Repr

def Fault.reason : Fault → String
  | .empty => "empty address string is not allowed"
  | .undecodable => "decoding bech32 failed"
  | .uppercase => "uppercase addresses are not accepted; use the lowercase form"
  | .wrongPrefix expected got => "invalid Bech32 prefix; expected " ++ expected ++ ", got " ++ got
  | .padding => "decoding bech32 failed: invalid padding"
  | .noBytes => "addresses cannot be empty"
  | .tooLong size => "address max length is " ++ toString maxLength ++ ", got " ++ toString size

/-- The bytes that an address with the readable part `hrp` stands for. -/
def validate (address : Text) (hrp : String) : Except Fault Bytes := do
  let .plain address := address | throw .undecodable
  if address.toList.all Text.isBlank then throw .empty
  let some (got, data) := decode? address | throw .undecodable
  if address.toList.any Char.isUpper then throw .uppercase
  if got ≠ hrp then throw (.wrongPrefix hrp got)
  let some raw := Regroup.toBytes? data | throw .padding
  if raw.isEmpty then throw .noBytes
  if raw.length > maxLength then throw (.tooLong raw.length)
  return raw

def isValid (address : Text) (hrp : String) : Bool :=
  (validate address hrp).toBool

end ExemptZones.Address

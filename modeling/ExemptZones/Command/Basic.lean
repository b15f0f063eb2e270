import ExemptZones.Message
import ExemptZones.Page
import ExemptZones.Party
import ExemptZones.Text.Hex

/-
What a command line can ask for, and how it can be misused.
-/

namespace ExemptZones

/-! ## Misuse -/

/-- A rule that options keep among themselves, broken. -/
inductive OptionRule where
  | pageAndOffset
  | pageWithoutLimit
  /-- The page key is no hexadecimal text; a digit was expected at the position. -/
  | pageKey (position : Nat)
  | format
  deriving DecidableEq, Repr

def OptionRule.message : OptionRule → String
  | .pageAndOffset => "--page and --offset cannot be used together"
  | .pageWithoutLimit => "--page requires a non-zero --limit"
  | .pageKey position =>
    "--page-key must be hex: non-hexadecimal number found in fromhex() arg at position " ++ toString position
  | .format => "--format must be json or yaml"

inductive Misuse where
  | unknownOption (name : Text)
  | missingValue (option : String)
  | unexpectedValue (option : String)
  | unknownCommand (name : Text)
  | missingCommand
  | missingArgument (name : String)
  | extraArgument (word : Text)
  | notInteger (option : String) (word : Text)
  | tooSmall (option : String) (least : Nat)
  | noSuchFile (path : Text)
  | broken (rule : OptionRule)
  deriving DecidableEq, Repr

def Misuse.message : Misuse → Text
  | .unknownOption name => "There is no option " ++ name ++ "."
  | .missingValue option => option ++ " needs a value."
  | .unexpectedValue option => option ++ " takes no value."
  | .unknownCommand name => "There is no command " ++ name ++ "."
  | .missingCommand => "A command is missing."
  | .missingArgument name => name ++ " is missing."
  | .extraArgument word => word ++ " is one argument too many."
  | .notInteger option word => option ++ " needs an integer, not " ++ word ++ "."
  | .tooSmall option least => option ++ " must be at least " ++ toString least ++ "."
  | .noSuchFile path => "There is no file " ++ path ++ "."
  | .broken rule => rule.message

/-! ## Listings -/

/-- Which part of a listing to show. -/
structure Excerpt where
  limit : Nat := 0
  offset : Nat := 0
  /-- Pages are counted from one. -/
  page : Nat := 1
  pageKey : Text := ""
  reverse : Bool := false
  countTotal : Bool := false
  deriving DecidableEq, Repr

namespace Excerpt

/-- Where the page of that number begins. -/
def start (e : Excerpt) : Except OptionRule Nat :=
  if e.page ≤ 1 then .ok e.offset
  else if e.offset ≠ 0 then .error .pageAndOffset
  else if e.limit = 0 then .error .pageWithoutLimit
  else .ok ((e.page - 1) * e.limit)

/-- The key of that text; none for an empty text. -/
def key? (e : Excerpt) : Except OptionRule (Option Bytes) :=
  if e.pageKey.isEmpty then .ok none
  else
    match Hex.read e.pageKey with
    | .ok b => .ok (some b)
    | .error position => .error (.pageKey position)

def toRequest (e : Excerpt) : Except OptionRule PageRequest := do
  let offset ← e.start
  let key ← e.key?
  return { key := key, offset := offset, limit := e.limit, countTotal := e.countTotal, reverse := e.reverse }

end Excerpt

/-! ## Commands -/

inductive Command where
  | taxable (sender recipient : Party)
  | zones (excerpt : Excerpt)
  | addresses (zone : Text) (excerpt : Excerpt)
  | zone (name : Text)
  /-- A message; if no authority is named, it is sent as the configured one. -/
  | change (kind : MessageKind) (authority : Option Text) (zone : Text) (flags : Flags) (addresses : List Text)
  | validateGenesis (file : Text)
  | importGenesis (file : Text)
  | exportGenesis (out : Option Text) (format : Text)
  | migrate (file zone : Text)
  deriving DecidableEq, Repr

/-- The message of a kind with these particulars, as far as the kind has them. -/
def MessageKind.message (k : MessageKind) (authority zone : Text) (flags : Flags) (addresses : List Text) : Message :=
  match k with
  | .addZone => .addZone ⟨flags, authority, zone, addresses⟩
  | .modifyZone => .modifyZone ⟨flags, authority, zone, addresses⟩
  | .removeZone => .removeZone ⟨authority, zone⟩
  | .addAddresses => .addAddresses ⟨authority, zone, addresses⟩
  | .removeAddresses => .removeAddresses ⟨authority, zone, addresses⟩

/-- A command and the options that all commands share. -/
structure Invocation where
  command : Command
  config : Option Text := none
  database : Option Text := none
  json : Bool := false
  verbose : Bool := false
  deriving DecidableEq, Repr

inductive Request where
  | version
  | help
  | run (i : Invocation)
  deriving DecidableEq, Repr

end ExemptZones

import ExemptZones.Console.Terminal
import ExemptZones.Failure
import ExemptZones.Json.Writer

/-
What is said of failures: a line for a reader, or an object for a program.
-/

namespace ExemptZones

namespace Shape

def FaultKind.describe : FaultKind → String
  | .notObject => "an object is expected"
  | .missing => "a field is missing"
  | .unknownField => "there is no such field"
  | .keyNotText => "a key must be a text"
  | .notText => "a text is expected"
  | .unencodableText => "the text has no encoded form"
  | .emptyText => "the text must not be empty"
  | .notList => "a list is expected"
  | .notFlag => "true or false is expected"
  | .notFlagWord => "the value does not stand for true or false"
  | .notInteger => "an integer is expected"
  | .notIntegerText => "the text is no integer"
  | .integerTooLarge => "the integer is too large"
  | .fraction => "the number has a fraction"
  | .notFinite => "the number is not finite"
  | .negative => "the number must not be negative"
  | .notBytes => "bytes are expected"
  | .notJson => "the text is no JSON"

def Step.describe : Step → String
  | .field name => name
  | .item i => toString i

def Fault.describe (f : Fault) : String :=
  ".".intercalate (f.path.map Step.describe) ++ " (" ++ f.kind.describe ++ ")"

end Shape

def ScalarKind.describe : ScalarKind → String
  | .flag => "a flag"
  | .integer => "an integer"
  | .float => "a number"
  | .date => "a date"
  | .day => "a day of the calendar"

namespace Failure

def describe : Failure → Text
  | .registry c => c.report.line
  | .misshapen title faults => title ++ " does not fit: " ++ "; ".intercalate (faults.map Shape.Fault.describe)
  | .notUtf8 => "the file is not UTF-8"
  | .notJson => "the file is no JSON"
  | .notYaml detail => "the file is no YAML: " ++ detail
  | .badScalar k => "a value in the file is not " ++ k.describe
  | .missingFile path => "there is no file " ++ path
  | .isDirectory path => path ++ " is a directory"
  | .zeroByte => "a path has a zero byte in it"
  | .unencodable => "a text has no encoded form"
  | .locked => "the database is locked"
  | .disconnected => "the database is gone"
  | .closed => "the store is closed"
  | .abandoned => "the work was given up"
  | .strayMark => "a closing mark closes nothing"

/-- What a failure other than the registry's own is announced by. -/
def label : Failure → String
  | .registry c => c.kind.label
  | .misshapen _ _ => "ValidationError"
  | .notUtf8 => "EncodingError"
  | .notJson => "JSONDecodeError"
  | .notYaml _ => "YAMLError"
  | .badScalar _ | .zeroByte => "ValueError"
  | .missingFile _ | .isDirectory _ => "FileError"
  | .unencodable => "UnicodeEncodeError"
  | .locked | .disconnected | .closed => "StoreError"
  | .abandoned => "Abort"
  | .strayMark => "MarkupError"

def toNamed : Failure → Named
  | .registry c => c.report.toNamed
  | f => [("error_type", .text f.label), ("message", .ofText f.describe)]

/-- The failure as an object. -/
def toJson (f : Failure) : String :=
  Json.write .prettyAscii (.object (("error", .bool true) :: f.toNamed))

/-- The failure in a message that begins with a heading. -/
def toMarkup (t : Terminal) (heading : String) (f : Failure) : Text :=
  "[red]" ++ heading ++ ": " ++ t.escape f.describe ++ "[/red]"

end Failure

end ExemptZones

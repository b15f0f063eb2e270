import ExemptZones.Failure

/-
What can be wrong with a document.
-/

namespace ExemptZones.Yaml

inductive Fault where
  /-- A character that no document may hold. -/
  | unprintable
  /-- No token begins with this character. -/
  | noToken
  /-- What has to be a key is not followed by a colon. -/
  | keyWithoutColon
  | entryNotAllowed
  | keyNotAllowed
  | valueNotAllowed
  | badDirective
  | badName
  | badTag
  | badHeader
  | unfinished
  | separatorInside
  | badEscape
  /-- A code that is no character. -/
  | noCharacter
  | unexpected
  | undefinedHandle
  | undefinedAlias
  | duplicateAnchor
  | secondDocument
  | unknownTag
  | wrongKind
  | unfitKey
  | unfitMerge
  | badBytes
  /-- A scalar is not of the kind that it claims. -/
  | scalar (k : ScalarKind)
  deriving DecidableEq, Repr

def Fault.detail : Fault → String
  | .unprintable => "special characters are not allowed"
  | .noToken => "found a character that cannot start any token"
  | .keyWithoutColon => "could not find a colon after a key"
  | .entryNotAllowed => "sequence entries are not allowed here"
  | .keyNotAllowed => "mapping keys are not allowed here"
  | .valueNotAllowed => "mapping values are not allowed here"
  | .badDirective => "found a directive that cannot be read"
  | .badName => "expected a name"
  | .badTag => "found a tag that cannot be read"
  | .badHeader => "found a block scalar header that cannot be read"
  | .unfinished => "found unexpected end of document"
  | .separatorInside => "found a document separator inside a quoted scalar"
  | .badEscape => "found an unknown escape"
  | .noCharacter => "found a code that is no character"
  | .unexpected => "found a token that was not expected"
  | .undefinedHandle => "found an undefined tag handle"
  | .undefinedAlias => "found an undefined alias"
  | .duplicateAnchor => "found a duplicate anchor"
  | .secondDocument => "expected a single document"
  | .unknownTag => "could not determine what a tag stands for"
  | .wrongKind => "found a node of the wrong kind"
  | .unfitKey => "found a key that cannot be one"
  | .unfitMerge => "expected a mapping or a list of mappings for merging"
  | .badBytes => "failed to decode base64 data"
  | .scalar _ => "found a scalar that is not of its kind"

/-- What a fault is to the reader of the document. -/
def Fault.failure : Fault → Failure
  | .scalar k => .badScalar k
  | .noCharacter => .badScalar .integer
  | f => .notYaml f.detail

end ExemptZones.Yaml

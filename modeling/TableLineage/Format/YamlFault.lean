/-! What can be wrong with a YAML text, and how that is told. -/
namespace TableLineage.Yaml

inductive Problem where
  | controlCharacter
  | noToken
  | keyWithoutColon
  | entryNotAllowed
  | keyNotAllowed
  | valueNotAllowed
  | tabInIndent
  | markInQuotes
  | endInQuotes
  | unknownEscape
  | noHexNumber
  | noCharacter
  | zeroIndent
  | noLineEnd
  | tabForSpace
  | noAnchorName
  | tooDeep
  | noDirectiveName
  | oddDirectiveName
  | unknownDirective
  | noVersionNumber
  | longVersionNumber
  | noVersionPoint
  | noBlank
  | noBlankOrLineEnd
  | noTagMark
  | noTagAddress
  | noTagEnd
  | noEscapedByte
  | wrongLeadByte
  | wrongTailByte
  | noNode
  | noDash
  | noKey
  | noSequenceEnd
  | noMappingEnd
  | noDocumentStart
  | secondVersion
  | otherVersion
  | secondHandle
  | unknownHandle
  | unknownAnchor (name : String)
  | selfReference (name : String)
  | tooManyReferences
  | wrongTag (found text wanted : String)
  | noBase64
  | noMergedMapping
  | collectionKey (literal : String)
  | unhashableKey (kind : String)
  deriving DecidableEq, Repr

def Problem.text : Problem → String
  | .controlCharacter => "control characters are not allowed"
  | .noToken => "found character that cannot start any token"
  | .keyWithoutColon => "could not find expected ':'"
  | .entryNotAllowed => "block sequence entries are not allowed in this context"
  | .keyNotAllowed => "mapping keys are not allowed in this context"
  | .valueNotAllowed => "mapping values are not allowed in this context"
  | .tabInIndent => "found a tab character that violates indentation"
  | .markInQuotes => "found unexpected document indicator"
  | .endInQuotes => "found unexpected end of stream"
  | .unknownEscape => "found unknown escape character"
  | .noHexNumber => "did not find expected hexdecimal number"
  | .noCharacter => "found invalid Unicode character escape code"
  | .zeroIndent => "found an indentation indicator equal to 0"
  | .noLineEnd => "did not find expected comment or line break"
  | .tabForSpace => "found a tab character where an indentation space is expected"
  | .noAnchorName => "did not find expected alphabetic or numeric character"
  | .tooDeep => "exceeded max depth of 10000"
  | .noDirectiveName => "could not find expected directive name"
  | .oddDirectiveName => "found unexpected non-alphabetical character"
  | .unknownDirective => "found unknown directive name"
  | .noVersionNumber => "did not find expected version number"
  | .longVersionNumber => "found extremely long version number"
  | .noVersionPoint => "did not find expected digit or '.' character"
  | .noBlank => "did not find expected whitespace"
  | .noBlankOrLineEnd => "did not find expected whitespace or line break"
  | .noTagMark => "did not find expected '!'"
  | .noTagAddress => "did not find expected tag URI"
  | .noTagEnd => "did not find the expected '>'"
  | .noEscapedByte => "did not find URI escaped octet"
  | .wrongLeadByte => "found an incorrect leading UTF-8 octet"
  | .wrongTailByte => "found an incorrect trailing UTF-8 octet"
  | .noNode => "did not find expected node content"
  | .noDash => "did not find expected '-' indicator"
  | .noKey => "did not find expected key"
  | .noSequenceEnd => "did not find expected ',' or ']'"
  | .noMappingEnd => "did not find expected ',' or '\x7d'"
  | .noDocumentStart => "did not find expected <document start>"
  | .secondVersion => "found duplicate %YAML directive"
  | .otherVersion => "found incompatible YAML document"
  | .secondHandle => "found duplicate %TAG directive"
  | .unknownHandle => "found undefined tag handle"
  | .unknownAnchor name => "unknown anchor '" ++ name ++ "' referenced"
  | .selfReference name => "anchor '" ++ name ++ "' value contains itself"
  | .tooManyReferences => "document contains excessive aliasing"
  | .wrongTag found text wanted => "cannot decode " ++ found ++ " \x60" ++ text ++ "\x60 as a " ++ wanted
  | .noBase64 => "!!binary value contains invalid base64 data"
  | .noMergedMapping => "map merge requires map or sequence of maps as the value"
  | .collectionKey literal => "invalid map key: " ++ literal
  | .unhashableKey kind => "runtime error: hash of unhashable type " ++ kind

structure Fault where
  line : Option Nat
  problem : Problem
  deriving DecidableEq, Repr

namespace Fault

/-- A fault in a token that begins on line `start` and breaks off on line `stop`, both
from zero. The first of them that is not the first line of the text is named. -/
def inToken (start stop : Nat) (problem : Problem) : Fault :=
  ⟨if start ≠ 0 then some (start + 1) else if stop ≠ 0 then some (stop + 1) else none, problem⟩

/-- A fault in the order of the tokens; the line that is named is the one before. -/
def inOrder (start stop : Nat) (problem : Problem) : Fault :=
  ⟨if start ≠ 0 then some start else if stop ≠ 0 then some stop else none, problem⟩

def anywhere (problem : Problem) : Fault := ⟨none, problem⟩

def text (f : Fault) : String :=
  match f.line with
  | some n => "line " ++ toString n ++ ": " ++ f.problem.text
  | none => f.problem.text

end Fault
end TableLineage.Yaml

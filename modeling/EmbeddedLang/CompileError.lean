import EmbeddedLang.Position

/-!
Everything that can go wrong between a source text and its compiled form.
-/

namespace EmbeddedLang

inductive ErrorCategory where
  | lexical
  | syntactic
  | resolution
  | dialect
  | cache
deriving DecidableEq

inductive CompileError where
  | unterminatedLiteral (position : Position)
  | unterminatedComment (position : Position)
  | unexpectedCharacter (character : Char) (position : Position)
  | unexpectedToken (position : Position) (expected : List String) (found : String)
  | unbalancedBlock (position : Position) (expectedCloser found : String)
  | invalidConstruct (position : Position) (reason : String)
  | unknownEntity (name : String) (position : Position)
  | unknownColumn (table name : String) (position : Position)
  | ambiguousColumn (name : String) (candidates : List String) (position : Position)
  | noRelationship (source target : String) (position : Position)
  | unknownDirective (name : String) (position : Position)
  | unsupported (construct dialect : String) (position : Position)
  | abandoned (fingerprint : String)
deriving DecidableEq

namespace CompileError

def category : CompileError → ErrorCategory
  | unterminatedLiteral .. | unterminatedComment .. | unexpectedCharacter .. => .lexical
  | unexpectedToken .. | unbalancedBlock .. | invalidConstruct .. => .syntactic
  | unknownEntity .. | unknownColumn .. | ambiguousColumn .. | noRelationship ..
  | unknownDirective .. => .resolution
  | unsupported .. => .dialect
  | abandoned .. => .cache

/-- Only a compilation lost in flight has no place in a source. -/
def position? : CompileError → Option Position
  | unterminatedLiteral p | unterminatedComment p | unexpectedCharacter _ p
  | unexpectedToken p _ _ | unbalancedBlock p _ _ | invalidConstruct p _
  | unknownEntity _ p | unknownColumn _ _ p | ambiguousColumn _ _ p
  | noRelationship _ _ p | unknownDirective _ p | unsupported _ _ p => some p
  | abandoned _ => none

def message : CompileError → String
  | unterminatedLiteral p => "unterminated literal starting at " ++ p.describe
  | unterminatedComment p => "unterminated comment starting at " ++ p.describe
  | unexpectedCharacter c p =>
    "unexpected character '" ++ c.toString ++ "' at " ++ p.describe
  | unexpectedToken p expected found =>
    "syntax error at " ++ p.describe ++ ": expected " ++ " or ".intercalate expected
      ++ ", found " ++ found
  | unbalancedBlock p closer found =>
    "unbalanced block at " ++ p.describe ++ ": expected " ++ closer ++ ", found " ++ found
  | invalidConstruct p reason => "invalid construct at " ++ p.describe ++ ": " ++ reason
  | unknownEntity name p => "unknown entity '" ++ name ++ "' at " ++ p.describe
  | unknownColumn table name p =>
    "unknown column '" ++ name ++ "' on '" ++ table ++ "' at " ++ p.describe
  | ambiguousColumn name candidates p =>
    "ambiguous column '" ++ name ++ "' at " ++ p.describe ++ ": present on "
      ++ ", ".intercalate candidates
  | noRelationship source target p =>
    "no relationship between '" ++ source ++ "' and '" ++ target ++ "' at " ++ p.describe
  | unknownDirective name p => "unknown directive '" ++ name ++ "' at " ++ p.describe
  | unsupported construct dialect p =>
    "'" ++ construct ++ "' is not supported by dialect '" ++ dialect ++ "' (at "
      ++ p.describe ++ ")"
  | abandoned fingerprint =>
    "compilation for fingerprint " ++ fingerprint ++ " was abandoned"

end CompileError

end EmbeddedLang

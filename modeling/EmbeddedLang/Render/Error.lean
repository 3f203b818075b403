import EmbeddedLang.CompileError

/-!
What can go wrong while a template is rendered.
-/

namespace EmbeddedLang

inductive RenderError where
  | unknownFilter (name : String)
  | unknownTest (name : String)
  | unknownFunction (name : String)
  | unknownExtension (name : String)
  | templateNotFound (name : String)
  | compile (name : String) (error : CompileError)
  | type (reason : String)
  | divisionByZero
  | notCallable
  | missingArgument (name param : String)
  | recursionLimit (limit : Nat)
deriving DecidableEq

def RenderError.message : RenderError → String
  | unknownFilter name => "unknown filter '" ++ name ++ "'"
  | unknownTest name => "unknown test '" ++ name ++ "'"
  | unknownFunction name => "unknown function '" ++ name ++ "'"
  | unknownExtension name => "no handler registered for directive '" ++ name ++ "'"
  | templateNotFound name => "template '" ++ name ++ "' not found"
  | compile name error => "failed to compile template '" ++ name ++ "': " ++ error.message
  | type reason => "type error: " ++ reason
  | divisionByZero => "division by zero"
  | notCallable => "expression is not callable"
  | missingArgument name param =>
    "macro '" ++ name ++ "' called without argument '" ++ param ++ "'"
  | recursionLimit limit =>
    "nesting deeper than " ++ toString limit ++ " macro calls or includes"

end EmbeddedLang

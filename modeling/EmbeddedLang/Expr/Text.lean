import EmbeddedLang.Decimal.Layout
import EmbeddedLang.Expr.Basic

/-!
Literals as text for people: strings in quotes, numbers in full.
-/

namespace EmbeddedLang

def Literal.text : Literal → String
  | .null => "null"
  | .boolean b => if b then "true" else "false"
  | .integer n => toString n.toInt
  | .float x => Decimal.Layout.prose.text x
  | .string s => "'" ++ s ++ "'"

end EmbeddedLang

import EmbeddedLang.Parser.Expression

/-!
A small calculator language: the common expression forms under the simplest tables.
-/

namespace EmbeddedLang.Arithmetic

def table : LanguageTable where
  name := "arith"
  keywords := ["and", "or", "not", "null", "true", "false"]
  keywordCase := .sensitive
  operators := ["+", "-", "*", "/", "**", "(", ")", ",", ".", "[", "]", ":", "=="]
  quotes := ['\'', '"']
  escape := some '\\'
  lineComment := none
  blockComment := none
  bracketIdentifiers := false
  placeholders := false
  delimiters := none
  nullKeyword := "null"
  trueKeyword := "true"
  falseKeyword := "false"
  namedArguments := true
  distinctKeyword := none
  listLiterals := true
  subscripts := true
  callsOnExpressions := false

def binaryOps : List OperatorSpec := [
  ⟨["or"], .or, 1, .left⟩,
  ⟨["and"], .and, 2, .left⟩,
  ⟨["=="], .eq, 4, .left⟩,
  ⟨["+"], .add, 5, .left⟩,
  ⟨["-"], .sub, 5, .left⟩,
  ⟨["*"], .mul, 6, .left⟩,
  ⟨["/"], .div, 6, .left⟩,
  ⟨["**"], .pow, 8, .right⟩]

def prefixOps : List PrefixSpec := [⟨"not", .not, 3⟩, ⟨"-", .neg, 7⟩]

def grammar : Grammar := ⟨table, binaryOps, prefixOps, noPrimaryForm, noInfixForm⟩

end EmbeddedLang.Arithmetic

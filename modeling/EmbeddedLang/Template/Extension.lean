import EmbeddedLang.Dictionary

/-!
Directives that a host adds to the template language.
-/

namespace EmbeddedLang.Template

/-- A block directive has a body, and an end directive after it. -/
inductive TagKind where
  | inline
  | block
deriving DecidableEq

def TagKind.name : TagKind → String
  | .inline => "inline"
  | .block => "block"

def TagKind.ofName? : String → Option TagKind
  | "inline" => some .inline
  | "block" => some .block
  | _ => none

abbrev ExtensionTable := Dictionary TagKind

/-- All names with their kinds in one text. -/
def signature (t : ExtensionTable) : String :=
  ",".intercalate (t.map fun (name, kind) => name ++ "=" ++ kind.name)

end EmbeddedLang.Template

/-!
Text made safe for the places that templates write it to.
-/

namespace EmbeddedLang.Text

def htmlChar (c : Char) : List Char :=
  match c with
  | '<' => ['&', 'l', 't', ';']
  | '>' => ['&', 'g', 't', ';']
  | '&' => ['&', 'a', 'm', 'p', ';']
  | '"' => ['&', 'q', 'u', 'o', 't', ';']
  | '\'' => ['&', '#', 'x', '2', '7', ';']
  | _ => [c]

/-- Writes a text behind another, character by character. -/
def appendHtml (out s : String) : String :=
  s.toList.foldl (fun out c => out ++ String.ofList (htmlChar c)) out

def escapeHtml (s : String) : String :=
  appendHtml "" s

theorem appendHtml_eq (out s : String) :
    appendHtml out s = out ++ String.ofList (s.toList.flatMap htmlChar) := by
  unfold appendHtml
  induction s.toList generalizing out with
  | nil => rw [List.flatMap_nil, String.ofList_nil, String.append_empty]; rfl
  | cons c rest ih =>
    rw [List.foldl_cons, ih, List.flatMap_cons, String.ofList_append, String.append_assoc]

theorem escapeHtml_eq (s : String) : escapeHtml s = String.ofList (s.toList.flatMap htmlChar) :=
  (appendHtml_eq "" s).trans String.empty_append

theorem appendHtml_eq_append (out s : String) : appendHtml out s = out ++ escapeHtml s := by
  rw [appendHtml_eq, escapeHtml_eq]

theorem escapeHtml_append (s t : String) : escapeHtml (s ++ t) = escapeHtml s ++ escapeHtml t := by
  simp only [escapeHtml_eq, String.toList_append, List.flatMap_append, String.ofList_append]

def scriptChar (c : Char) : List Char :=
  match c with
  | '"' => ['\\', '"']
  | '\'' => ['\\', '\'']
  | '\\' => ['\\', '\\']
  | '\n' => ['\\', 'n']
  | '\r' => ['\\', 'r']
  | '\t' => ['\\', 't']
  | _ => [c]

/-- For use inside a string literal of a script. -/
def escapeScript (s : String) : String :=
  String.ofList (s.toList.flatMap scriptChar)

/-- Characters that stand for themselves in an address. -/
def isUnreserved (c : Char) : Bool :=
  c.isAlphanum || c == '-' || c == '_' || c == '.' || c == '~'

def upperHexDigit (n : Nat) : Char :=
  (Nat.digitChar (n % 16)).toUpper

def percentByte (b : UInt8) : List Char :=
  ['%', upperHexDigit (b.toNat / 16), upperHexDigit b.toNat]

def urlChar (c : Char) : List Char :=
  if isUnreserved c then [c] else (String.utf8EncodeChar c).flatMap percentByte

def escapeUrl (s : String) : String :=
  String.ofList (s.toList.flatMap urlChar)

end EmbeddedLang.Text

import EmbeddedLang.Render.Arguments
import EmbeddedLang.Text.Alphanumeric
import EmbeddedLang.Text.Blank
import EmbeddedLang.Text.Escape
import EmbeddedLang.Text.LetterCase
import EmbeddedLang.Value.Order

/-!
The filters that every renderer has.
-/

namespace EmbeddedLang.Render

open Value

def needsString (filter : String) (f : List Char → List Char) : Filter := fun v _ =>
  match v with
  | string s => .ok (string (String.ofList (f s.toList)))
  | _ => .error (.type (filter ++ " filter requires a string, found " ++ v.typeName))

def array? (filter : String) (v : Value) : Except RenderError (List Value) :=
  match v with
  | array items => .ok items
  | _ => .error (.type (filter ++ " filter requires an array, found " ++ v.typeName))

/-- The displayed value as a text, changed. -/
def onText (f : String → String) : Filter := fun v _ =>
  .ok (string (f v.display))

def capitalize : List Char → List Char
  | [] => []
  | c :: rest => Text.upperChar c ++ Text.lower rest

/-- Letters that begin a word in upper case, all others in lower case. -/
def titleFrom (atStart : Bool) : List Char → List Char
  | [] => []
  | c :: rest =>
    (if atStart then Text.upperChar c else Text.lowerChar c)
      ++ titleFrom (!Text.isAlphanumeric c) rest

def length : Filter := fun v _ =>
  match v.length? with
  | some n => .ok (ofNat n)
  | none => .error (.type (v.typeName ++ " has no length"))

def default : Filter := fun v args =>
  .ok (if v.isTruthy then v else (args.get? 0 "value").getD null)

def join : Filter := fun v args => do
  let items ← array? "join" v
  let separator := ((args.get? 0 "separator").map display).getD ""
  return string (separator.intercalate (items.map display))

def characterOrNull (c : Option Char) : Value :=
  (c.map fun c => string c.toString).getD null

def first : Filter := fun v _ =>
  match v with
  | string s => .ok (characterOrNull s.toList.head?)
  | _ => return (← array? "first" v).head?.getD null

def last : Filter := fun v _ =>
  match v with
  | string s => .ok (characterOrNull s.toList.getLast?)
  | _ => return (← array? "last" v).getLast?.getD null

def keys : Filter := fun v _ =>
  match v with
  | object fields => .ok (array ((Dictionary.keys fields).map string))
  | array items => .ok (array ((List.range items.length).map ofNat))
  | _ => .error (.type ("keys filter requires an array or object, found " ++ v.typeName))

def sort : Filter := fun v _ => do
  return array (sortList (← array? "sort" v))

def reverse : Filter := fun v _ =>
  match v with
  | string s => .ok (string (String.ofList s.toList.reverse))
  | _ => return array (← array? "reverse" v).reverse

/-- The least signed integer has no opposite among them, and becomes a float. -/
def abs : Filter := fun v _ =>
  match v.signed?, v with
  | some n, _ => .ok (if fitsSigned n.natAbs then ofNat n.natAbs else ofFloat (Float.ofInt n).abs)
  | none, number n => .ok (ofFloat n.toFloat.abs)
  | none, _ => .error (.type ("abs filter requires a number, found " ++ v.typeName))

def breakLine (c : Char) : List Char :=
  if c = '\n' then "<br />\n".toList else [c]

def lineBreaks (s : String) : String :=
  String.ofList ((Text.escapeHtml s).toList.flatMap breakLine)

def filters : Dictionary Filter :=
  Dictionary.ofList [
    ("e", onText Text.escapeHtml),
    ("escape", onText Text.escapeHtml),
    ("escape_js", onText Text.escapeScript),
    ("url_encode", onText Text.escapeUrl),
    ("raw", fun v _ => .ok v),
    ("upper", needsString "upper" Text.upper),
    ("lower", needsString "lower" Text.lower),
    ("capitalize", needsString "capitalize" capitalize),
    ("title", needsString "title" (titleFrom true)),
    ("trim", needsString "trim" Text.trim),
    ("left_trim", needsString "left_trim" Text.trimStart),
    ("right_trim", needsString "right_trim" Text.trimEnd),
    ("length", length),
    ("default", default),
    ("join", join),
    ("first", first),
    ("last", last),
    ("keys", keys),
    ("sort", sort),
    ("reverse", reverse),
    ("abs", abs),
    ("json_encode", fun v _ => .ok (string v.toJson)),
    ("nl2br", onText lineBreaks)]

end EmbeddedLang.Render

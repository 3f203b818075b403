import EmbeddedLang.Settings.Basic
import EmbeddedLang.Toml.Document

/-!
Settings in TOML.

Every section and every key may be missing. What is not known is passed over.
-/

namespace EmbeddedLang.Settings

open Toml (Entries)

/-- The value of a key, or what holds without it. -/
def valueAt {α : Type} (t : Entries) (name : String) (read : Toml.Item → Option α) (standard : α) :
    Option α :=
  match Dictionary.get? name t with
  | some item => read item
  | none => some standard

/-- The keys of a section. An array gives their values in the order of their names here. -/
def sectionAt? (t : Entries) (name : String) (keys : List String) : Option Entries :=
  match Dictionary.get? name t with
  | none => some []
  | some (.table _ entries) => some entries
  | some (.array items) => some (Dictionary.ofList (keys.zip items))
  | some _ => none

/-- A kind by its name, or as a table in which its name stands alone. -/
def kind? : Toml.Item → Option Template.TagKind
  | .text name => Template.TagKind.ofName? name
  | .table _ [(name, .table _ [])] => Template.TagKind.ofName? name
  | .table _ [(name, .array [])] => Template.TagKind.ofName? name
  | _ => none

def extensions? : Toml.Item → Option Template.ExtensionTable
  | .table _ entries => entries.mapM fun (name, item) => (kind? item).map (name, ·)
  | _ => none

/-- Counts are of 64 bits. -/
def count? (item : Toml.Item) : Option (Option Nat) :=
  (item.natural? (Nat.pow 2 64)).map some

def ofEntries? (t : Entries) : Option Settings := do
  let query ← sectionAt? t "query" ["dialect"]
  let template ← sectionAt? t "template" ["autoescape", "extensions"]
  let cache ← sectionAt? t "cache" ["enabled", "capacity", "ttl_seconds"]
  return {
    dialect := ← valueAt query "dialect" Toml.Item.text? "generic"
    template := {
      extensions := ← valueAt template "extensions" extensions? []
      autoescape := ← valueAt template "autoescape" Toml.Item.boolean? true }
    cache := {
      enabled := ← valueAt cache "enabled" Toml.Item.boolean? true
      capacity := ← valueAt cache "capacity" count? none
      ttlSeconds := ← valueAt cache "ttl_seconds" count? none } }

def ofToml (document : String) : Except SettingsError Settings :=
  match (Toml.parse? document).bind ofEntries? with
  | none => .error .malformed
  | some s => s.validate.map fun _ => s

/-- Settings from what a file holds, if it can be read. -/
def ofFile (contents : Option String) : Except SettingsError Settings :=
  match contents with
  | some document => ofToml document
  | none => .error .unreadable

end EmbeddedLang.Settings

import DirectorySearch.Settings.Basic
import DirectorySearch.Yaml.Node

/-!
Settings written in YAML.

The document and its sections are mappings, or left out. Names that are not known are passed over, and
a known one may come only once. Text is taken from any scalar as it is written, a flag only from a
plain one.
-/

namespace DirectorySearch.Settings

open Yaml (Node)

def scalarText? : Node → Option String
  | .scalar _ text => some text
  | _ => none

def plainFlag? : Node → Option Bool
  | .scalar true text =>
    match text with
    | "true" | "True" | "TRUE" => some true
    | "false" | "False" | "FALSE" => some false
    | _ => none
  | _ => none

/-- The pairs of a section, which may be left out. -/
def pairs? : Node → Option (List (String × Node))
  | .mapping pairs => pairs.mapM fun (key, value) => (scalarText? key).map (·, value)
  | n => if n == .empty then some [] else none

/-- Sets each known name once. -/
def readSection {α : Type} (known : String → Option (α → Node → Option α)) :
    List (String × Node) → List String → α → Option α
  | [], _, a => some a
  | (name, value) :: rest, seen, a =>
    match known name with
    | none => readSection known rest seen a
    | some set =>
      if seen.contains name then none
      else do readSection known rest (name :: seen) (← set a value)

def searchField : String → Option (SearchSettings → Node → Option SearchSettings)
  | "default_scope" => some fun s n => do
    return { s with scope := ← SearchScope.names.lookup (← scalarText? n) }
  | "unsearchable_columns" => some fun s n => do
    return { s with unsearchable := ← UnsearchablePolicy.names.lookup (← scalarText? n) }
  | "restrict_to_object_class" => some fun s n => do
    return { s with restrictToObjectClass := ← plainFlag? n }
  | _ => none

def logField : String → Option (LogSettings → Node → Option LogSettings)
  | "level" => some fun s n => do return { s with level := ← scalarText? n }
  | "format" => some fun s n => do return { s with format := ← LogFormat.ofName? (← scalarText? n) }
  | "output" => some fun s n => do return { s with output := ← LogOutput.ofName? (← scalarText? n) }
  | "directory" => some fun s n => do return { s with directory := ← scalarText? n }
  | _ => none

def field : String → Option (Settings → Node → Option Settings)
  | "translator" => some fun s n => do
    return { s with search := ← readSection searchField (← pairs? n) [] {} }
  | "logging" => some fun s n => do
    return { s with logging := ← readSection logField (← pairs? n) [] {} }
  | _ => none

/-- Reads settings. A blank text leaves everything as it is by default. -/
def ofText? (text : String) : Option Settings :=
  if Text.isBlankText text then some {}
  else do readSection field (← pairs? (← Node.ofText? text)) [] {}

end DirectorySearch.Settings

/-
Settings from JSON: an object with the settings as fields, or an array of them
in a fixed order. What is left out has its default; a setting of another type
is refused.
-/
import Highlight.Config
import Highlight.Json

namespace Highlight

/-- An appearance is its name, or an object of one field with that name and no value. -/
def Appearance.ofJson? : Json → Option Appearance
  | .text name => ofName? name
  | .object [(name, .null)] => ofName? name
  | _ => none

namespace Config

def text? : Json → Option String
  | .text s => some s
  | _ => none

def bool? : Json → Option Bool
  | .bool b => some b
  | _ => none

/-- The settings with one field read from a value. Unknown fields change nothing. -/
def setField? (c : Config) (name : String) (v : Json) : Option Config :=
  match name with
  | "theme" => (text? v).map fun theme => { c with theme }
  | "appearance" => (Appearance.ofJson? v).map fun appearance => { c with appearance }
  | "fallback_language" => (text? v).map fun fallbackLanguage => { c with fallbackLanguage }
  | "trace" => (bool? v).map fun trace => { c with trace }
  | _ => some c

/-- The names of the fields, in the order of the array form. -/
def fieldNames : List String := ["theme", "appearance", "fallback_language", "trace"]

def ofJson? : Json → Option Config
  | .object fields => fields.foldlM (fun c (name, v) => setField? c name v) {}
  | .array items =>
    if items.length ≤ fieldNames.length then (fieldNames.zip items).foldlM (fun c (name, v) => setField? c name v) {}
    else none
  | _ => none

end Config

end Highlight

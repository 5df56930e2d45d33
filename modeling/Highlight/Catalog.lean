/-
Catalogues: registered languages and stylesheets. `Catalog.find?` looks a
language up by scope, extension or name; `Catalog.backend` loads from the
catalogue.
-/
import Highlight.Language.Contexts
import Highlight.Stylesheet

namespace Highlight

/-- A registered language, parsed with a state of type `π`. -/
structure RegisteredLanguage (π : Type) where
  name : String
  scope : Scope
  extensions : List String
  parser : LineParser π

/-- What is listed of a language. -/
structure Listing where
  name : String
  scope : String
  extensions : List String
  deriving DecidableEq, Repr

/-- Languages in the order of their registration, and stylesheets by name. -/
structure Catalog (π : Type) where
  languages : List (RegisteredLanguage π) := []
  stylesheets : List (String × Stylesheet) := []

namespace Catalog

def equalIgnoringCase (s t : String) : Bool := Text.lowerAscii s == Text.lowerAscii t

/-- The language that was registered last of those that satisfy `p`. -/
def last? (c : Catalog π) (p : RegisteredLanguage π → Bool) : Option (RegisteredLanguage π) := c.languages.reverse.find? p

/-- The language with a scope, if the text names one, else with an extension, else with a name.
Case does not count in the last two. -/
def find? (c : Catalog π) (id : String) : Option (RegisteredLanguage π) :=
  let id := Text.trim id
  if id.isEmpty then none
  else
    let byScope := match Scope.parse id with
      | .ok scope => c.last? (·.scope = scope)
      | .error _ => none
    byScope
      <|> c.last? (·.extensions.any (equalIgnoringCase · id))
      <|> c.last? (equalIgnoringCase ·.name id)

/-- The names of the stylesheets, sorted. -/
def themeNames (c : Catalog π) : List String := (c.stylesheets.map (·.1)).mergeSort (· ≤ ·)

/-- The languages sorted by name; those of one name stay in the order of their registration. -/
def listing (c : Catalog π) : List Listing :=
  (c.languages.map fun e => ⟨e.name, e.scope.name, e.extensions⟩).mergeSort (·.name ≤ ·.name)

def theme? (c : Catalog π) (name : String) : Option Theme :=
  (c.stylesheets.lookup name).map (·.theme name)

def grammar? (c : Catalog π) (id : String) : Option (Grammar (π × ScopeStack)) :=
  (c.find? id).map fun e => e.parser.grammar e.scope.name

/-- Loads from the catalogue. -/
def backend (c : Catalog π) : Backend Unit (π × ScopeStack) where
  loadTheme name s :=
    match c.theme? name with
    | some theme => (.ok theme, s)
    | none => (.error (.error (.unknownTheme name)), s)
  loadGrammar id s := (.ok (c.grammar? id), s)

end Catalog

/-- A language definition as it is registered. -/
def Language.Definition.registered (d : Language.Definition) : RegisteredLanguage Language.Contexts where
  name := d.name
  scope := d.scope
  extensions := d.extensions
  parser := d.parser

end Highlight

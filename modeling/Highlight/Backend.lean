/-
The collaborators of a renderer. A `Grammar` cuts lines into scoped tokens and
carries a state from line to line; a `Theme` gives rules for scope names and
texts for colours; a `Backend` loads both by name. A backend has a state of its
own, so it may answer differently from load to load; `Session` records what has
been asked of it.
-/
import Highlight.Error
import Highlight.Style
import Highlight.Event

namespace Highlight

/-- A run of bytes of a line with the names of its scopes, outermost first. Nothing is promised
of the offsets: they may be reversed, overlap, or lie outside the line. -/
structure Token where
  start : Nat
  stop : Nat
  scopes : List String
  deriving DecidableEq, Repr

/-- How long a grammar may work on one line. -/
inductive Budget where
  | unbounded
  | limited (milliseconds : Nat)
  deriving DecidableEq, Repr

/-- A grammar whose state between lines is of type `σ`. -/
structure Grammar (σ : Type) where
  scope : String
  start : σ
  tokenize : Budget → String → σ → Except RenderError (List Token × σ)

structure Theme where
  name : String
  /-- The rules that match a token with these scope names, the strongest first. -/
  rulesFor : List String → List Rule
  colorText : ColorRef → Option String

def Theme.styleOf (theme : Theme) (scopes : List String) : Style := .fold (theme.rulesFor scopes)

/-- Loads themes and grammars by name. A grammar may be unregistered, which is no failure. -/
structure Backend (β σ : Type) where
  loadTheme : String → β → Except Failure Theme × β
  loadGrammar : String → β → Except Failure (Option (Grammar σ)) × β

/-- The answer to a load depends on the name alone. -/
structure Backend.Stable (backend : Backend β σ) : Prop where
  theme (id : String) (s t : β) : (backend.loadTheme id s).1 = (backend.loadTheme id t).1
  grammar (id : String) (s t : β) : (backend.loadGrammar id s).1 = (backend.loadGrammar id t).1

/-- A load asked of a backend. -/
inductive Load where
  | theme (id : String)
  | grammar (id : String)
  deriving DecidableEq, Repr

/-- A backend in use: its state, the loads asked of it and the events logged, both in order. -/
structure Session (β : Type) where
  state : β
  loads : List Load := []
  events : List Event := []

namespace Session

def log (s : Session β) (e : Event) : Session β := { s with events := s.events ++ [e] }

def loadTheme (s : Session β) (backend : Backend β σ) (id : String) : Except Failure Theme × Session β :=
  let (answer, state) := backend.loadTheme id s.state
  (answer, { s with state, loads := s.loads ++ [.theme id] })

def loadGrammar (s : Session β) (backend : Backend β σ) (id : String) :
    Except Failure (Option (Grammar σ)) × Session β :=
  let (answer, state) := backend.loadGrammar id s.state
  (answer, { s with state, loads := s.loads ++ [.grammar id] })

end Session

end Highlight

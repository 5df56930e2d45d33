/-
Running a grammar over the lines of a text. `Lexing.next` takes the next line,
gives it to the grammar with the state that the line before left, and keeps the
state that comes back. The first failure ends the run.
-/
import Highlight.Backend
import Highlight.Text
import Highlight.Text.Bytes

namespace Highlight

/-- One line of a text with its tokens. -/
structure TokenLine where
  text : String
  tokens : List Token
  deriving DecidableEq, Repr

/-- What a grammar was given for one line. -/
structure Call (σ : Type) where
  line : String
  state : σ
  budget : Budget

/-- A run of a grammar over a text, as far as it has come. -/
structure Lexing (σ : Type) where
  grammar : Grammar σ
  /-- The lines not yet taken. -/
  rest : List String
  /-- The state that the next line starts from. -/
  state : σ
  /-- The number of lines tokenized. -/
  index : Nat := 0
  /-- Whether each tokenized line is logged. -/
  trace : Bool := false
  failed : Bool := false
  /-- The calls of the grammar so far, in order. -/
  calls : List (Call σ) := []
  /-- The events logged so far, in order. -/
  events : List Event := []

namespace Lexing

def start (grammar : Grammar σ) (text : String) (trace : Bool) : Lexing σ :=
  { grammar, rest := Text.Lines.split text, state := grammar.start, trace }

/-- The event of a line that was cut into tokens. -/
def lineEvent (lexing : Lexing σ) (line : String) (tokens : List Token) : Event :=
  .lineTokenized lexing.grammar.scope lexing.index (Text.Bytes.size line.toList) tokens.length

/-- The next line with its tokens, an error, or nothing once the lines are used up or one failed. -/
def next (lexing : Lexing σ) : Option (Except RenderError TokenLine) × Lexing σ :=
  if lexing.failed then (none, lexing)
  else match lexing.rest with
    | [] => (none, lexing)
    | line :: rest =>
      let calls := lexing.calls ++ [⟨line, lexing.state, .unbounded⟩]
      match lexing.grammar.tokenize .unbounded line lexing.state with
      | .error e => (some (.error e), { lexing with rest, calls, failed := true })
      | .ok (tokens, state) =>
        let events := if lexing.trace then lexing.events ++ [lexing.lineEvent line tokens] else lexing.events
        (some (.ok ⟨line, tokens⟩), { lexing with rest, calls, events, state, index := lexing.index + 1 })

/-- A step that yields something takes one line. -/
theorem length_rest_of_next {lexing after : Lexing σ} {result : Except RenderError TokenLine}
    (h : lexing.next = (some result, after)) : after.rest.length + 1 = lexing.rest.length := by
  unfold next at h
  split at h
  · simp at h
  · split at h
    · simp at h
    · rename_i hrest
      dsimp only at h
      split at h <;> simp only [Prod.mk.injEq] at h <;> obtain ⟨-, rfl⟩ := h <;> simp [hrest]

end Lexing

end Highlight

/-
Grammars from line parsers. A `LineParser` reads a line and reports, with byte
offsets, how the stack of scopes changes along it. `LineParser.grammar` turns
the report into tokens: between two changes the text carries the names of the
scopes that hold there. The stack lives on from line to line.
-/
import Highlight.Backend
import Highlight.Scope.Stack
import Highlight.Text.Bytes

namespace Highlight

inductive LineParser.Error where
  /-- No context is left to go on with. -/
  | noContext
  /-- A context has no pattern of this number. -/
  | noPattern (index : Nat)
  deriving DecidableEq, Repr

def LineParser.Error.message : LineParser.Error → String
  | .noContext => "Somehow main context was popped from the stack"
  | .noPattern index => "Bad index to match_at: " ++ toString index

/-- Reads lines with a state of type `π`. -/
structure LineParser (π : Type) where
  start : π
  /-- The changes of the scopes along a line, each with its offset, and the state after the line. -/
  parse : String → π → Except LineParser.Error (List (Nat × ScopeOp) × π)

namespace RenderError

/-- A line parser's error ends the work of its grammar. -/
def ofParser (e : LineParser.Error) : RenderError := .tokenizer e.message

def ofScopes (e : ScopeStack.NothingCleared) : RenderError := .tokenizer e.message

end RenderError

namespace LineParser

/-- Performs changes from left to right and cuts a line of `size` bytes where they happen. A line
without any cut is one token, even if it is empty. -/
def cut (size : Nat) :
    List (Nat × ScopeOp) → Nat → ScopeStack → Except ScopeStack.NothingCleared (List Token × ScopeStack)
  | [], cursor, stack =>
    .ok (if cursor < size ∨ cursor = 0 then [⟨cursor, size, stack.names⟩] else [], stack)
  | (offset, op) :: ops, cursor, stack =>
    match stack.apply op with
    | .error e => .error e
    | .ok next =>
      match cut size ops (max cursor offset) next with
      | .error e => .error e
      | .ok (tokens, last) =>
        .ok (if cursor < offset then ⟨cursor, offset, stack.names⟩ :: tokens else tokens, last)

/-- The grammar of a line parser. Its state is the parser's and the stack of scopes. -/
def grammar (parser : LineParser π) (scope : String) : Grammar (π × ScopeStack) where
  scope
  start := (parser.start, {})
  tokenize _ line state :=
    match parser.parse line state.1 with
    | .error e => .error (.ofParser e)
    | .ok (ops, next) =>
      match cut (Text.Bytes.size line.toList) ops 0 state.2 with
      | .error e => .error (.ofScopes e)
      | .ok (tokens, stack) => .ok (tokens, (next, stack))

end LineParser

end Highlight

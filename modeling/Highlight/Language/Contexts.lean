/-
Parsing lines by a language definition. In every place the rules of the
innermost context are searched for; the match that starts first wins, and of
those that start together the rule that comes first. A rule that takes nothing
may enter a context, but a rule that then leaves it again without taking
anything is passed over with the next character, so that the parser moves on.
-/
import Highlight.Language.Definition
import Highlight.LineParser

namespace Highlight.Language

/-- The open contexts, the innermost first, and whether no line has been read yet. -/
structure Contexts where
  stack : List Context
  fresh : Bool := true
  deriving DecidableEq, Repr, Inhabited

namespace Contexts

/-- A rule can enter contexts only below this depth. -/
def maxDepth : Nat := 100

/-- A rule that matches, and the places where the match starts and ends. -/
structure Candidate where
  rule : Rule
  start : Spot
  stop : Spot
  /-- The rule would leave a context that was entered here, with nothing taken since. -/
  loops : Bool
  deriving DecidableEq, Repr

/-- The best match of the rules at or after `here`. A rule without effect counts only if it takes
something. -/
def best (here : Spot) (depth : Nat) (entered : Bool) : List Rule → Option Candidate → Option Candidate
  | [], found => found
  | rule :: rules, found =>
    match rule.pattern.search here with
    | none => best here depth entered rules found
    | some (start, stop) =>
      if (rule.move = .stay ∧ start.offset = stop.offset) ∨ (rule.move.isPush ∧ maxDepth ≤ depth) then
        best here depth entered rules found
      else
        let better := match found with
          | none => true
          | some f => start.offset < f.start.offset || (start.offset == f.start.offset && f.loops)
        if better then
          let loops := entered && stop.offset ≤ here.offset && rule.move = .pop
          let candidate := ⟨rule, start, stop, loops⟩
          if start.offset = here.offset ∧ loops = false then some candidate
          else best here depth entered rules (some candidate)
        else best here depth entered rules found

def pushes (offset : Nat) (scopes : List Scope) : List (Nat × ScopeOp) := scopes.map fun s => (offset, .push s)

/-- Removes `count` scopes, if any. -/
def pops (offset count : Nat) : List (Nat × ScopeOp) := if count = 0 then [] else [(offset, .pop count)]

/-- The scope changes of a match whose rule leads from `context` to `targets`. -/
def changes (context : Context) (targets : List Context) (m : Candidate) : List (Nat × ScopeOp) :=
  let start := m.start.offset
  let stop := m.stop.offset
  let before := match m.rule.move with
    | .stay => []
    | .pop => pops start context.contentScopes.length
    | .push _ | .set _ => targets.flatMap fun t => pushes start t.metaScopes
  let enter (leaving : Nat) :=
    pops stop ((targets.flatMap Context.metaScopes).length + leaving)
      ++ targets.flatMap fun t => pushes stop t.metaScopes ++ pushes stop t.contentScopes
  let inner := targets.any fun t => !t.contentScopes.isEmpty
  let after := match m.rule.move with
    | .stay => []
    | .pop => pops stop context.metaScopes.length
    | .push _ => if inner then enter 0 else []
    | .set _ =>
      let leaving := context.metaScopes.length + context.contentScopes.length
      if inner || leaving != 0 then enter leaving else []
  before ++ pushes start m.rule.scopes ++ pops stop m.rule.scopes.length ++ after

/-- The open contexts after a match. -/
def moved (targets : List Context) (stack : List Context) : Move → List Context
  | .stay => stack
  | .pop => stack.tail
  | .push _ => targets.reverse ++ stack
  | .set _ => targets.reverse ++ stack.tail

/-- The contexts that a rule leads to. -/
def targetsOf (d : Definition) : Move → List Context
  | .push names | .set names => names.map d.context
  | .stay | .pop => []

/-- The stack depth and the offset at which a context was last entered with nothing taken. -/
structure Entry where
  offset : Nat := 0
  depth : Nat := 0
  deriving DecidableEq, Repr

/-- Reads on from `here`, for at most `steps` matches. -/
def read (d : Definition) : Nat → Spot → List Context → Entry → List (Nat × ScopeOp) × List Context
  | 0, _, stack, _ => ([], stack)
  | _, _, [], _ => ([], [])
  | steps + 1, here, context :: outer, entry =>
    let stack := context :: outer
    let entered := entry = ⟨here.offset, stack.length⟩
    match best here stack.length entered context.rules none with
    | none => ([], stack)
    | some m =>
      if m.loops then
        match here.rest with
        | c :: next :: rest => read d steps ⟨here.offset + c.utf8Size, some c, next :: rest⟩ stack entry
        | _ => ([], stack)
      else
        let entry :=
          if m.stop.offset ≤ here.offset ∧ m.rule.move.isPush then ⟨m.stop.offset, stack.length + 1⟩ else entry
        let targets := targetsOf d m.rule.move
        let (ops, last) := read d steps m.stop (moved targets stack m.rule.move) entry
        (changes context targets m ++ ops, last)

/-- More matches than a line of `length` characters can have. In each place contexts are entered up to
the depth limit, and each is replaced at most once by every other. -/
def bound (d : Definition) (length depth : Nat) : Nat :=
  (length + 2) * (2 * maxDepth + depth + 2) * (d.contexts.length + 2)

/-- Reads one line. The first line of a text begins in the scope of the language. -/
def parse (d : Definition) (line : String) (state : Contexts) :
    Except LineParser.Error (List (Nat × ScopeOp) × Contexts) :=
  if state.stack.isEmpty then .error .noContext
  else
    let opening := if state.fresh then pushes 0 [d.scope] else []
    let (ops, stack) := read d (bound d line.length state.stack.length) (.start line) state.stack {}
    .ok (opening ++ ops, { stack, fresh := false })

end Contexts

/-- The line parser of a language definition. -/
def Definition.parser (d : Definition) : LineParser Contexts where
  start := { stack := [d.root] }
  parse := Contexts.parse d

end Highlight.Language

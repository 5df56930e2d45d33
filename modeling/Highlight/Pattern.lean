/-
Patterns over characters, as the rules of a language definition use them:
literal characters, classes, repetition, alternatives, line ends and lookahead.
`Pattern.parse` reads the usual notation.
-/

namespace Highlight

inductive Pattern where
  /-- Matches the empty text. -/
  | empty
  /-- One character inside (or, if negated, outside) the given ranges. -/
  | oneOf (negated : Bool) (ranges : List (Char × Char))
  /-- One character other than a line feed. -/
  | any
  | seq (first second : Pattern)
  /-- The first pattern is preferred. -/
  | alt (first second : Pattern)
  /-- Any number of times, as often as possible. -/
  | star (body : Pattern)
  | lineStart
  | lineEnd
  /-- The text ahead matches, and none of it is taken. -/
  | ahead (body : Pattern)
  deriving DecidableEq, Repr, Inhabited

namespace Pattern

def char (c : Char) : Pattern := oneOf false [(c, c)]

def seqAll : List Pattern → Pattern
  | [] => empty
  | [p] => p
  | p :: ps => seq p (seqAll ps)

def altAll : List Pattern → Pattern
  | [] => empty
  | [p] => p
  | p :: ps => alt p (altAll ps)

/-- A character of a pattern's text. A quoted one stands for itself. -/
inductive Sign where
  | bare (c : Char)
  | quoted (c : Char)
  deriving DecidableEq, Repr

def Sign.char : Sign → Char
  | bare c | quoted c => c

/-- Takes backslashes away; each quotes the character after it. -/
def signs : List Char → List Sign
  | [] => []
  | '\\' :: c :: cs => .quoted c :: signs cs
  | c :: cs => .bare c :: signs cs

/-- A group that is open: its kind, the alternatives before the current one and the parts of the
current one, both the latest first. -/
structure Group where
  lookahead : Bool := false
  branches : List Pattern := []
  parts : List Pattern := []

namespace Group

def add (g : Group) (p : Pattern) : Group := { g with parts := p :: g.parts }

/-- Begins the next alternative. -/
def branch (g : Group) : Group :=
  { g with branches := seqAll g.parts.reverse :: g.branches, parts := [] }

def close (g : Group) : Pattern :=
  let body := altAll g.branch.branches.reverse
  if g.lookahead then ahead body else body

/-- Changes the last part, if there is one. -/
def repeated? (g : Group) (f : Pattern → Pattern) : Option Group :=
  match g.parts with
  | [] => none
  | p :: ps => some { g with parts := f p :: ps }

end Group

/-- Where the reader stands: outside of classes, or inside one with the ranges read so far. -/
inductive Place where
  | outside
  | inside (negated : Bool) (ranges : List (Char × Char))

/-- Reads on with the innermost open group and those around it. -/
def read : List Sign → Place → Group → List Group → Option Pattern
  | [], .outside, g, [] => some g.close
  | [], _, _, _ => none
  | .bare ']' :: rest, .inside negated ranges, g, outer =>
    read rest .outside (g.add (oneOf negated ranges.reverse)) outer
  | lo :: .bare '-' :: .bare ']' :: rest, .inside negated ranges, g, outer =>
    read (.bare ']' :: rest) (.inside negated (('-', '-') :: (lo.char, lo.char) :: ranges)) g outer
  | lo :: .bare '-' :: hi :: rest, .inside negated ranges, g, outer =>
    read rest (.inside negated ((lo.char, hi.char) :: ranges)) g outer
  | c :: rest, .inside negated ranges, g, outer =>
    read rest (.inside negated ((c.char, c.char) :: ranges)) g outer
  | .bare '[' :: .bare '^' :: rest, .outside, g, outer => read rest (.inside true []) g outer
  | .bare '[' :: rest, .outside, g, outer => read rest (.inside false []) g outer
  | .bare '(' :: .bare '?' :: .bare ':' :: rest, .outside, g, outer => read rest .outside {} (g :: outer)
  | .bare '(' :: .bare '?' :: .bare '=' :: rest, .outside, g, outer =>
    read rest .outside { lookahead := true } (g :: outer)
  | .bare '(' :: rest, .outside, g, outer => read rest .outside {} (g :: outer)
  | .bare ')' :: rest, .outside, g, outer =>
    match outer with
    | [] => none
    | around :: outer => read rest .outside (around.add g.close) outer
  | .bare '|' :: rest, .outside, g, outer => read rest .outside g.branch outer
  | .bare '*' :: rest, .outside, g, outer =>
    match g.repeated? star with
    | none => none
    | some g => read rest .outside g outer
  | .bare '+' :: rest, .outside, g, outer =>
    match g.repeated? fun p => seq p (star p) with
    | none => none
    | some g => read rest .outside g outer
  | .bare '?' :: rest, .outside, g, outer =>
    match g.repeated? fun p => alt p empty with
    | none => none
    | some g => read rest .outside g outer
  | .bare '^' :: rest, .outside, g, outer => read rest .outside (g.add lineStart) outer
  | .bare '$' :: rest, .outside, g, outer => read rest .outside (g.add lineEnd) outer
  | .bare '.' :: rest, .outside, g, outer => read rest .outside (g.add any) outer
  | c :: rest, .outside, g, outer => read rest .outside (g.add (char c.char)) outer

/-- The pattern that a text denotes, if it denotes one. -/
def parse (text : String) : Option Pattern := read (signs text.toList) .outside {} []

end Pattern

end Highlight

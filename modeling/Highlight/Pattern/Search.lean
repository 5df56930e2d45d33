/-
Matching patterns. `Pattern.search` finds the leftmost place at or after a
given one where a pattern matches, and the end of the match there that the
preferences of the pattern choose.
-/
import Highlight.Pattern

namespace Highlight

/-- A place in a line: the bytes and the character before it, and the characters after it. -/
structure Spot where
  offset : Nat := 0
  before : Option Char := none
  rest : List Char
  deriving DecidableEq, Repr

def Spot.start (line : String) : Spot := { rest := line.toList }

namespace Pattern

/-- Takes one character that satisfies `p`. -/
def take (p : Char → Bool) (s : Spot) : Option Spot :=
  match s.rest with
  | [] => none
  | c :: cs => if p c then some ⟨s.offset + c.utf8Size, some c, cs⟩ else none

/-- As many times as possible, then on with `k`. A turn that takes nothing is the last one. -/
def runStar (body : Spot → (Spot → Option α) → Option α) (s : Spot) (k : Spot → Option α) : Option α :=
  body s (fun t => if t.rest.length < s.rest.length then runStar body t k else k t) <|> k s
termination_by s.rest.length

/-- Matches at `s` and goes on with `k`. The ends of the match are tried in order of preference
until `k` accepts one. -/
def run : Pattern → Spot → (Spot → Option α) → Option α
  | empty, s, k => k s
  | oneOf negated ranges, s, k =>
    (take (fun c => (ranges.any fun (lo, hi) => lo ≤ c && c ≤ hi) != negated) s).bind k
  | any, s, k => (take (· != '\n') s).bind k
  | seq p q, s, k => p.run s fun t => q.run t k
  | alt p q, s, k => p.run s k <|> q.run s k
  | star p, s, k => runStar p.run s k
  | lineStart, s, k => if s.before.isNone || s.before == some '\n' then k s else none
  | lineEnd, s, k => if s.rest.isEmpty || s.rest.head? == some '\n' then k s else none
  | ahead p, s, k => if (p.run s some).isSome then k s else none

/-- The first match at or after a place: where it starts and where it ends. -/
def search (p : Pattern) (s : Spot) : Option (Spot × Spot) :=
  match p.run s some with
  | some stop => some (s, stop)
  | none =>
    match _h : s.rest with
    | [] => none
    | c :: cs => p.search ⟨s.offset + c.utf8Size, some c, cs⟩
termination_by s.rest.length
decreasing_by simp [_h]

end Pattern

end Highlight

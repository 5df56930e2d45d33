/-
The cache of grammar and theme pairs. `Cache.resolve` gives the pair for a
language and a theme: the one cached under exactly these two names, else a
newly loaded one. A language without a grammar of its own gets that of the
fallback language. Failures are not cached, and entries are never dropped.
-/
import Highlight.Backend
import Highlight.Document

namespace Highlight

namespace Cache

/-- The two names that a pair is cached under, compared exactly. -/
structure Key where
  language : String
  theme : String
  deriving DecidableEq, Repr

/-- A loaded pair. Its serial number is the number of pairs built before it. -/
structure Entry (σ : Type) where
  serial : Nat
  grammar : Grammar σ
  theme : Theme
  source : Source

/-- The place of one key. It is interrupted if a load panicked in it. -/
structure Slot (σ : Type) where
  entry : Option (Entry σ) := none
  interrupted : Bool := false

/-- The grammar of a language, else that of the fallback language. A language that is itself the
fallback is not tried twice. -/
def loadWithFallback (backend : Backend β σ) (language fallback : String) (s : Session β) :
    Except Failure (Grammar σ × Source) × Session β :=
  let useFallback (s : Session β) : Except Failure (Grammar σ × Source) × Session β :=
    if language = fallback then (.error (.error (.grammarUnavailable language fallback)), s)
    else match s.loadGrammar backend fallback with
      | (.ok (some grammar), s) => (.ok (grammar, .fallback), s)
      | (.ok none, s) => (.error (.error (.grammarUnavailable language fallback)), s)
      | (.error e, s) => (.error e, s)
  match s.loadGrammar backend language with
  | (.ok (some grammar), s) => (.ok (grammar, .requested), s)
  | (.ok none, s) => useFallback (s.log (.grammarUnregistered language fallback))
  | (.error (.error e), s) => useFallback (s.log (.grammarBroken language fallback e))
  | (.error .panic, s) => (.error .panic, s)

/-- Loads a pair, the theme before the grammar. -/
def build (backend : Backend β σ) (fallback : String) (key : Key) (s : Session β) :
    Except Failure (Theme × Grammar σ × Source) × Session β :=
  match s.loadTheme backend key.theme with
  | (.error e, s) => (.error e, s)
  | (.ok theme, s) =>
    match loadWithFallback backend key.language fallback s with
    | (.error e, s) => (.error e, s)
    | (.ok (grammar, source), s) => (.ok (theme, grammar, source), s)

end Cache

/-- The slots by their keys, and how many pairs have been built. -/
structure Cache (σ : Type) where
  fallback : String
  slots : List (Cache.Key × Cache.Slot σ) := []
  built : Nat := 0

namespace Cache

/-- The slot of a key; a new one if there is none. -/
def slot (c : Cache σ) (key : Key) : Slot σ := (c.slots.lookup key).getD {}

def erase (c : Cache σ) (key : Key) : Cache σ := { c with slots := c.slots.filter (·.1 ≠ key) }

def put (c : Cache σ) (key : Key) (slot : Slot σ) : Cache σ :=
  { c with slots := (key, slot) :: (c.erase key).slots }

/-- The pair cached under a key. -/
def get? (c : Cache σ) (key : Key) : Option (Entry σ) := (c.slot key).entry

/-- The number of pairs in the cache. -/
def size (c : Cache σ) : Nat := c.slots.countP (·.2.entry.isSome)

/-- The pair for a key, loaded if it is not cached. After an error the key has no slot; after a
panic it keeps an empty one. -/
def resolve (c : Cache σ) (backend : Backend β σ) (key : Key) (s : Session β) :
    Except Failure (Entry σ) × Cache σ × Session β :=
  let slot := c.slot key
  let s := if slot.interrupted then s.log .slotRecovered else s
  match slot.entry with
  | some entry => (.ok entry, c, s.log (.cacheHit key.language key.theme))
  | none =>
    match build backend c.fallback key (s.log (.cacheMiss key.language key.theme)) with
    | (.ok (theme, grammar, source), s) =>
      let entry := ⟨c.built, grammar, theme, source⟩
      (.ok entry, { c.put key { slot with entry := some entry } with built := c.built + 1 }, s)
    | (.error (.error e), s) => (.error (.error e), c.erase key, s)
    | (.error .panic, s) => (.error .panic, c.put key { interrupted := true }, s)

/-- Counts the pairs. Looking into an interrupted slot is logged. -/
def count (c : Cache σ) (s : Session β) : Nat × Session β :=
  (c.size, (c.slots.filter (·.2.interrupted)).foldl (fun s _ => s.log .slotRecovered) s)

end Cache

end Highlight

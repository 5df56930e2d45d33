/-
Calls on one cache at the same time. A call fetches the slot of its key from
the table, waits for the lock of that slot, answers while it holds the lock,
and after a failure takes the slot out of the table if nothing has come of it.
`Contention.step` is one such step of one call; a run is any sequence of them.
A slot is told apart by its number, since a call may still hold one that has
left the table.
-/
import Highlight.Cache

namespace Highlight

namespace Cache

/-- A slot and the call that holds its lock. -/
structure Cell (σ : Type) where
  slot : Slot σ := {}
  holder : Option Nat := none

/-- How far a call has come. -/
inductive Stage (σ : Type) where
  | ready
  | waiting (cell : Nat)
  | holding (cell : Nat)
  | cleaning (cell : Nat) (reason : RenderError)
  | returned (answer : Except Failure (Entry σ))

/-- A call for the pair of a key. -/
structure Caller (σ : Type) where
  key : Key
  stage : Stage σ := .ready

/-- The answer of a call that has returned. -/
def Caller.answer? (c : Caller σ) : Option (Except Failure (Entry σ)) :=
  match c.stage with
  | .returned answer => some answer
  | _ => none

/-- A cache and the calls on it. The table names the present cell of each key; the cells are all
that there ever were. -/
structure Contention (β σ : Type) where
  fallback : String
  table : List (Key × Nat) := []
  cells : List (Cell σ) := []
  callers : List (Caller σ)
  built : Nat := 0
  session : Session β

namespace Contention

def advance (m : Contention β σ) (i : Nat) (stage : Stage σ) : Contention β σ :=
  { m with callers := m.callers.modify i ({ · with stage }) }

def setCell (m : Contention β σ) (n : Nat) (cell : Cell σ) : Contention β σ :=
  { m with cells := m.cells.set n cell }

/-- Fetches the cell of a key, a new one if the key has none. -/
def fetch (m : Contention β σ) (i : Nat) (key : Key) : Contention β σ :=
  match m.table.lookup key with
  | some n => m.advance i (.waiting n)
  | none =>
    let n := m.cells.length
    { m with table := (key, n) :: m.table, cells := m.cells ++ [({} : Cell σ)] }.advance i (.waiting n)

/-- Takes the lock of a cell. The call stays where it is while another one holds it. -/
def lock (m : Contention β σ) (i n : Nat) (cell : Cell σ) : Contention β σ :=
  if cell.holder.isSome then m
  else
    let session := if cell.slot.interrupted then m.session.log .slotRecovered else m.session
    { m.setCell n { cell with holder := some i } with session }.advance i (.holding n)

/-- Answers with the entry of a cell, or builds it, and gives the lock back. -/
def answer (m : Contention β σ) (backend : Backend β σ) (i n : Nat) (key : Key) (slot : Slot σ) :
    Contention β σ :=
  match slot.entry with
  | some entry =>
    let session := m.session.log (.cacheHit key.language key.theme)
    { m.setCell n { slot } with session }.advance i (.returned (.ok entry))
  | none =>
    match build backend m.fallback key (m.session.log (.cacheMiss key.language key.theme)) with
    | (.ok (theme, grammar, source), session) =>
      let entry := ⟨m.built, grammar, theme, source⟩
      let slot := { slot with entry := some entry }
      { m.setCell n { slot } with built := m.built + 1, session }.advance i (.returned (.ok entry))
    | (.error (.error e), session) => { m.setCell n { slot } with session }.advance i (.cleaning n e)
    | (.error .panic, session) =>
      let slot := { slot with interrupted := true }
      { m.setCell n { slot } with session }.advance i (.returned (.error .panic))

/-- Takes the cell of a failed call out of the table, if it is still the cell of the key, is empty,
and nobody holds its lock. -/
def clean (m : Contention β σ) (i n : Nat) (key : Key) (cell : Cell σ) (e : RenderError) :
    Contention β σ :=
  let unused := m.table.lookup key = some n && cell.holder.isNone && cell.slot.entry.isNone
  { m with table := if unused then m.table.filter (·.1 ≠ key) else m.table }.advance i
    (.returned (.error (.error e)))

/-- The next step of a call. Nothing happens if it has returned or has to wait. -/
def step (backend : Backend β σ) (m : Contention β σ) (i : Nat) : Contention β σ :=
  match m.callers[i]? with
  | none => m
  | some ⟨key, stage⟩ =>
    match stage with
    | .ready => m.fetch i key
    | .waiting n => m.lock i n (m.cells[n]?.getD {})
    | .holding n => m.answer backend i n key (m.cells[n]?.getD {}).slot
    | .cleaning n e => m.clean i n key (m.cells[n]?.getD {}) e
    | .returned _ => m

/-- Runs the calls in the order of a schedule, which names the call that makes the next step. -/
def run (backend : Backend β σ) (m : Contention β σ) (schedule : List Nat) : Contention β σ :=
  schedule.foldl (step backend) m

/-- The cache that the calls see, and the calls, none of which has begun. -/
def start (c : Cache σ) (keys : List Key) (session : Session β) : Contention β σ where
  fallback := c.fallback
  table := c.slots.zipIdx.map fun ((key, _), n) => (key, n)
  cells := c.slots.map fun (_, slot) => { slot }
  callers := keys.map fun key => { key }
  built := c.built
  session

/-- The cache as it is left behind. -/
def cache (m : Contention β σ) : Cache σ where
  fallback := m.fallback
  slots := m.table.filterMap fun (key, n) => m.cells[n]?.map fun cell => (key, cell.slot)
  built := m.built

/-- A schedule that lets each of the calls make a step in turn. A call takes four steps, and in each
round one of those that have not returned does not have to wait, so that all return. -/
def inTurn (calls : Nat) : List Nat := (List.replicate (4 * calls) (List.range calls)).flatten

end Contention

/-- Resolves keys at the same time. -/
def resolveAll (c : Cache σ) (backend : Backend β σ) (keys : List Key) (s : Session β) :
    List (Except Failure (Entry σ)) × Cache σ × Session β :=
  let m := (Contention.start c keys s).run backend (Contention.inTurn keys.length)
  (m.callers.filterMap Caller.answer?, m.cache, m.session)

end Cache

end Highlight

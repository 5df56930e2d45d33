/-
The tokens of a line parser's grammar. Whatever changes of scope a parser
reports, in whatever order of their offsets, the tokens that come of them are
chained from the start of the line to its end, or to the greatest offset behind
it (`chained_of_cut`), and the grammar fails only if a change cannot be performed
(`cut_map_snd`). If the offsets do not go backwards, then a token carries the
scopes that hold after the changes at or before each of its bytes
(`names_of_mem_cut`). `tokenize_of_parse` puts these together.
-/
import Highlight.LineParser
import Highlight.Proofs.Except
import Highlight.Proofs.Reconstruction

namespace Highlight

/-- Performs operations from left to right. -/
def ScopeStack.applyAll (stack : ScopeStack) (ops : List ScopeOp) : Except ScopeStack.NothingCleared ScopeStack :=
  ops.foldlM ScopeStack.apply stack

@[simp] theorem ScopeStack.applyAll_nil (stack : ScopeStack) : stack.applyAll [] = .ok stack := rfl

@[simp] theorem ScopeStack.applyAll_cons (stack : ScopeStack) (op : ScopeOp) (ops : List ScopeOp) :
    stack.applyAll (op :: ops) = stack.apply op >>= (·.applyAll ops) := rfl

/-- Tokens from the byte `start` to the byte `stop`, each of which starts where the one before ends. -/
def Chained : Nat → List Token → Nat → Prop
  | start, [], stop => start = stop
  | start, token :: tokens, stop => token.start = start ∧ Chained token.stop tokens stop

/-- Some token of a chain covers each byte between its ends. -/
theorem Chained.exists_token_at {tokens : List Token} {start stop byte : Nat} (h : Chained start tokens stop)
    (hstart : start ≤ byte) (hstop : byte < stop) : ∃ token ∈ tokens, token.start ≤ byte ∧ byte < token.stop := by
  induction tokens generalizing start with
  | nil =>
    have hend : start = stop := h
    omega
  | cons token tokens ih =>
    obtain ⟨hfirst, hrest⟩ := h
    by_cases hcovers : byte < token.stop
    · exact ⟨token, List.mem_cons_self, by omega, hcovers⟩
    · obtain ⟨other, hother, hbyte⟩ := ih hrest (by omega)
      exact ⟨other, List.mem_cons_of_mem _ hother, hbyte⟩

/-- No token of a chain of forward tokens starts before the chain does. -/
theorem Chained.start_le {tokens : List Token} {start stop : Nat} (h : Chained start tokens stop)
    (hforward : ∀ token ∈ tokens, token.start ≤ token.stop) : ∀ token ∈ tokens, start ≤ token.start := by
  induction tokens generalizing start with
  | nil => simp
  | cons token tokens ih =>
    obtain ⟨rfl, hrest⟩ := h
    obtain ⟨htoken, htokens⟩ := List.forall_mem_cons.1 hforward
    refine List.forall_mem_cons.2 ⟨Nat.le_refl _, fun other hother => ?_⟩
    exact Nat.le_trans htoken (ih hrest htokens other hother)

theorem Chained.tiles {tokens : List Token} {start stop size : Nat} (h : Chained start tokens stop)
    (hforward : ∀ token ∈ tokens, token.start ≤ token.stop) (hsize : size ≤ stop) : Tiles size start tokens := by
  induction tokens generalizing start with
  | nil =>
    obtain rfl : start = stop := h
    exact hsize
  | cons token tokens ih =>
    obtain ⟨hstart, hrest⟩ := h
    obtain ⟨htoken, htokens⟩ := List.forall_mem_cons.1 hforward
    exact ⟨hstart, htoken, ih hrest htokens⟩

namespace LineParser

/-- Where the tokens of a line end: at the end of the line, or at the greatest offset of a change behind it. -/
def reach (size : Nat) (ops : List (Nat × ScopeOp)) : Nat := ops.foldr (fun change far => max change.1 far) size

theorem reach_cons (size offset : Nat) (op : ScopeOp) (ops : List (Nat × ScopeOp)) :
    reach size ((offset, op) :: ops) = max offset (reach size ops) := rfl

variable {size cursor offset byte : Nat} {op : ScopeOp} {ops : List (Nat × ScopeOp)} {stack last : ScopeStack}
  {tokens : List Token} {token : Token}

theorem size_le_reach (size : Nat) (ops : List (Nat × ScopeOp)) : size ≤ reach size ops := by
  induction ops with
  | nil => exact Nat.le_refl size
  | cons change ops ih => exact Nat.le_trans ih (Nat.le_max_right ..)

theorem reach_eq_zero_iff : reach size ops = 0 ↔ size = 0 ∧ ∀ change ∈ ops, change.1 = 0 := by
  induction ops with
  | nil => simp [reach]
  | cons change ops ih =>
    rw [reach_cons, List.forall_mem_cons, Nat.max_eq_zero_iff, ih]
    exact and_left_comm

/-- A line can be cut if and only if all its changes can be performed, and the last scopes are those after them. -/
theorem cut_map_snd (size : Nat) (ops : List (Nat × ScopeOp)) (cursor : Nat) (stack : ScopeStack) :
    (cut size ops cursor stack).map (·.2) = stack.applyAll (ops.map (·.2)) := by
  induction ops generalizing cursor stack with
  | nil => rfl
  | cons change ops ih =>
    obtain ⟨offset, op⟩ := change
    rw [cut, List.map_cons, ScopeStack.applyAll_cons]
    cases stack.apply op with
    | error e => rfl
    | ok next =>
      simp only [bind_ok, ← ih (max cursor offset) next]
      cases cut size ops (max cursor offset) next <;> rfl

/-- Only a change beyond the cursor ends a token; any other falls together with the one before. -/
theorem cut_cons_eq_ok_iff :
    cut size ((offset, op) :: ops) cursor stack = .ok (tokens, last) ↔
      ∃ next rest, stack.apply op = .ok next ∧ cut size ops (max cursor offset) next = .ok (rest, last) ∧
        tokens = if cursor < offset then ⟨cursor, offset, stack.names⟩ :: rest else rest := by
  rw [cut]
  cases stack.apply op with
  | error e => simp
  | ok next =>
    rcases hrest : cut size ops (max cursor offset) next with e | ⟨rest, last'⟩
    · simp [hrest]
    · simp only [hrest, Except.ok.injEq, Prod.mk.injEq]
      refine ⟨?_, ?_⟩
      · rintro ⟨rfl, rfl⟩
        exact ⟨next, rest, rfl, ⟨hrest, rfl⟩⟩
      · rintro ⟨_, _, rfl, hrest', rfl⟩
        cases hrest.symm.trans hrest'
        exact ⟨rfl, rfl⟩

/-- A token is the one that a change ends, or one after it. -/
theorem eq_or_mem_of_mem_cut_cons {first : Token} (h : token ∈ if cursor < offset then first :: tokens else tokens) :
    token = first ∨ token ∈ tokens := by
  split at h
  · exact List.mem_cons.1 h
  · exact .inr h

/-- **The tokens of a line follow one another** from the cursor to the end of the line, or to the greatest offset of
a change behind it. -/
theorem chained_of_cut (h : cut size ops cursor stack = .ok (tokens, last)) :
    Chained cursor tokens (max cursor (reach size ops)) := by
  induction ops generalizing cursor stack tokens with
  | nil =>
    cases h
    show Chained cursor (if cursor < size ∨ cursor = 0 then _ else _) (max cursor size)
    split
    · exact ⟨rfl, by show size = max cursor size; omega⟩
    · show cursor = max cursor size
      omega
  | cons change ops ih =>
    obtain ⟨offset, op⟩ := change
    obtain ⟨next, rest, -, hrest, rfl⟩ := cut_cons_eq_ok_iff.1 h
    have hchained := ih hrest
    rw [reach_cons, ← Nat.max_assoc]
    split
    · rename_i hlt
      rw [Nat.max_eq_right (Nat.le_of_lt hlt)] at hchained ⊢
      exact ⟨rfl, hchained⟩
    · rename_i hle
      rw [Nat.max_eq_left (Nat.le_of_not_lt hle)] at hchained ⊢
      exact hchained

/-- No token of a line is empty, unless there is nothing to cover. -/
theorem start_lt_stop_of_cut (h : cut size ops cursor stack = .ok (tokens, last))
    (hpos : 0 < max cursor (reach size ops)) : ∀ token ∈ tokens, token.start < token.stop := by
  induction ops generalizing cursor stack tokens with
  | nil =>
    have hpos' : 0 < max cursor size := hpos
    cases h
    split
    · refine List.forall_mem_singleton.2 ?_
      show cursor < size
      omega
    · simp
  | cons change ops ih =>
    obtain ⟨offset, op⟩ := change
    obtain ⟨next, rest, -, hrest, rfl⟩ := cut_cons_eq_ok_iff.1 h
    rw [reach_cons, ← Nat.max_assoc] at hpos
    have hnonempty := ih hrest hpos
    split
    · rename_i hlt
      exact List.forall_mem_cons.2 ⟨hlt, hnonempty⟩
    · exact hnonempty

/-- Where there is nothing to cover, there is one empty token. -/
theorem cut_of_reach_eq_zero (h : cut size ops 0 stack = .ok (tokens, last)) (hzero : reach size ops = 0) :
    tokens = [⟨0, 0, last.names⟩] := by
  induction ops generalizing stack tokens with
  | nil =>
    obtain rfl : size = 0 := hzero
    cases h
    rfl
  | cons change ops ih =>
    obtain ⟨offset, op⟩ := change
    obtain ⟨next, rest, -, hrest, rfl⟩ := cut_cons_eq_ok_iff.1 h
    rw [reach_cons] at hzero
    obtain rfl : offset = 0 := by omega
    exact ih hrest (by omega)

theorem start_le_stop_of_cut (h : cut size ops cursor stack = .ok (tokens, last)) :
    ∀ token ∈ tokens, token.start ≤ token.stop := by
  by_cases hpos : 0 < max cursor (reach size ops)
  · exact fun token htoken => Nat.le_of_lt (start_lt_stop_of_cut h hpos token htoken)
  · obtain rfl : cursor = 0 := by omega
    rw [cut_of_reach_eq_zero h (by omega)]
    simp

theorem tiles_of_cut (h : cut size ops cursor stack = .ok (tokens, last)) : Tiles size cursor tokens :=
  (chained_of_cut h).tiles (start_le_stop_of_cut h) (Nat.le_trans (size_le_reach size ops) (Nat.le_max_right ..))

theorem tokenize_eq_ok_iff {parser : LineParser π} {scope line : String} {budget : Budget}
    {state next : π × ScopeStack} :
    (parser.grammar scope).tokenize budget line state = .ok (tokens, next) ↔
      ∃ ops, parser.parse line state.1 = .ok (ops, next.1) ∧
        cut (Text.Bytes.size line.toList) ops 0 state.2 = .ok (tokens, next.2) := by
  obtain ⟨after, last⟩ := next
  rcases hparse : parser.parse line state.1 with e | ⟨ops, after'⟩
  · simp [grammar, hparse]
  · rcases hcut : cut (Text.Bytes.size line.toList) ops 0 state.2 with e | ⟨tokens', last'⟩
    · simp only [grammar, hparse, hcut]
      constructor
      · intro h
        cases h
      · rintro ⟨ops', hops, hcut'⟩
        cases hops
        cases hcut.symm.trans hcut'
    · simp only [grammar, hparse, hcut]
      constructor
      · intro h
        cases h
        exact ⟨ops, rfl, hcut⟩
      · rintro ⟨ops', hops, hcut'⟩
        cases hops
        cases hcut.symm.trans hcut'
        rfl

theorem tilesLines_grammar (parser : LineParser π) (scope : String) (lines : List String) (state : π × ScopeStack) :
    (parser.grammar scope).TilesLines lines state := by
  induction lines generalizing state with
  | nil => trivial
  | cons line lines ih =>
    intro tokens next h
    obtain ⟨ops, -, hcut⟩ := tokenize_eq_ok_iff.1 h
    exact ⟨tiles_of_cut hcut, ih next⟩

/-- The operations of the changes at or before a byte, in their order. -/
def opsThrough (byte : Nat) (ops : List (Nat × ScopeOp)) : List ScopeOp := (ops.filter (·.1 ≤ byte)).map (·.2)

theorem opsThrough_eq_nil (h : ∀ change ∈ ops, byte < change.1) : opsThrough byte ops = [] := by
  have hnone : ops.filter (·.1 ≤ byte) = [] := by
    rw [List.filter_eq_nil_iff]
    intro change hchange
    have := h change hchange
    simpa using this
  rw [opsThrough, hnone, List.map_nil]

/-- **A token carries the scopes that hold after the changes at or before each of its bytes**, if their offsets do
not go backwards. -/
theorem names_of_mem_cut (h : cut size ops cursor stack = .ok (tokens, last)) (hsorted : ops.Pairwise (·.1 ≤ ·.1))
    (hahead : ∀ change ∈ ops, cursor ≤ change.1) (htoken : token ∈ tokens) (hstart : token.start ≤ byte)
    (hstop : byte < token.stop) :
    ∃ holding, stack.applyAll (opsThrough byte ops) = .ok holding ∧ token.scopes = holding.names := by
  -- The stack has seen all changes before the cursor, and there is no other before it.
  induction ops generalizing cursor stack tokens with
  | nil =>
    cases h
    split at htoken
    · obtain rfl := List.mem_singleton.1 htoken
      exact ⟨_, rfl, rfl⟩
    · simp at htoken
  | cons change ops ih =>
    obtain ⟨offset, op⟩ := change
    obtain ⟨next, rest, hnext, hrest, rfl⟩ := cut_cons_eq_ok_iff.1 h
    obtain ⟨hoffset, hahead⟩ := List.forall_mem_cons.1 hahead
    obtain ⟨hlater, hsorted⟩ := List.pairwise_cons.1 hsorted
    rw [Nat.max_eq_right hoffset] at hrest
    rcases eq_or_mem_of_mem_cut_cons htoken with rfl | hmem
    · refine ⟨stack, ?_, rfl⟩
      rw [opsThrough_eq_nil, ScopeStack.applyAll_nil]
      refine List.forall_mem_cons.2 ⟨hstop, fun change hchange => Nat.lt_of_lt_of_le hstop (hlater change hchange)⟩
    · have hpassed : offset ≤ byte :=
        Nat.le_trans ((chained_of_cut hrest).start_le (start_le_stop_of_cut hrest) token hmem) hstart
      obtain ⟨holding, happly, hnames⟩ := ih hrest hsorted hlater hmem
      refine ⟨holding, ?_, hnames⟩
      rw [opsThrough, List.filter_cons_of_pos (by simpa using hpassed), List.map_cons, ScopeStack.applyAll_cons, hnext,
        bind_ok]
      exact happly

/-- **The tokens of a line of a line parser.** If some change that the parser reports cannot be performed, then
tokenizing the line fails. Otherwise the stack of scopes goes through all changes, and the tokens are chained
from the start of the line to its end or the greatest offset; none is empty, except the one token of a line with
nothing to cover. If the offsets do not go backwards, then the token that covers a byte carries the names of the scopes
that hold after exactly the changes at or before it. -/
theorem tokenize_of_parse (parser : LineParser π) (scope : String) (budget : Budget) (line : String)
    (state : π × ScopeStack) {ops : List (Nat × ScopeOp)} {next : π}
    (hparse : parser.parse line state.1 = .ok (ops, next)) :
    let size := Text.Bytes.size line.toList
    (∀ e, state.2.applyAll (ops.map (·.2)) = .error e →
      (parser.grammar scope).tokenize budget line state = .error (.tokenizer e.message)) ∧
    ∀ last, state.2.applyAll (ops.map (·.2)) = .ok last →
      ∃ tokens, (parser.grammar scope).tokenize budget line state = .ok (tokens, next, last) ∧
        Chained 0 tokens (reach size ops) ∧
        (if size = 0 ∧ ∀ change ∈ ops, change.1 = 0 then tokens = [⟨0, 0, last.names⟩]
          else ∀ token ∈ tokens, token.start < token.stop) ∧
        (ops.Pairwise (·.1 ≤ ·.1) → ∀ byte < size,
          (∃ token ∈ tokens, token.start ≤ byte ∧ byte < token.stop) ∧
          ∃ holding, state.2.applyAll (opsThrough byte ops) = .ok holding ∧
            ∀ token ∈ tokens, token.start ≤ byte → byte < token.stop → token.scopes = holding.names) := by
  intro size
  rw [← cut_map_snd size ops 0 state.2]
  rcases hcut : cut size ops 0 state.2 with e | ⟨tokens, last⟩
  · refine ⟨fun e' he => ?_, fun last hlast => (by cases hlast)⟩
    cases he
    simp only [grammar, hparse, size, hcut]
    rfl
  · refine ⟨fun e he => (by cases he), fun last' hlast => ?_⟩
    cases hlast
    have hchained := chained_of_cut hcut
    rw [Nat.zero_max] at hchained
    refine ⟨tokens, by simp only [grammar, hparse, size, hcut], hchained, ?_, fun hsorted byte hbyte => ?_⟩
    · split
      · rename_i hnothing
        exact cut_of_reach_eq_zero hcut (reach_eq_zero_iff.2 hnothing)
      · rename_i hsome
        have hpos : 0 < reach size ops := Nat.pos_of_ne_zero fun hzero => hsome (reach_eq_zero_iff.1 hzero)
        exact start_lt_stop_of_cut hcut (by omega)
    · have hahead : ∀ change ∈ ops, 0 ≤ change.1 := fun _ _ => Nat.zero_le _
      obtain ⟨token, htoken, hstart, hstop⟩ :=
        hchained.exists_token_at (Nat.zero_le byte) (Nat.lt_of_lt_of_le hbyte (size_le_reach size ops))
      obtain ⟨holding, hholding, -⟩ := names_of_mem_cut hcut hsorted hahead htoken hstart hstop
      refine ⟨⟨token, htoken, hstart, hstop⟩, holding, hholding, fun other hother hstart' hstop' => ?_⟩
      obtain ⟨holding', hholding', hscopes⟩ := names_of_mem_cut hcut hsorted hahead hother hstart' hstop'
      cases hholding.symm.trans hholding'
      exact hscopes

/-- Reports changes in order: two at one place, one at the end of a line of four bytes and one behind it. -/
def layered : LineParser Unit where
  start := ()
  parse _ _ := .ok ([(0, .push ⟨["text"]⟩), (2, .push ⟨["a"]⟩), (2, .push ⟨["b"]⟩), (4, .pop 2), (9, .push ⟨["c"]⟩)], ())

theorem tokenize_of_parse_layered :
    ∃ tokens, (layered.grammar "text").tokenize .unbounded "é x" ((), {}) =
        .ok (tokens, (), ⟨[⟨["text"]⟩, ⟨["c"]⟩], []⟩) ∧
      Chained 0 tokens 9 ∧ (∀ token ∈ tokens, token.start < token.stop) ∧
      ∀ token ∈ tokens, token.start ≤ 3 → 3 < token.stop → token.scopes = ["text", "a", "b"] := by
  obtain ⟨tokens, htokens, hchained, hnonempty, hscopes⟩ :=
    (tokenize_of_parse layered "text" .unbounded "é x" ((), {}) rfl).2 _ rfl
  obtain ⟨-, holding, hholding, hnames⟩ := hscopes (by decide) 3 (by decide)
  cases hholding
  exact ⟨tokens, htokens, hchained, hnonempty, hnames⟩

end LineParser

end Highlight

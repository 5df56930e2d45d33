/-
Pulling lines from a lexing. `Grammar.callsOver` lists what a grammar is given for
the lines of a text, each line with the state that the one before returned, up
to the first that fails. However often a lexing is pulled, it makes the first of
these calls, one for each line that it yields, and keeps the last state
returned; when they are used up, it yields nothing and stays as it is
(`Lexing.pull_eq`, `Lexing.pull_start`).
-/
import Highlight.Lexing

namespace Highlight

namespace Grammar

variable {grammar : Grammar σ} {lines : List String} {state : σ} {call : Call σ}

def answer (grammar : Grammar σ) (call : Call σ) : Except RenderError (List Token × σ) :=
  grammar.tokenize call.budget call.line call.state

/-- What a call yields: its line with the tokens of the answer, or the error. -/
def yield (grammar : Grammar σ) (call : Call σ) : Except RenderError TokenLine :=
  (grammar.answer call).map fun answer => ⟨call.line, answer.1⟩

/-- The state that a call returns, if it does not fail. -/
def returned? (grammar : Grammar σ) (call : Call σ) : Option σ := (grammar.answer call).toOption.map (·.2)

theorem yield_of_error {line : String} {e : RenderError} (h : grammar.tokenize .unbounded line state = .error e) :
    grammar.yield ⟨line, state, .unbounded⟩ = .error e := by
  rw [yield, answer, h]
  rfl

theorem returned?_of_error {line : String} {e : RenderError} (h : grammar.tokenize .unbounded line state = .error e) :
    grammar.returned? ⟨line, state, .unbounded⟩ = none := by
  rw [returned?, answer, h]
  rfl

theorem yield_of_ok {line : String} {tokens : List Token} {next : σ}
    (h : grammar.tokenize .unbounded line state = .ok (tokens, next)) :
    grammar.yield ⟨line, state, .unbounded⟩ = .ok ⟨line, tokens⟩ := by
  rw [yield, answer, h]
  rfl

theorem returned?_of_ok {line : String} {tokens : List Token} {next : σ}
    (h : grammar.tokenize .unbounded line state = .ok (tokens, next)) :
    grammar.returned? ⟨line, state, .unbounded⟩ = some next := by
  rw [returned?, answer, h]
  rfl

/-- The calls for some lines, each in the state that the one before returns. None follows one that fails. -/
def callsOver (grammar : Grammar σ) : List String → σ → List (Call σ)
  | [], _ => []
  | line :: lines, state =>
    ⟨line, state, .unbounded⟩ :: match grammar.tokenize .unbounded line state with
      | .error _ => []
      | .ok (_, next) => grammar.callsOver lines next

theorem callsOver_of_error {line : String} {e : RenderError} (h : grammar.tokenize .unbounded line state = .error e) :
    grammar.callsOver (line :: lines) state = [⟨line, state, .unbounded⟩] := by
  rw [callsOver, h]

theorem callsOver_of_ok {line : String} {tokens : List Token} {next : σ}
    (h : grammar.tokenize .unbounded line state = .ok (tokens, next)) :
    grammar.callsOver (line :: lines) state = ⟨line, state, .unbounded⟩ :: grammar.callsOver lines next := by
  rw [callsOver, h]

theorem length_callsOver_le (grammar : Grammar σ) (lines : List String) (state : σ) :
    (grammar.callsOver lines state).length ≤ lines.length := by
  induction lines generalizing state with
  | nil => exact Nat.le_refl 0
  | cons line lines ih =>
    rcases htokens : grammar.tokenize .unbounded line state with e | ⟨tokens, next⟩
    · rw [callsOver_of_error htokens]
      simp
    · rw [callsOver_of_ok htokens]
      exact Nat.succ_le_succ (ih next)

theorem line_of_getElem?_callsOver {k : Nat} (h : (grammar.callsOver lines state)[k]? = some call) :
    lines[k]? = some call.line ∧ call.budget = .unbounded := by
  induction lines generalizing state k with
  | nil => simp [callsOver] at h
  | cons line lines ih =>
    cases k with
    | zero =>
      rw [callsOver, List.getElem?_cons_zero] at h
      cases h
      exact ⟨rfl, rfl⟩
    | succ k =>
      rcases htokens : grammar.tokenize .unbounded line state with e | ⟨tokens, next⟩
      · simp [callsOver_of_error htokens] at h
      · rw [callsOver_of_ok htokens, List.getElem?_cons_succ] at h
        exact ih h

theorem state_of_head?_callsOver (h : (grammar.callsOver lines state)[0]? = some call) : call.state = state := by
  cases lines with
  | nil => simp [callsOver] at h
  | cons line lines =>
    rw [callsOver, List.getElem?_cons_zero] at h
    cases h
    rfl

/-- A call follows one that did not fail, and is in the state that this one returned. -/
theorem answer_of_getElem?_callsOver {k : Nat} (h : (grammar.callsOver lines state)[k + 1]? = some call) :
    ∃ before tokens, (grammar.callsOver lines state)[k]? = some before ∧
      grammar.answer before = .ok (tokens, call.state) := by
  induction lines generalizing state k with
  | nil => simp [callsOver] at h
  | cons line lines ih =>
    rcases htokens : grammar.tokenize .unbounded line state with e | ⟨tokens, next⟩
    · simp [callsOver_of_error htokens] at h
    · rw [callsOver_of_ok htokens] at h ⊢
      rw [List.getElem?_cons_succ] at h
      cases k with
      | zero =>
        refine ⟨_, tokens, List.getElem?_cons_zero, ?_⟩
        rw [state_of_head?_callsOver h]
        exact htokens
      | succ k => exact ih h

/-- The calls end before the lines do only after one that fails. -/
theorem exists_error_of_length_callsOver_lt (h : (grammar.callsOver lines state).length < lines.length) :
    ∃ call e, (grammar.callsOver lines state).getLast? = some call ∧ grammar.answer call = .error e := by
  induction lines generalizing state with
  | nil => exact absurd h (Nat.not_lt_zero _)
  | cons line lines ih =>
    rcases htokens : grammar.tokenize .unbounded line state with e | ⟨tokens, next⟩
    · rw [callsOver_of_error htokens]
      exact ⟨_, e, rfl, htokens⟩
    · rw [callsOver_of_ok htokens] at h ⊢
      obtain ⟨call, e, hlast, he⟩ := ih (Nat.lt_of_succ_lt_succ h)
      exact ⟨call, e, by rw [List.getLast?_cons, hlast]; rfl, he⟩

/-- Fewer of the calls than were asked for are all of them, so the lines are used up or the last call failed. -/
theorem length_eq_or_error_of_take {n : Nat} (h : ((grammar.callsOver lines state).take n).length < n) :
    ((grammar.callsOver lines state).take n).length = lines.length ∨
      ∃ call e, ((grammar.callsOver lines state).take n).getLast? = some call ∧ grammar.answer call = .error e := by
  rw [List.length_take] at h
  rw [List.take_of_length_le (by omega)]
  rcases Nat.lt_or_eq_of_le (grammar.length_callsOver_le lines state) with hlt | heq
  · exact .inr (exists_error_of_length_callsOver_lt hlt)
  · exact .inl heq

end Grammar

namespace Lexing

variable {lexing : Lexing σ}

/-- Pulls some times: what each pull yields, and the lexing after the last. -/
def pull : Nat → Lexing σ → List (Option (Except RenderError TokenLine)) × Lexing σ
  | 0, lexing => ([], lexing)
  | n + 1, lexing => (lexing.next.1 :: (pull n lexing.next.2).1, (pull n lexing.next.2).2)

theorem next_of_failed (hfailed : lexing.failed = true) : lexing.next = (none, lexing) := by
  simp [next, hfailed]

theorem next_of_nil (hrest : lexing.rest = []) : lexing.next = (none, lexing) := by
  simp [next, hrest]

theorem next_of_error (hlive : lexing.failed = false) {line : String} {lines : List String}
    (hrest : lexing.rest = line :: lines) {e : RenderError}
    (htokens : lexing.grammar.tokenize .unbounded line lexing.state = .error e) :
    ∃ after : Lexing σ, lexing.next = (some (.error e), after) ∧ after.rest = lines ∧ after.state = lexing.state ∧
      after.failed = true ∧ after.calls = lexing.calls ++ [⟨line, lexing.state, .unbounded⟩] := by
  simp [next, hlive, hrest, htokens]

theorem next_of_ok (hlive : lexing.failed = false) {line : String} {lines : List String}
    (hrest : lexing.rest = line :: lines) {tokens : List Token} {state : σ}
    (htokens : lexing.grammar.tokenize .unbounded line lexing.state = .ok (tokens, state)) :
    ∃ after : Lexing σ, lexing.next = (some (.ok ⟨line, tokens⟩), after) ∧
      after.grammar = lexing.grammar ∧ after.rest = lines ∧ after.state = state ∧ after.failed = false ∧
      after.calls = lexing.calls ++ [⟨line, lexing.state, .unbounded⟩] := by
  simp [next, hlive, hrest, htokens]

theorem pull_succ {result : Option (Except RenderError TokenLine)} {after : Lexing σ}
    (h : lexing.next = (result, after)) (n : Nat) :
    lexing.pull (n + 1) = (result :: (after.pull n).1, (after.pull n).2) := by
  rw [pull, h]

/-- A lexing that has nothing to yield stays as it is. -/
theorem pull_of_none (h : lexing.next = (none, lexing)) (n : Nat) : lexing.pull n = (List.replicate n none, lexing) := by
  induction n with
  | zero => rfl
  | succ n ih => rw [pull_succ h, ih, List.replicate_succ]

/-- What these calls, made in turn, leave of a lexing. -/
structure After (after lexing : Lexing σ) (calls : List (Call σ)) : Prop where
  calls_eq : after.calls = lexing.calls ++ calls
  rest_eq : after.rest = lexing.rest.drop calls.length
  /-- The last state that was returned; a call that fails returns none. -/
  state_eq : after.state = (calls.filterMap lexing.grammar.returned?).getLast?.getD lexing.state
  failed_eq : after.failed = calls.any fun call => (lexing.grammar.returned? call).isNone

/-- A call that returns a state, and then others. -/
theorem After.cons {after last : Lexing σ} {call : Call σ} {calls : List (Call σ)} (h : last.After after calls)
    (hgrammar : after.grammar = lexing.grammar) (hcalls : after.calls = lexing.calls ++ [call])
    (hrest : after.rest = lexing.rest.drop 1) (hreturned : lexing.grammar.returned? call = some after.state) :
    last.After lexing (call :: calls) where
  calls_eq := by rw [h.calls_eq, hcalls, List.append_assoc, List.singleton_append]
  rest_eq := by rw [h.rest_eq, hrest, List.drop_drop, List.length_cons, Nat.add_comm]
  state_eq := by
    rw [h.state_eq, hgrammar, List.filterMap_cons_some hreturned, List.getLast?_cons]
    rfl
  failed_eq := by
    rw [h.failed_eq, hgrammar, List.any_cons, hreturned]
    rfl

/-- **Pulls make the first of the calls over the lines**, and yield what these calls do. -/
theorem pull_eq (lexing : Lexing σ) (hlive : lexing.failed = false) (n : Nat) :
    let calls := (lexing.grammar.callsOver lexing.rest lexing.state).take n
    (lexing.pull n).1 = calls.map (some ∘ lexing.grammar.yield) ++ List.replicate (n - calls.length) none ∧
      (lexing.pull n).2.After lexing calls := by
  induction n generalizing lexing with
  | zero => exact ⟨rfl, by simp [pull], rfl, rfl, hlive⟩
  | succ n ih =>
    rcases hrest : lexing.rest with _ | ⟨line, lines⟩
    · rw [pull_of_none (next_of_nil hrest), Grammar.callsOver, List.take_nil]
      exact ⟨by simp, by simp, by simp [hrest], rfl, hlive⟩
    · rcases htokens : lexing.grammar.tokenize .unbounded line lexing.state with e | ⟨tokens, state⟩
      · obtain ⟨after, hnext, hlines, hstate, hfailed, hcalls⟩ := next_of_error hlive hrest htokens
        rw [pull_succ hnext, pull_of_none (next_of_failed hfailed), Grammar.callsOver_of_error htokens]
        have hreturned := Grammar.returned?_of_error htokens
        refine ⟨?_, ?_, ?_, ?_, ?_⟩
        · simp [Grammar.yield_of_error htokens]
        · simp [hcalls]
        · simp [hlines, hrest]
        · simp [hstate, hreturned]
        · simp [hfailed, hreturned]
      · obtain ⟨after, hnext, hgrammar, hlines, hstate, hlive', hcalls⟩ := next_of_ok hlive hrest htokens
        have hreturned := Grammar.returned?_of_ok htokens
        obtain ⟨hyields, hafter⟩ := ih after hlive'
        rw [hgrammar, hlines, hstate] at hyields hafter
        rw [pull_succ hnext, Grammar.callsOver_of_ok htokens, List.take_succ_cons]
        refine ⟨?_, hafter.cons hgrammar hcalls (by rw [hlines, hrest]; rfl) (hstate ▸ hreturned)⟩
        rw [hyields]
        simp [Grammar.yield_of_ok htokens]

/-- A lexing yields nothing more once its lines are used up or a call has failed. -/
theorem After.next_eq {after : Lexing σ} {calls : List (Call σ)} (h : after.After lexing calls)
    (hdone : calls.length = lexing.rest.length ∨ ∃ call ∈ calls, ∃ e, lexing.grammar.answer call = .error e) :
    after.next = (none, after) := by
  rcases hdone with hall | ⟨call, hmem, e, he⟩
  · refine next_of_nil ?_
    rw [h.rest_eq, hall, List.drop_length]
  · refine next_of_failed ?_
    rw [h.failed_eq, List.any_eq_true]
    exact ⟨call, hmem, by rw [Grammar.returned?, he]; rfl⟩

/-- **A lexing of a text, pulled any number of times.** Its calls are the first of those over the lines of the text:
the call number `k` is given the line number `k`, in the state that the grammar starts from or else the one that the
call before returned. Each pull yields what its call does. There are fewer calls than pulls only if the lines are used
up or the last call failed, and then the lexing yields nothing more and stays as it is. Its state is the last that was
returned. -/
theorem pull_start (grammar : Grammar σ) (text : String) (trace : Bool) (n : Nat) :
    let lines := Text.Lines.split text
    let yields := ((start grammar text trace).pull n).1
    let after := ((start grammar text trace).pull n).2
    after.calls = (grammar.callsOver lines grammar.start).take n ∧
    (∀ (k : Nat) (call : Call σ), after.calls[k]? = some call → lines[k]? = some call.line ∧ call.budget = .unbounded) ∧
    (∀ call, after.calls[0]? = some call → call.state = grammar.start) ∧
    (∀ (k : Nat) (call : Call σ), after.calls[k + 1]? = some call →
      ∃ before tokens, after.calls[k]? = some before ∧ grammar.answer before = .ok (tokens, call.state)) ∧
    yields = after.calls.map (some ∘ grammar.yield) ++ List.replicate (n - after.calls.length) none ∧
    (after.calls.length < n → after.calls.length = lines.length ∨
      ∃ call e, after.calls.getLast? = some call ∧ grammar.answer call = .error e) ∧
    (after.calls.length = lines.length ∨ (∃ call ∈ after.calls, ∃ e, grammar.answer call = .error e) →
      after.next = (none, after)) ∧
    after.state = (after.calls.filterMap grammar.returned?).getLast?.getD grammar.start := by
  intro lines yields after
  have hpull := pull_eq (start grammar text trace) rfl n
  have hcalls : after.calls = (grammar.callsOver lines grammar.start).take n := hpull.2.calls_eq
  obtain ⟨hyields, hafter⟩ : yields = after.calls.map (some ∘ grammar.yield) ++
      List.replicate (n - after.calls.length) none ∧ after.After (start grammar text trace) after.calls := by
    rw [hcalls]
    exact hpull
  have hget {k : Nat} {call : Call σ} (h : after.calls[k]? = some call) :
      k < n ∧ (grammar.callsOver lines grammar.start)[k]? = some call := by
    rw [hcalls] at h
    simpa [List.getElem?_take] using h
  refine ⟨hcalls, fun k call h => ?_, fun call h => ?_, fun k call h => ?_, hyields, fun hfewer => ?_, hafter.next_eq,
    hafter.state_eq⟩
  · exact Grammar.line_of_getElem?_callsOver (hget h).2
  · exact Grammar.state_of_head?_callsOver (hget h).2
  · obtain ⟨hk, hcall⟩ := hget h
    obtain ⟨before, tokens, hbefore, hanswer⟩ := Grammar.answer_of_getElem?_callsOver hcall
    refine ⟨before, tokens, ?_, hanswer⟩
    rw [hcalls, List.getElem?_take_of_lt (by omega)]
    exact hbefore
  · rw [hcalls] at hfewer ⊢
    exact Grammar.length_eq_or_error_of_take hfewer

end Lexing

end Highlight

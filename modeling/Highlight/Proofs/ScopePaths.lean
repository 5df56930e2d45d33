/-
Scope stacks handed on as names. A line parser's grammar prints the scopes of a
token, and a stylesheet reads them again before it matches. For plain scopes
nothing is lost on the way (`readBack_names`), and a stack on which only plain
scopes are pushed holds no others (`ScopeStack.Plain.applyAll`), set aside or
not. The language definitions whose scopes are all plain keep to that
(`Contexts.Plain.parse`), so that every token of a text is matched by the scopes
that hold there (`Definition.Plain.readBack`).
-/
import Highlight.Language.Contexts
import Highlight.Proofs.LineParser
import Highlight.Proofs.Matching.Order
import Highlight.Proofs.Rendering
import Highlight.Proofs.Scope

namespace Highlight

/-- The names, read again, are these scopes, and under every stylesheet the rules for the names are those of the
entries whose selectors match the scopes. -/
structure ReadBack (names : List String) (scopes : List Scope) : Prop where
  parsed : names.mapM Scope.parse = .ok scopes
  rules : ∀ (sheet : Stylesheet) (name : String), sheet.Ranks scopes ((sheet.theme name).rulesFor names)

/-- Where all names can be read, none is dropped. -/
theorem FlatSheet.stackOf_of_mapM {names : List String} {scopes : List Scope}
    (h : names.mapM Scope.parse = .ok scopes) : stackOf names = scopes := by
  induction names generalizing scopes with
  | nil =>
    cases h
    rfl
  | cons name names ih =>
    obtain ⟨scope, rest, hscope, hrest, rfl⟩ := mapM_cons_eq_ok_iff.1 h
    rw [stackOf, List.filterMap_cons, hscope]
    exact congrArg (scope :: ·) (ih hrest)

theorem mapM_parse_map_name {scopes : List Scope} (h : ∀ s ∈ scopes, s.Plain) :
    (scopes.map Scope.name).mapM Scope.parse = .ok scopes := by
  induction scopes with
  | nil => rfl
  | cons scope scopes ih =>
    obtain ⟨hscope, hscopes⟩ := List.forall_mem_cons.1 h
    exact mapM_cons_eq_ok_iff.2 ⟨scope, scopes, hscope.parse_name, ih hscopes, rfl⟩

/-- The names of plain scopes are read back as they were. -/
theorem readBack_names {scopes : List Scope} (h : ∀ s ∈ scopes, s.Plain) : ReadBack (scopes.map Scope.name) scopes := by
  have hparsed := mapM_parse_map_name h
  refine ⟨hparsed, fun sheet name => ?_⟩
  have hranks := sheet.ranks_rulesFor name (scopes.map Scope.name)
  rwa [FlatSheet.stackOf_of_mapM hparsed] at hranks

/-- If the operation pushes a scope, then a plain one. -/
def ScopeOp.Plain : ScopeOp → Prop
  | .push scope => scope.Plain
  | .pop _ | .clear _ | .restore | .noop => True

/-- All scopes are plain, those set aside included. -/
structure ScopeStack.Plain (stack : ScopeStack) : Prop where
  scopes : ∀ s ∈ stack.scopes, s.Plain
  cleared : ∀ group ∈ stack.cleared, ∀ s ∈ group, s.Plain

namespace ScopeStack

variable {stack next : ScopeStack} {op : ScopeOp}

theorem Plain.start : Plain {} := ⟨by simp, by simp⟩

theorem Plain.apply (h : stack.Plain) (hop : op.Plain) (happly : stack.apply op = .ok next) : next.Plain := by
  cases op with
  | push scope =>
    cases happly
    exact ⟨List.forall_mem_append.2 ⟨h.scopes, List.forall_mem_singleton.2 hop⟩, h.cleared⟩
  | pop count =>
    cases happly
    exact ⟨fun s hs => h.scopes s (List.mem_of_mem_take hs), h.cleared⟩
  | clear amount =>
    cases happly
    refine ⟨fun s hs => h.scopes s (List.mem_of_mem_take hs), List.forall_mem_cons.2 ⟨fun s hs => ?_, h.cleared⟩⟩
    exact h.scopes s (List.mem_of_mem_drop hs)
  | restore =>
    rw [ScopeStack.apply] at happly
    split at happly
    · rename_i group cleared hcleared
      cases happly
      have hgroups := h.cleared
      rw [hcleared, List.forall_mem_cons] at hgroups
      exact ⟨List.forall_mem_append.2 ⟨h.scopes, hgroups.1⟩, hgroups.2⟩
    · cases happly
  | noop =>
    cases happly
    exact h

theorem Plain.applyAll {ops : List ScopeOp} (h : stack.Plain) (hops : ∀ op ∈ ops, op.Plain)
    (happly : stack.applyAll ops = .ok next) : next.Plain := by
  induction ops generalizing stack with
  | nil =>
    cases happly
    exact h
  | cons op ops ih =>
    obtain ⟨hop, hops⟩ := List.forall_mem_cons.1 hops
    rw [applyAll_cons] at happly
    cases hnext : stack.apply op with
    | error e => simp [hnext] at happly
    | ok between =>
      rw [hnext, bind_ok] at happly
      exact ih (h.apply hop hnext) hops happly

end ScopeStack

namespace LineParser

variable {size cursor : Nat} {ops : List (Nat × ScopeOp)} {stack last : ScopeStack} {tokens : List Token}
  {token : Token}

/-- A token has the names of a stack that the changes lead through. -/
theorem exists_stack_of_mem_cut (h : cut size ops cursor stack = .ok (tokens, last)) (htoken : token ∈ tokens) :
    ∃ done holding, done <+: ops ∧ stack.applyAll (done.map (·.2)) = .ok holding ∧ token.scopes = holding.names := by
  induction ops generalizing cursor stack tokens with
  | nil =>
    cases h
    split at htoken
    · obtain rfl := List.mem_singleton.1 htoken
      exact ⟨[], _, List.prefix_rfl, rfl, rfl⟩
    · simp at htoken
  | cons change ops ih =>
    obtain ⟨offset, op⟩ := change
    obtain ⟨next, rest, hnext, hrest, rfl⟩ := cut_cons_eq_ok_iff.1 h
    rcases eq_or_mem_of_mem_cut_cons htoken with rfl | hmem
    · exact ⟨[], stack, List.nil_prefix, rfl, rfl⟩
    · obtain ⟨done, holding, hdone, happly, hnames⟩ := ih hrest hmem
      refine ⟨(offset, op) :: done, holding, List.cons_prefix_cons.2 ⟨rfl, hdone⟩, ?_, hnames⟩
      rw [List.map_cons, ScopeStack.applyAll_cons, hnext, bind_ok, happly]

/-- The last scopes of a line are those after all changes. -/
theorem applyAll_of_cut (h : cut size ops cursor stack = .ok (tokens, last)) :
    stack.applyAll (ops.map (·.2)) = .ok last := by
  rw [← cut_map_snd size ops cursor stack, h]
  rfl

/-- The changes of a line push plain scopes only. -/
def PlainChanges (ops : List (Nat × ScopeOp)) : Prop := ∀ change ∈ ops, change.2.Plain

theorem PlainChanges.applyAll {done : List (Nat × ScopeOp)} {holding : ScopeStack} (h : PlainChanges ops)
    (hdone : done <+: ops) (hstack : stack.Plain) (happly : stack.applyAll (done.map (·.2)) = .ok holding) :
    holding.Plain :=
  hstack.applyAll (List.forall_mem_map.2 fun change hchange => h change (hdone.subset hchange)) happly

/-- **Scopes survive the way through their names.** The names of any stack of plain scopes are read back as this stack,
and every stylesheet has the same rules for the names as for the scopes. The names that a token of a line parser has are
those of the stack after the changes of its line up to some change, and that stack is of plain scopes if the line begins
with such a stack and its changes push no others; so does the next line begin then. -/
theorem names_read_back :
    (∀ stack : ScopeStack, (∀ s ∈ stack.scopes, s.Plain) → ReadBack stack.names stack.scopes) ∧
    ∀ (parser : LineParser π) (scope line : String) (budget : Budget) (state next : π × ScopeStack)
      (ops : List (Nat × ScopeOp)) (after : π) (tokens : List Token),
      parser.parse line state.1 = .ok (ops, after) →
      (parser.grammar scope).tokenize budget line state = .ok (tokens, next) →
      (∀ token ∈ tokens, ∃ done holding, done <+: ops ∧ state.2.applyAll (done.map (·.2)) = .ok holding ∧
        token.scopes = holding.names ∧
        ((∀ s ∈ holding.scopes, s.Plain) → ReadBack token.scopes holding.scopes) ∧
        (state.2.Plain → PlainChanges ops → holding.Plain)) ∧
      (state.2.Plain → PlainChanges ops → next.2.Plain) := by
  refine ⟨fun stack hplain => readBack_names hplain, ?_⟩
  intro parser scope line budget state next ops after tokens hparse htokenize
  obtain ⟨ops', hops, hcut⟩ := tokenize_eq_ok_iff.1 htokenize
  cases hparse.symm.trans hops
  refine ⟨fun token htoken => ?_, fun hstack hops => ?_⟩
  · obtain ⟨done, holding, hdone, happly, hnames⟩ := exists_stack_of_mem_cut hcut htoken
    refine ⟨done, holding, hdone, happly, hnames, fun hplain => ?_, fun hstack hops => ?_⟩
    · rw [hnames]
      exact readBack_names hplain
    · exact hops.applyAll hdone hstack happly
  · exact hops.applyAll List.prefix_rfl hstack (applyAll_of_cut hcut)

end LineParser

namespace Language

/-- All scopes of the context are plain. -/
structure Context.Plain (context : Context) : Prop where
  metaScopes : ∀ s ∈ context.metaScopes, s.Plain
  contentScopes : ∀ s ∈ context.contentScopes, s.Plain
  rules : ∀ rule ∈ context.rules, ∀ s ∈ rule.scopes, s.Plain

/-- All scopes of the definition are plain. -/
structure Definition.Plain (d : Definition) : Prop where
  scope : d.scope.Plain
  contexts : ∀ named ∈ d.contexts, named.2.Plain

variable {d : Definition}

theorem Definition.Plain.context (h : d.Plain) (name : String) : (d.context name).Plain := by
  rw [Definition.context]
  cases hfind : d.contexts.lookup name with
  | none => exact ⟨by simp, by simp, by simp⟩
  | some context => exact h.contexts _ (mem_of_lookup hfind)

theorem Definition.Plain.root (h : d.Plain) : d.root.Plain :=
  ⟨by simp [Definition.root], by simpa [Definition.root] using h.scope, by simp [Definition.root]⟩

namespace Contexts

open LineParser (PlainChanges)

variable {context : Context} {targets stack : List Context} {m : Candidate} {offset : Nat}

/-- A best match is of one of the rules. -/
theorem rule_mem_of_best {here : Spot} {depth : Nat} {entered : Bool} {rules : List Rule} {found : Option Candidate}
    (h : best here depth entered rules found = some m) : m.rule ∈ rules ∨ found = some m := by
  induction rules generalizing found with
  | nil => exact .inr h
  | cons rule rules ih =>
    have hskip {found : Option Candidate} (h : best here depth entered rules found = some m) :
        m.rule ∈ rule :: rules ∨ found = some m := (ih h).imp_left (List.mem_cons_of_mem _)
    rw [best] at h
    split at h
    · exact hskip h
    · split at h
      · exact hskip h
      · extract_lets better loops candidate at h
        have htaken (h : some candidate = some m) : m.rule ∈ rule :: rules := by
          rw [← Option.some.inj h]
          exact List.mem_cons_self
        split at h
        · split at h
          · exact .inl (htaken h)
          · exact .inl ((hskip h).elim id htaken)
        · exact hskip h

theorem plainChanges_nil : PlainChanges [] := by simp [PlainChanges]

theorem plainChanges_append {before after : List (Nat × ScopeOp)} :
    PlainChanges (before ++ after) ↔ PlainChanges before ∧ PlainChanges after := List.forall_mem_append

theorem plainChanges_flatMap {f : Context → List (Nat × ScopeOp)} (h : ∀ t ∈ targets, PlainChanges (f t)) :
    PlainChanges (targets.flatMap f) := by
  intro change hchange
  obtain ⟨t, ht, hchange⟩ := List.mem_flatMap.1 hchange
  exact h t ht change hchange

theorem plainChanges_pushes {scopes : List Scope} (h : ∀ s ∈ scopes, s.Plain) : PlainChanges (pushes offset scopes) :=
  List.forall_mem_map.2 h

theorem plainChanges_pops (offset count : Nat) : PlainChanges (pops offset count) := by
  rw [pops]
  split
  · exact plainChanges_nil
  · exact List.forall_mem_singleton.2 trivial

theorem plainChanges_changes (context : Context) (htargets : ∀ t ∈ targets, t.Plain)
    (hrule : ∀ s ∈ m.rule.scopes, s.Plain) : PlainChanges (changes context targets m) := by
  have hbefore : PlainChanges (targets.flatMap fun t => pushes m.start.offset t.metaScopes) :=
    plainChanges_flatMap fun t ht => plainChanges_pushes (htargets t ht).metaScopes
  have hafter : PlainChanges (targets.flatMap fun t =>
      pushes m.stop.offset t.metaScopes ++ pushes m.stop.offset t.contentScopes) :=
    plainChanges_flatMap fun t ht => plainChanges_append.2
      ⟨plainChanges_pushes (htargets t ht).metaScopes, plainChanges_pushes (htargets t ht).contentScopes⟩
  simp only [changes, plainChanges_append]
  refine ⟨⟨⟨?_, plainChanges_pushes hrule⟩, plainChanges_pops _ _⟩, ?_⟩
  · cases m.rule.move with
    | stay => exact plainChanges_nil
    | pop => exact plainChanges_pops _ _
    | push names | set names => exact hbefore
  · cases m.rule.move with
    | stay => exact plainChanges_nil
    | pop => exact plainChanges_pops _ _
    | push names | set names =>
      dsimp only
      split
      · exact plainChanges_append.2 ⟨plainChanges_pops _ _, hafter⟩
      · exact plainChanges_nil

theorem plain_targetsOf (hd : d.Plain) (move : Move) : ∀ t ∈ targetsOf d move, t.Plain := by
  cases move with
  | stay | pop => simp [targetsOf]
  | push names | set names => exact List.forall_mem_map.2 fun name _ => hd.context name

theorem plain_moved (htargets : ∀ t ∈ targets, t.Plain) (hstack : ∀ context ∈ stack, context.Plain) (move : Move) :
    ∀ context ∈ moved targets stack move, context.Plain := by
  have hreverse : ∀ t ∈ targets.reverse, t.Plain := fun t ht => htargets t (List.mem_reverse.1 ht)
  have htail : ∀ context ∈ stack.tail, context.Plain :=
    fun context hcontext => hstack context (List.mem_of_mem_tail hcontext)
  cases move with
  | stay => exact hstack
  | pop => exact htail
  | push names => exact List.forall_mem_append.2 ⟨hreverse, hstack⟩
  | set names => exact List.forall_mem_append.2 ⟨hreverse, htail⟩

/-- The reading of a line with plain contexts changes the scopes by plain ones, and leaves plain contexts. -/
theorem plain_read (hd : d.Plain) (steps : Nat) (here : Spot) (entry : Entry)
    (hstack : ∀ context ∈ stack, context.Plain) :
    PlainChanges (read d steps here stack entry).1 ∧ ∀ context ∈ (read d steps here stack entry).2, context.Plain := by
  -- Only the contexts that a rule leads to are new, and they come from the definition.
  induction steps generalizing here stack entry with
  | zero => exact ⟨plainChanges_nil, hstack⟩
  | succ steps ih =>
    cases stack with
    | nil => exact ⟨plainChanges_nil, by simp [read]⟩
    | cons context outer =>
      rw [read]
      dsimp only
      split
      · exact ⟨plainChanges_nil, hstack⟩
      · rename_i m hbest
        split
        · split
          · exact ih _ _ hstack
          · exact ⟨plainChanges_nil, hstack⟩
        · have hrule : m.rule ∈ context.rules := (rule_mem_of_best hbest).resolve_right (by simp)
          have hcontext : context.Plain := hstack context List.mem_cons_self
          have htargets := plain_targetsOf hd m.rule.move
          have hchanges := plainChanges_changes context htargets (hcontext.rules _ hrule)
          have hmoved := plain_moved htargets hstack m.rule.move
          exact ⟨plainChanges_append.2 ⟨hchanges, (ih _ _ hmoved).1⟩, (ih _ _ hmoved).2⟩

/-- All open contexts are plain. -/
def Plain (state : Contexts) : Prop := ∀ context ∈ state.stack, context.Plain

theorem Plain.parse {state next : Contexts} {line : String} {ops : List (Nat × ScopeOp)} (h : state.Plain)
    (hd : d.Plain) (hparse : Contexts.parse d line state = .ok (ops, next)) : PlainChanges ops ∧ next.Plain := by
  rw [Contexts.parse] at hparse
  split at hparse
  · cases hparse
  · cases hparse
    obtain ⟨hchanges, hlast⟩ := plain_read hd (bound d line.length state.stack.length) (.start line) {} h
    refine ⟨plainChanges_append.2 ⟨?_, hchanges⟩, hlast⟩
    split
    · exact plainChanges_pushes (List.forall_mem_singleton.2 hd.scope)
    · exact plainChanges_nil

end Contexts

/-- The names of each token of some lines are those of a stack of plain scopes, if contexts and scopes are plain where
the lines begin. -/
theorem Definition.Plain.exists_stack_of_lexLines (hd : d.Plain) {scope : String} {lines : List String}
    {state last : Contexts × ScopeStack} {lexed : List TokenLine} (hcontexts : state.1.Plain) (hstack : state.2.Plain)
    (h : (d.parser.grammar scope).lexLines lines state = .ok (lexed, last)) :
    ∀ line ∈ lexed, ∀ token ∈ line.tokens, ∃ holding : ScopeStack, holding.Plain ∧ token.scopes = holding.names := by
  induction lines generalizing state lexed with
  | nil =>
    cases h
    simp
  | cons line lines ih =>
    obtain ⟨tokens, next, rest, htokens, hrest, rfl⟩ := Grammar.lexLines_cons_eq_ok_iff.1 h
    obtain ⟨ops, hparse, hcut⟩ := LineParser.tokenize_eq_ok_iff.1 htokens
    obtain ⟨hchanges, hnext⟩ := hcontexts.parse hd hparse
    have hlast : next.2.Plain := hchanges.applyAll List.prefix_rfl hstack (LineParser.applyAll_of_cut hcut)
    refine List.forall_mem_cons.2 ⟨fun token htoken => ?_, ih hnext hlast hrest⟩
    obtain ⟨done, holding, hdone, happly, hnames⟩ := LineParser.exists_stack_of_mem_cut hcut htoken
    exact ⟨holding, hchanges.applyAll hdone hstack happly, hnames⟩

/-- **Under a definition with plain scopes, no scope of a text is lost.** Whatever the lines of a text are, the names of
each token are read back as plain scopes, and every stylesheet has the same rules for the names as for the scopes. -/
theorem Definition.Plain.readBack (hd : d.Plain) (scope : String) {lines : List String} {last : Contexts × ScopeStack}
    {lexed : List TokenLine}
    (h : (d.parser.grammar scope).lexLines lines (d.parser.grammar scope).start = .ok (lexed, last)) :
    ∀ line ∈ lexed, ∀ token ∈ line.tokens, ∃ scopes : List Scope,
      (∀ s ∈ scopes, s.Plain) ∧ ReadBack token.scopes scopes := by
  intro line hline token htoken
  have hcontexts : d.parser.start.Plain := List.forall_mem_singleton.2 hd.root
  obtain ⟨holding, hholding, hnames⟩ := hd.exists_stack_of_lexLines hcontexts .start h line hline token htoken
  refine ⟨holding.scopes, hholding.scopes, ?_⟩
  rw [hnames]
  exact readBack_names hholding.scopes

end Language

end Highlight

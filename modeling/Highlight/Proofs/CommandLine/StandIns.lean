/-
Variables that stand in for options. Reading a part of the command line goes on as
before if something was given in front of it that it does not give itself
(`readLevel_carries`). So a command line and an environment ask for what the command
line alone asks for once the variables of the options that it does not give are
written in front of it as those options (`parse_standIns`).
-/
import Highlight.Proofs.CommandLine.Settings
import Highlight.Proofs.Lists

namespace Highlight.CommandLine

/-- What is given, with a theme and an appearance from in front of it where it has none. -/
def Given.atop (g base : Given) : Given :=
  { g with theme := g.theme <|> base.theme, appearance := g.appearance <|> base.appearance }

/-- Neither the theme nor the appearance is given twice. -/
def Given.Apart (g base : Given) : Prop :=
  (g.theme = none ∨ base.theme = none) ∧ (g.appearance = none ∨ base.appearance = none)

namespace Progress

def atop (p : Progress) (base : Given) : Progress := { p with given := p.given.atop base }

@[simp] theorem pending_atop (p : Progress) (base : Given) : (p.atop base).pending = p.pending := rfl

@[simp] theorem hasOperand_atop (p : Progress) (base : Given) (target : Target) :
    (p.atop base).hasOperand target = p.hasOperand target := by
  cases target <;> rfl

end Progress

/-- Where reading succeeds, it succeeds over what is given in front of it, and leaves that in front, unless it gives the
same itself. -/
def Carries (base : Given) (read : Progress → Except ε Progress) : Prop :=
  ∀ p p', read p = .ok p' → p'.given.Apart base → p.given.Apart base ∧ read (p.atop base) = .ok (p'.atop base)

variable {base : Given}

theorem Carries.usage {read : Progress → Except UsageError Progress} (h : Carries base read) :
    Carries base fun p => CommandLine.usage (read p) := fun p p' hread hapart =>
  (h p p' (usage_eq_ok_iff.1 hread) hapart).imp_right usage_eq_ok_iff.2

theorem Given.set_carries {g g' : Given} {target : Target} {value : String} (h : g.set target value = .ok g')
    (hapart : g'.Apart base) : g.Apart base ∧ (g.atop base).set target value = .ok (g'.atop base) := by
  unfold Given.set at h ⊢
  split at h
  · -- The theme that is given now was given nowhere before.
    split at h
    · cases h
    · rename_i hnone
      cases h
      obtain ⟨htheme, happearance⟩ := hapart
      have hg : g.theme = none := by simpa using hnone
      have hbase : base.theme = none := htheme.resolve_left (by simp)
      exact ⟨⟨.inl hg, happearance⟩, by simp [atop, hg, hbase]⟩
  · split at h
    · cases h
    · rename_i hnone
      split at h
      · rename_i appearance hparse
        cases h
        obtain ⟨htheme, happearance⟩ := hapart
        have hg : g.appearance = none := by simpa using hnone
        have hbase : base.appearance = none := happearance.resolve_left (by simp)
        exact ⟨⟨htheme, .inl hg⟩, by simp [atop, hg, hbase]⟩
      · cases h
  · split at h
    · cases h
    · rename_i hnone
      cases h
      exact ⟨hapart, if_neg hnone⟩
  · cases h
  · split at h
    · cases h
    · rename_i hempty
      cases h
      exact ⟨hapart, if_neg hempty⟩
  · split at h
    · rename_i shell hshell
      cases h
      exact ⟨hapart, by simp [atop]⟩
    · cases h

namespace Progress

theorem settle_carries {p : Progress} {g : Given} (h : p.settle = .ok g) (hapart : g.Apart base) :
    p.given.Apart base ∧ (p.atop base).settle = .ok (g.atop base) := by
  unfold settle at h
  split at h
  · rename_i hpending
    cases h
    exact ⟨hapart, by simp [settle, atop, hpending]⟩
  · cases h
  · rename_i target value hpending
    obtain ⟨hapart, hset⟩ := Given.set_carries h hapart
    exact ⟨hapart, by simp [settle, atop, hpending, hset]⟩

theorem attach_carries (flag : Flag) (value : String) : Carries base (·.attach flag value) := by
  intro p p' h hapart
  beta_reduce at h ⊢
  simp only [attach, bind_eq_ok_iff, pure_eq_ok_iff] at h
  obtain ⟨given, hsettle, given', hset, rfl⟩ := h
  obtain ⟨hapart, hset⟩ := Given.set_carries hset hapart
  obtain ⟨hapart, hsettle⟩ := settle_carries hsettle hapart
  refine ⟨hapart, ?_⟩
  rw [attach, hsettle, bind_ok, hset]
  rfl

theorem await_carries (target : Target) (value : Option String) : Carries base (·.await target value) := by
  intro p p' h hapart
  beta_reduce at h ⊢
  simp only [await, bind_eq_ok_iff, pure_eq_ok_iff] at h
  obtain ⟨given, hsettle, rfl⟩ := h
  obtain ⟨hapart, hsettle⟩ := settle_carries hsettle hapart
  refine ⟨hapart, ?_⟩
  rw [await, hsettle]
  rfl

theorem raise_carries (flag : Flag) : Carries base (·.raise flag) := by
  intro p p' h hapart
  beta_reduce at h ⊢
  unfold raise at h
  split at h
  · cases h
  · rename_i given hsettle
    have hgiven : given.Apart base := by
      split at h
      · cases h
      · cases h
      · split at h
        · cases h
        · cases h
          exact hapart
      · cases h
    obtain ⟨hp, hsettle⟩ := settle_carries hsettle hgiven
    refine ⟨hp, ?_⟩
    rw [raise, hsettle]
    split at h
    · cases h
    · cases h
    · split at h
      · cases h
      · rename_i hjson
        cases h
        exact if_neg hjson
    · cases h

end Progress

variable {level : Level}

theorem readCluster_carries (cs : List Char) : Carries base (readCluster level cs) := by
  intro p p' h hapart
  induction cs generalizing p with
  | nil =>
    rw [readCluster] at h
    cases h
    exact ⟨hapart, by rw [readCluster]⟩
  | cons c cs ih =>
    rw [readCluster] at h ⊢
    split at h
    · cases h
    · rename_i flag hflag
      by_cases htakes : flag.takesValue = true
      · simp only [if_pos htakes] at h ⊢
        split at h
        · exact (Progress.await_carries (.flag flag) none).usage p p' h hapart
        · exact (Progress.attach_carries flag _).usage p p' h hapart
        · exact (Progress.attach_carries flag _).usage p p' h hapart
      · simp only [if_neg htakes] at h ⊢
        split at h
        · cases h
        · rename_i q hraise
          obtain ⟨hq, hread⟩ := ih q h
          obtain ⟨hp, hraise⟩ := Progress.raise_carries flag p q hraise hq
          exact ⟨hp, by simp only [hraise, hread]⟩

theorem readLong_carries (cs : List Char) : Carries base (readLong level cs) := by
  intro p p' h hapart
  unfold readLong at h ⊢
  dsimp only at h ⊢
  split at h
  · cases h
  · rename_i flag value hflag hvalue
    by_cases htakes : flag.takesValue = true
    · rw [if_pos htakes] at h ⊢
      exact (Progress.attach_carries flag value).usage p p' h hapart
    · rw [if_neg htakes] at h
      cases h
  · rename_i flag hflag hvalue
    by_cases htakes : flag.takesValue = true
    · rw [if_pos htakes] at h ⊢
      exact (Progress.await_carries (.flag flag) none).usage p p' h hapart
    · rw [if_neg htakes] at h ⊢
      exact Progress.raise_carries flag p p' h hapart

theorem readOperand_carries (arg : String) : Carries base (readOperand level arg) := by
  intro p p' h hapart
  unfold readOperand at h ⊢
  split at h
  · cases h
  · rename_i target htarget
    rw [Progress.hasOperand_atop]
    by_cases hsecond : p.hasOperand target = true
    · rw [if_pos hsecond] at h
      cases h
    · rw [if_neg hsecond] at h ⊢
      exact (Progress.await_carries target (some arg)).usage p p' h hapart

theorem readOperands_carries (args : List String) : Carries base (readOperands level args) := by
  intro p p' h hapart
  induction args generalizing p with
  | nil =>
    cases h
    exact ⟨hapart, rfl⟩
  | cons arg args ih =>
    simp only [readOperands, List.foldlM_cons, bind_eq_ok_iff] at h ⊢
    obtain ⟨q, hread, hrest⟩ := h
    obtain ⟨hq, hrest⟩ := ih q hrest
    obtain ⟨hp, hread⟩ := readOperand_carries arg p q hread hq
    exact ⟨hp, _, hread, hrest⟩

theorem readLevel_carries {args : List String} {p p' : Progress} {next : Option (Level × List String)}
    (h : readLevel level args p = .ok (p', next)) (hapart : p'.given.Apart base) :
    p.given.Apart base ∧ readLevel level args (p.atop base) = .ok (p'.atop base, next) := by
  induction args generalizing p with
  | nil =>
    rw [readLevel] at h ⊢
    cases h
    exact ⟨hapart, rfl⟩
  | cons arg args ih =>
    rw [readLevel] at h ⊢
    cases hcommand : (if level = .top ∧ p.waits = false then Level.ofCommand? arg else none) with
    | some next' =>
      have hcommand' : (if level = .top ∧ (p.atop base).waits = false then Level.ofCommand? arg else none) =
          some next' := hcommand
      simp only [hcommand] at h
      cases h
      exact ⟨hapart, by simp only [hcommand']⟩
    | none =>
      have hcommand' : (if level = .top ∧ (p.atop base).waits = false then Level.ofCommand? arg else none) =
          none := hcommand
      simp only [hcommand] at h
      simp only [hcommand', Progress.pending_atop]
      by_cases hhelp : level = .top ∧ p.waits = false ∧ arg = "help"
      · rw [if_pos hhelp] at h
        cases h
      · have hhelp' : ¬ (level = .top ∧ (p.atop base).waits = false ∧ arg = "help") := hhelp
        rw [if_neg hhelp] at h
        rw [if_neg hhelp']
        split at h
        · obtain ⟨q, hread, ⟨⟩⟩ := map_eq_ok_iff.1 h
          obtain ⟨hp, hread⟩ := readOperands_carries args p _ hread hapart
          exact ⟨hp, map_eq_ok_iff.2 ⟨_, hread, rfl⟩⟩
        · split at h
          · cases h
          · rename_i q hread
            obtain ⟨hq, hrest⟩ := ih h
            obtain ⟨hp, hread⟩ := readLong_carries _ p q hread hq
            exact ⟨hp, by rw [hread]; exact hrest⟩
        · split at h
          · cases h
          · rename_i q hread
            obtain ⟨hq, hrest⟩ := ih h
            obtain ⟨hp, hread⟩ := readCluster_carries _ p q hread hq
            exact ⟨hp, by rw [hread]; exact hrest⟩
        · split at h
          · exact ih h
          · split at h
            · cases h
            · rename_i q hread
              obtain ⟨hq, hrest⟩ := ih h
              obtain ⟨hp, hread⟩ := readOperand_carries arg p q hread hq
              exact ⟨hp, by rw [hread]; exact hrest⟩

theorem ofCommand?_of_minus {arg : String} (h : arg.toList.head? = some '-') : Level.ofCommand? arg = none := by
  unfold Level.ofCommand?
  split
  case h_5 => rfl
  all_goals exact absurd h (by decide)

/-- An option with its value, as one argument. -/
def option (flag : Flag) (value : String) : String := "--" ++ flag.name ++ "=" ++ value

/-- What stands in front of the equals sign is the name, and what stands behind it is the value. -/
theorem readLong_option {flag : Flag} (hflag : flag = .theme ∨ flag = .appearance) (value : String) (p : Progress) :
    readLong .top (flag.name.toList ++ '=' :: value.toList) p = usage (p.attach flag value) := by
  have hequals : ∀ c ∈ flag.name.toList, (c != '=') = true :=
    List.all_eq_true.1 (by rcases hflag with rfl | rfl <;> decide)
  have hhead : ∀ c ∈ ('=' :: value.toList).head?, (c != '=') = false := by
    rintro c ⟨⟩
    rfl
  have hname := takeWhile_append_of_head? hequals hhead
  have hvalue := dropWhile_append_of_head? hequals hhead
  have hknown : Level.top.flags.find? (·.name = flag.name) = some flag := by rcases hflag with rfl | rfl <;> decide
  have htakes : flag.takesValue = true := by rcases hflag with rfl | rfl <;> rfl
  rw [readLong]
  simp only [hname, hvalue, String.ofList_toList, hknown, if_pos htakes]

/-- An option with its value is taken for what it gives. -/
theorem readLevel_option {flag : Flag} (hflag : flag = .theme ∨ flag = .appearance) {value : String}
    {args : List String} {g g' : Given} (hset : g.set (.flag flag) value = .ok g') :
    readLevel .top (option flag value :: args) { given := g } = readLevel .top args { given := g' } := by
  have hchars : (option flag value).toList = '-' :: '-' :: (flag.name.toList ++ '=' :: value.toList) := by
    simp [option]
  have hcommand : Level.ofCommand? (option flag value) = none := ofCommand?_of_minus (by rw [hchars]; rfl)
  have hhelp : option flag value ≠ "help" := fun h => by
    have hhead : (option flag value).toList.head? = some '-' := by rw [hchars]; rfl
    rw [h] at hhead
    exact absurd hhead (by decide)
  have hlong : readLong .top (flag.name.toList ++ '=' :: value.toList) { given := g } = .ok { given := g' } := by
    rw [readLong_option hflag, Progress.attach, Progress.settle, bind_ok, hset]
    rfl
  obtain ⟨c, cs, hcs⟩ : ∃ c cs, flag.name.toList ++ '=' :: value.toList = c :: cs :=
    List.exists_cons_of_ne_nil (by simp)
  rw [hcs] at hchars hlong
  rw [readLevel]
  simp only [hcommand, hchars, hhelp, and_false, ite_self, if_false, hlong]

theorem readLevel_options {flag : Flag} (hflag : flag = .theme ∨ flag = .appearance) {value : Option String}
    {args : List String} {g g' : Given} (hset : ∀ text, value = some text → g.set (.flag flag) text = .ok g')
    (hnone : value = none → g' = g) :
    readLevel .top (value.toList.map (option flag) ++ args) { given := g } = readLevel .top args { given := g' } := by
  cases value with
  | none => rw [hnone rfl, Option.toList_none, List.map_nil, List.nil_append]
  | some text => exact readLevel_option hflag (hset text rfl)

section StandIns

variable {env : Environment} {args : List String} {inv : Invocation}

/-- The text of a variable, unless the option that it may stand in for is given. -/
def standIn? (env : Environment) (name : String) (given : Option α) : Option String :=
  if given.isSome then none else env.text? name

/-- The variables of the options that are not given, written as those options. -/
def standIns (env : Environment) (given : Invocation) : List String :=
  (standIn? env Config.themeVariable given.theme).toList.map (option .theme) ++
    (standIn? env Config.appearanceVariable given.appearance).toList.map (option .appearance)

/-- What the variables of the options that are not given say. -/
def saidFor (env : Environment) (given : Invocation) : Given where
  theme := standIn? env Config.themeVariable given.theme
  appearance :=
    (standIn? env Config.appearanceVariable given.appearance).bind fun text => (Appearance.parse text).toOption

theorem readLevel_standIns {given : Invocation}
    (htaken : ∀ text, standIn? env Config.appearanceVariable given.appearance = some text →
      ∃ appearance, Appearance.parse text = .ok appearance) :
    readLevel .top (standIns env given ++ args) {} = readLevel .top args { given := saidFor env given } := by
  rw [standIns, List.append_assoc]
  calc _ = readLevel .top ((standIn? env Config.appearanceVariable given.appearance).toList.map (option .appearance)
        ++ args) { given := { theme := (saidFor env given).theme } } := by
        refine readLevel_options (.inl rfl) (fun text htext => ?_) fun hnone => ?_
        · simp [Given.set, saidFor, htext]
        · simp [saidFor, hnone]
    _ = _ := by
        refine readLevel_options (.inr rfl) (fun text htext => ?_) fun hnone => ?_
        · obtain ⟨appearance, hparse⟩ := htaken text htext
          simp [Given.set, saidFor, htext, hparse, Except.toOption]
        · simp [saidFor, hnone]

/-- What is given before the command, with what the variables say for it, comes to the same in the empty environment. -/
theorem invocation_atop (env : Environment) (outer inner : Given) (command : Command) :
    let given := invocation .empty outer inner command
    outer.Apart (saidFor env given) ∧
      invocation .empty (outer.atop (saidFor env given)) inner command = invocation env outer inner command := by
  refine ⟨⟨?_, ?_⟩, ?_⟩
  · cases htheme : outer.theme <;> simp [saidFor, standIn?, invocation, htheme]
  · cases happearance : outer.appearance <;> simp [saidFor, standIn?, invocation, happearance]
  · have htext (name : String) : Environment.empty.text? name = none := rfl
    rw [invocation, invocation, Invocation.mk.injEq]
    refine ⟨?_, ?_, rfl⟩
    · cases htheme : inner.theme <;> cases htheme' : outer.theme <;>
        simp [Given.atop, saidFor, standIn?, invocation, htheme, htheme', htext]
    · cases happearance : inner.appearance <;> cases happearance' : outer.appearance <;>
        simp [Given.atop, saidFor, standIn?, invocation, happearance, happearance', htext]

/-- **A variable stands in for an option as if it were written.** What a command line asks for in an environment is what
it asks for without one, with the variables of the options that it does not give written in front of it as those
options. -/
theorem parse_standIns (h : parse env args = .ok inv) :
    ∃ given, parse .empty args = .ok given ∧ parse .empty (standIns env given ++ args) = .ok inv := by
  obtain ⟨outer, inner, command, hgives, hjudged, -, rfl⟩ := parse_eq_ok_iff.1 h
  obtain ⟨-, hjudged⟩ := checkVariables_eq_ok_iff.1 hjudged
  refine ⟨invocation .empty outer inner command,
    parse_eq_ok_iff.2 ⟨outer, inner, command, hgives, checkVariables_empty, checkVariables_empty, rfl⟩, ?_⟩
  obtain ⟨hapart, hsame⟩ := invocation_atop env outer inner command
  have htaken : ∀ text, standIn? env Config.appearanceVariable (invocation .empty outer inner command).appearance =
      some text → ∃ appearance, Appearance.parse text = .ok appearance := by
    intro text htext
    obtain ⟨⟨-, hnone, -⟩, htext⟩ : (inner.appearance = none ∧ outer.appearance = none ∧ _) ∧
        env.text? Config.appearanceVariable = some text := by
      simpa [standIn?, invocation] using htext
    obtain ⟨_, appearance, ⟨⟩, hparse⟩ := hjudged hnone _ (Environment.get_of_text? htext)
    exact ⟨appearance, hparse⟩
  obtain ⟨before, level, rest, after, last, hbefore, houter, hafter, hinner, hcommand⟩ := hgives
  obtain ⟨hbase, hsettle⟩ := Progress.settle_carries houter hapart
  obtain ⟨-, hread⟩ := readLevel_carries hbefore hbase
  rw [← hsame]
  have hgives : Gives (standIns env (invocation .empty outer inner command) ++ args)
      (outer.atop (saidFor env (invocation .empty outer inner command))) inner command :=
    ⟨_, level, rest, after, last, (readLevel_standIns htaken).trans hread, hsettle, hafter, hinner, hcommand⟩
  exact parse_eq_ok_iff.2 ⟨_, inner, command, hgives, checkVariables_empty, checkVariables_empty, rfl⟩

end StandIns

end Highlight.CommandLine

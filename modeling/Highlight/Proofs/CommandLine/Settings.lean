/-
The settings of a command line. What the arguments give does not depend on the
environment (`parse_eq_ok_iff`): a variable only stands in for an option that no
part of the command line gives, and must then have a value that the option can
take (`checkVariables_eq_ok_iff`). The appearance that stands in is the one that the
settings of the environment have, but a theme stands in as it is written, with the
blanks around it and even if it is blank (`config_of_parse`).
-/
import Highlight.CommandLine.Run
import Highlight.Proofs.Except
import Highlight.Proofs.Text.Blank

namespace Highlight

theorem Environment.get_of_text? {env : Environment} {name text : String} (h : env.text? name = some text) :
    env.get name = some (.text text) := by
  obtain ⟨_ | _, hget, hvalue⟩ := Option.bind_eq_some_iff.1 h <;> cases hvalue
  exact hget

namespace CommandLine

/-- The arguments give the one before the command, the other to the command, and ask for the command. -/
def Gives (args : List String) (outer inner : Given) (command : Command) : Prop :=
  ∃ before level rest after last,
    readLevel .top args {} = .ok (before, some (level, rest)) ∧ before.settle = .ok outer ∧
    readLevel level rest {} = .ok (after, last) ∧ after.settle = .ok inner ∧ commandOf level inner = .ok command

section

variable {env : Environment} {args : List String} {inv : Invocation} {g : Given}

theorem usage_eq_ok_iff {r : Except UsageError α} {a : α} : usage r = .ok a ↔ r = .ok a := mapError_eq_ok_iff

theorem finish_eq_ok_iff {p : Progress} : finish env p = .ok g ↔ p.settle = .ok g ∧ checkVariables env g = .ok () := by
  simp only [finish, bind_eq_ok_iff, pure_eq_ok_iff]
  constructor
  · rintro ⟨given, hsettle, ⟨⟩, hcheck, rfl⟩
    exact ⟨hsettle, hcheck⟩
  · rintro ⟨hsettle, hcheck⟩
    exact ⟨g, hsettle, (), hcheck, rfl⟩

/-- **The environment has no part in what the arguments give.** It judges what each part leaves out, and stands in for
what both leave out. -/
theorem parse_eq_ok_iff :
    parse env args = .ok inv ↔ ∃ outer inner command, Gives args outer inner command ∧
      checkVariables env outer = .ok () ∧ checkVariables env inner = .ok () ∧
      inv = invocation env outer inner command := by
  rw [parse]
  simp only [bind_eq_ok_iff]
  constructor
  · rintro ⟨⟨before, _ | ⟨level, rest⟩⟩, hbefore, hparse⟩
    · simp only [bind_eq_ok_iff] at hparse
      obtain ⟨_, -, hmissing⟩ := hparse
      cases hmissing
    · simp only [bind_eq_ok_iff, usage_eq_ok_iff, finish_eq_ok_iff, pure_eq_ok_iff] at hparse
      obtain ⟨⟨after, last⟩, hafter, inner, ⟨hinner, hinner'⟩, command, hcommand, outer, ⟨houter, houter'⟩, rfl⟩ :=
        hparse
      exact ⟨outer, inner, command, ⟨before, level, rest, after, last, hbefore, houter, hafter, hinner, hcommand⟩,
        houter', hinner', rfl⟩
  · rintro ⟨outer, inner, command, ⟨before, level, rest, after, last, hbefore, houter, hafter, hinner, hcommand⟩,
      houter', hinner', rfl⟩
    refine ⟨(before, some (level, rest)), hbefore, ?_⟩
    simp only [bind_eq_ok_iff, usage_eq_ok_iff, finish_eq_ok_iff, pure_eq_ok_iff]
    exact ⟨(after, last), hafter, inner, ⟨hinner, hinner'⟩, command, hcommand, outer, ⟨houter, houter'⟩, rfl⟩

theorem checkVariables_eq_ok_iff :
    checkVariables env g = .ok () ↔
      (g.theme = none → ∀ bytes, env.get Config.themeVariable ≠ some (.bytes bytes)) ∧
      (g.appearance = none → ∀ value, env.get Config.appearanceVariable = some value →
        ∃ text appearance, value = .text text ∧ Appearance.parse text = .ok appearance) := by
  rw [checkVariables]
  -- A variable counts only where its option is not given, and then by whether it is set, and to a text.
  cases g.theme <;> cases g.appearance <;> rcases env.get Config.themeVariable with _ | ⟨_ | _⟩ <;>
    rcases env.get Config.appearanceVariable with _ | ⟨text | _⟩ <;>
    simp [pure, Except.pure, throw, throwThe, MonadExceptOf.throw]
  all_goals cases Appearance.parse text <;> simp

theorem checkVariables_empty : checkVariables .empty g = .ok () :=
  checkVariables_eq_ok_iff.2 ⟨by simp [Environment.empty], by simp [Environment.empty]⟩

/-- What is asked for is what the arguments alone ask for, with what the variables say of the options not given. A
variable that stands in has a text that its option takes. -/
theorem parse_empty_of_parse (h : parse env args = .ok inv) :
    ∃ given, parse .empty args = .ok given ∧ inv.command = given.command ∧
      (∀ theme, given.theme = some theme → inv.theme = some theme) ∧
      (given.theme = none → inv.theme = env.text? Config.themeVariable ∧
        ∀ bytes, env.get Config.themeVariable ≠ some (.bytes bytes)) ∧
      (∀ appearance, given.appearance = some appearance → inv.appearance = some appearance) ∧
      (given.appearance = none →
        inv.appearance =
          (env.text? Config.appearanceVariable).bind (fun text => (Appearance.parse text).toOption) ∧
        ∀ value, env.get Config.appearanceVariable = some value →
          ∃ text appearance, value = .text text ∧ Appearance.parse text = .ok appearance) := by
  obtain ⟨outer, inner, command, hgives, houter, -, rfl⟩ := parse_eq_ok_iff.1 h
  obtain ⟨htheme, happearance⟩ := checkVariables_eq_ok_iff.1 houter
  have hempty : parse .empty args =
      .ok ⟨inner.theme <|> outer.theme, inner.appearance <|> outer.appearance, command⟩ := by
    refine parse_eq_ok_iff.2 ⟨outer, inner, command, hgives, checkVariables_empty, checkVariables_empty, ?_⟩
    simp [invocation, Environment.text?, Environment.empty]
  refine ⟨_, hempty, rfl, ?_, fun hnone => ?_, ?_, fun hnone => ?_⟩ <;> dsimp only [invocation]
  · cases inner.theme <;> cases outer.theme <;> simp
  · obtain ⟨hinner, houter⟩ : inner.theme = none ∧ outer.theme = none := by simpa using hnone
    exact ⟨by simp [hinner, houter], htheme houter⟩
  · cases inner.appearance <;> cases outer.appearance <;> simp
  · obtain ⟨hinner, houter⟩ : inner.appearance = none ∧ outer.appearance = none := by simpa using hnone
    exact ⟨by simp [hinner, houter], happearance houter⟩

/-- The theme of the settings of an environment is the text of its variable exactly if that text is not empty and has no
blanks around it. -/
theorem theme_ofEnvironment_eq_iff {text : String} (h : env.text? Config.themeVariable = some text) :
    (Config.ofEnvironment env).1.theme = text ↔ text ≠ "" ∧ Text.trim text = text := by
  have htheme : (Config.ofEnvironment env).1.theme =
      if (Text.trim text).isEmpty then ({} : Config).theme else Text.trim text := by
    simp only [Config.ofEnvironment, Config.setting?, h, Option.map_some, Option.filter_some]
    cases (Text.trim text).isEmpty <;> rfl
  have hdefault : Text.trim ({} : Config).theme ≠ "" := by decide
  rw [htheme]
  by_cases hblank : Text.trim text = ""
  · rw [if_pos (String.isEmpty_iff.2 hblank)]
    constructor
    · rintro rfl
      exact absurd hblank hdefault
    · rintro ⟨hne, htrim⟩
      exact absurd (htrim.symm.trans hblank) hne
  · rw [if_neg (fun h => hblank (String.isEmpty_iff.1 h))]
    refine ⟨fun htrim => ⟨fun hempty => hblank (htrim.trans hempty), htrim⟩, And.right⟩

/-- **A command line and the environment come to the same settings, but for a theme with blanks.** What an option gives
is used. Where no option gives the appearance, it is that of the settings of the environment, as are the fallback
language and the trace in every case. Where no option gives the theme, it is the variable's text as it stands: the theme
of the settings of the environment exactly if that text, if there is one, is not empty and has no blanks around it. -/
theorem config_of_parse (h : parse env args = .ok inv) :
    ∃ given, parse .empty args = .ok given ∧ inv.command = given.command ∧
      let settings := inv.config env
      let library := (Config.ofEnvironment env).1
      (∀ theme, given.theme = some theme → settings.theme = theme) ∧
      (given.theme = none →
        settings.theme = (env.text? Config.themeVariable).getD ({} : Config).theme ∧
        (settings.theme = library.theme ↔
          ∀ text, env.text? Config.themeVariable = some text → text ≠ "" ∧ Text.trim text = text)) ∧
      (∀ appearance, given.appearance = some appearance → settings.appearance = appearance) ∧
      (given.appearance = none → settings.appearance = library.appearance) ∧
      settings.fallbackLanguage = library.fallbackLanguage ∧ settings.trace = library.trace := by
  obtain ⟨given, hgiven, hcommand, htheme, hnoTheme, happearance, hnoAppearance⟩ := parse_empty_of_parse h
  refine ⟨given, hgiven, hcommand, fun theme hsome => ?_, fun hnone => ?_, fun appearance hsome => ?_, fun hnone => ?_,
    rfl, rfl⟩
  · simp only [Invocation.config, htheme theme hsome, Option.getD_some]
  · obtain ⟨hinv, -⟩ := hnoTheme hnone
    cases htext : env.text? Config.themeVariable with
    | none =>
      have hlibrary : (Config.ofEnvironment env).1.theme = ({} : Config).theme := by
        simp [Config.ofEnvironment, Config.setting?, htext]
      simp [Invocation.config, hinv, htext, hlibrary]
    | some text =>
      have hsettings : (inv.config env).theme = text := by simp [Invocation.config, hinv, htext]
      refine ⟨hsettings, ?_⟩
      rw [hsettings, eq_comm, theme_ofEnvironment_eq_iff htext]
      simp
  · simp only [Invocation.config, happearance appearance hsome, Option.getD_some]
  · obtain ⟨hinv, htaken⟩ := hnoAppearance hnone
    cases htext : env.text? Config.appearanceVariable with
    | none => simp [Invocation.config, hinv, htext]
    | some text =>
      obtain ⟨_, appearance, ⟨⟩, hparse⟩ := htaken _ (Environment.get_of_text? htext)
      have hlibrary : (Config.ofEnvironment env).1.appearance = appearance := by
        simp [Config.ofEnvironment, Config.environmentAppearance, htext, hparse]
      simp [Invocation.config, hinv, htext, hparse, hlibrary, Except.toOption]

/-- Even where both parts give a theme, and no part gives an appearance: the theme of the command is used, over the blank
one of the environment, whose appearance is read without its blanks and capitals. -/
theorem config_of_parse_twice :
    let env := ((Environment.empty.put Config.themeVariable (some (.text " "))).put Config.appearanceVariable
      (some (.text " Light "))).put Config.traceVariable (some (.text "on"))
    let inv : Invocation := ⟨some "a b", some .light, .render (some "f.rs") none false⟩
    parse env ["-tplain", "render", "--theme=a b", "f.rs"] = .ok inv ∧
    inv.config env = { theme := "a b", appearance := .light, trace := true } := by
  intro env inv
  have hparse : parse env ["-tplain", "render", "--theme=a b", "f.rs"] = .ok inv := by decide +kernel
  obtain ⟨given, hgiven, -, htheme, -, -, hnoAppearance, hfallback, htrace⟩ := config_of_parse hparse
  have hempty : parse .empty ["-tplain", "render", "--theme=a b", "f.rs"] = .ok { inv with appearance := none } := by
    decide +kernel
  obtain rfl := Except.ok.inj (hgiven.symm.trans hempty)
  have hlibrary : (Config.ofEnvironment env).1 = { appearance := .light, trace := true } := by decide +kernel
  rw [hlibrary] at hnoAppearance hfallback htrace
  refine ⟨hparse, ?_⟩
  calc inv.config env
      = ⟨(inv.config env).theme, (inv.config env).appearance, (inv.config env).fallbackLanguage,
          (inv.config env).trace⟩ := rfl
    _ = _ := by rw [htheme _ rfl, hnoAppearance rfl, hfallback, htrace]

/-- A theme with blanks around it stands in with them for the option, where the settings of the environment have it
without them. -/
theorem config_of_parse_blanks :
    let env := Environment.empty.put Config.themeVariable (some (.text " InspiredGitHub "))
    let inv : Invocation := ⟨some " InspiredGitHub ", none, .render none (some "text.plain") false⟩
    parse env ["render", "-l", "text.plain"] = .ok inv ∧
    parse .empty ["render", "-l", "text.plain"] = .ok { inv with theme := none } ∧
    (inv.config env).theme = " InspiredGitHub " ∧ (Config.ofEnvironment env).1.theme = "InspiredGitHub" := by
  decide +kernel

end

end CommandLine

end Highlight

/-
What a catalogue finds under an id. A language answers to an id by its scope, by
an extension or by its name (`RegisteredLanguage.Answers`), and `Catalog.find?`
returns the one that is chosen among those that answer: by the best of the three,
and then the latest (`Catalog.find?_eq_iff`). A language that answers itself is
never without one that is found (`Catalog.exists_find?_eq_some`), which is why
all that the listing shows can be loaded.
-/
import Highlight.Cache
import Highlight.Catalog
import Highlight.Proofs.Scope

namespace Highlight

/-- What of a language an id may stand for. -/
inductive Catalog.Trait where
  | scope
  | extension
  | name
  deriving DecidableEq, Repr

/-- A scope goes before an extension, and an extension before a name. -/
def Catalog.Trait.rank : Catalog.Trait → Nat
  | .scope => 0
  | .extension => 1
  | .name => 2

namespace RegisteredLanguage

/-- An id stands for this trait of the language. Case counts in scopes alone. -/
def Answers (e : RegisteredLanguage π) (id : String) : Catalog.Trait → Prop
  | .scope => Scope.parse id = .ok e.scope
  | .extension => ∃ extension ∈ e.extensions, Text.lowerAscii extension = Text.lowerAscii id
  | .name => Text.lowerAscii e.name = Text.lowerAscii id

/-- The row of the language in the listing. -/
def listed (e : RegisteredLanguage π) : Listing := ⟨e.name, e.scope.name, e.extensions⟩

end RegisteredLanguage

namespace Catalog

variable {c : Catalog π} {id : String} {trait : Trait} {e : RegisteredLanguage π}

/-- The language that an id leads to: it answers by some trait, no language that was registered after it does so by the
same trait, and none at all by a better one. No language is chosen if none answers. -/
def Chosen (c : Catalog π) (id : String) : Option (RegisteredLanguage π) → Prop
  | some e => ∃ trait before after, c.languages = before ++ e :: after ∧ e.Answers id trait ∧
      (∀ later ∈ after, ¬ later.Answers id trait) ∧
      ∀ other ∈ c.languages, ∀ better : Trait, better.rank < trait.rank → ¬ other.Answers id better
  | none => ∀ e ∈ c.languages, ∀ trait, ¬ e.Answers id trait

/-- The listing has one row for each language. -/
theorem listing_perm (c : Catalog π) : c.listing.Perm (c.languages.map (·.listed)) := List.mergeSort_perm _ _

theorem last?_eq_some_iff {p : RegisteredLanguage π → Bool} :
    c.last? p = some e ↔
      ∃ before after, c.languages = before ++ e :: after ∧ p e = true ∧ ∀ later ∈ after, p later = false := by
  rw [last?, List.find?_eq_some_iff_append]
  constructor
  · rintro ⟨he, after, before, hreverse, hafter⟩
    refine ⟨before.reverse, after.reverse, ?_, he, fun later hlater => ?_⟩
    · rw [← List.reverse_reverse c.languages, hreverse, List.reverse_append, List.reverse_cons, List.append_assoc,
        List.singleton_append]
    · simpa using hafter later (List.mem_reverse.1 hlater)
  · rintro ⟨before, after, hlanguages, he, hafter⟩
    refine ⟨he, after.reverse, before.reverse, ?_, fun later hlater => ?_⟩
    · rw [hlanguages, List.reverse_append, List.reverse_cons, List.append_assoc, List.singleton_append]
    · simpa using hafter later (List.mem_reverse.1 hlater)

theorem last?_eq_none_iff {p : RegisteredLanguage π → Bool} :
    c.last? p = none ↔ ∀ e ∈ c.languages, p e = false := by
  simp [last?]

/-- The latest of the languages that answer by one trait. -/
def lastBy (c : Catalog π) (id : String) : Trait → Option (RegisteredLanguage π)
  | .scope => match Scope.parse id with
    | .ok scope => c.last? (·.scope = scope)
    | .error _ => none
  | .extension => c.last? (·.extensions.any (equalIgnoringCase · id))
  | .name => c.last? (equalIgnoringCase ·.name id)

theorem exists_lastBy_eq_last? (c : Catalog π) (id : String) (trait : Trait) :
    ∃ p : RegisteredLanguage π → Bool, c.lastBy id trait = c.last? p ∧ ∀ e, p e = true ↔ e.Answers id trait := by
  cases trait with
  | scope =>
    rw [lastBy]
    simp only [RegisteredLanguage.Answers]
    rcases Scope.parse id with e | scope
    · exact ⟨fun _ => false, (last?_eq_none_iff.2 fun _ _ => rfl).symm, by simp⟩
    · exact ⟨fun e => e.scope = scope, rfl, by simp [eq_comm]⟩
  | extension => exact ⟨_, rfl, by simp [RegisteredLanguage.Answers, equalIgnoringCase]⟩
  | name => exact ⟨_, rfl, by simp [RegisteredLanguage.Answers, equalIgnoringCase]⟩

theorem lastBy_eq_some_iff :
    c.lastBy id trait = some e ↔
      ∃ before after, c.languages = before ++ e :: after ∧ e.Answers id trait ∧
        ∀ later ∈ after, ¬ later.Answers id trait := by
  obtain ⟨p, hlast, hp⟩ := c.exists_lastBy_eq_last? id trait
  simp only [hlast, last?_eq_some_iff, ← hp, Bool.not_eq_true]

theorem lastBy_eq_none_iff : c.lastBy id trait = none ↔ ∀ e ∈ c.languages, ¬ e.Answers id trait := by
  obtain ⟨p, hlast, hp⟩ := c.exists_lastBy_eq_last? id trait
  simp only [hlast, last?_eq_none_iff, ← hp, Bool.not_eq_true]

/-- A choice, by what is latest for each of the traits. -/
theorem chosen_some_iff :
    c.Chosen id (some e) ↔
      ∃ trait, c.lastBy id trait = some e ∧ ∀ better : Trait, better.rank < trait.rank → c.lastBy id better = none := by
  simp only [Chosen, lastBy_eq_some_iff, lastBy_eq_none_iff]
  constructor
  · rintro ⟨trait, before, after, hlanguages, he, hafter, hbetter⟩
    refine ⟨trait, ⟨before, after, hlanguages, he, hafter⟩, fun better hrank other hother => ?_⟩
    exact hbetter other hother better hrank
  · rintro ⟨trait, ⟨before, after, hlanguages, he, hafter⟩, hbetter⟩
    refine ⟨trait, before, after, hlanguages, he, hafter, fun other hother better hrank => ?_⟩
    exact hbetter better hrank other hother

theorem chosen_none_iff : c.Chosen id none ↔ ∀ trait, c.lastBy id trait = none := by
  simp only [Chosen, lastBy_eq_none_iff]
  exact ⟨fun h trait e he => h e he trait, fun h e he trait => h trait e he⟩

theorem find?_of_blank (c : Catalog π) (hblank : Text.trim id = "") : c.find? id = none := by
  simp [find?, hblank]

theorem find?_trim (c : Catalog π) (id : String) : c.find? (Text.trim id) = c.find? id := by
  rw [find?, find?, Text.trim_trim]

theorem find?_eq_lastBy (c : Catalog π) (hne : Text.trim id ≠ "") :
    c.find? id = ((c.lastBy (Text.trim id) .scope).or
      ((c.lastBy (Text.trim id) .extension).or (c.lastBy (Text.trim id) .name))) := by
  rw [find?]
  generalize Text.trim id = id at hne
  rw [if_neg (by simpa using hne)]
  simp only [Option.orElse_eq_orElse, Option.orElse_eq_or]
  rfl

/-- **What is found is what is chosen** among all languages and all that an id may stand for. -/
theorem find?_eq_iff (c : Catalog π) (hne : Text.trim id ≠ "") {chosen : Option (RegisteredLanguage π)} :
    c.find? id = chosen ↔ c.Chosen (Text.trim id) chosen := by
  rw [c.find?_eq_lastBy hne]
  generalize Text.trim id = id
  cases chosen with
  | none =>
    rw [Option.or_eq_none_iff, Option.or_eq_none_iff, chosen_none_iff]
    constructor
    · rintro ⟨hscope, hextension, hname⟩ trait
      cases trait with
      | scope => exact hscope
      | extension => exact hextension
      | name => exact hname
    · exact fun h => ⟨h .scope, h .extension, h .name⟩
  | some e =>
    rw [Option.or_eq_some_iff, Option.or_eq_some_iff, chosen_some_iff]
    constructor
    · rintro (h | ⟨hscope, h | ⟨hextension, h⟩⟩)
      · exact ⟨.scope, h, fun better hrank => absurd hrank (Nat.not_lt_zero _)⟩
      · refine ⟨.extension, h, fun better hrank => ?_⟩
        cases better with
        | scope => exact hscope
        | extension | name => simp [Trait.rank] at hrank
      · refine ⟨.name, h, fun better hrank => ?_⟩
        cases better with
        | scope => exact hscope
        | extension => exact hextension
        | name => simp [Trait.rank] at hrank
    · rintro ⟨trait, h, hbetter⟩
      cases trait with
      | scope => exact .inl h
      | extension => exact .inr ⟨hbetter .scope (by decide), .inl h⟩
      | name => exact .inr ⟨hbetter .scope (by decide), .inr ⟨hbetter .extension (by decide), h⟩⟩

/-- If some language answers to an id that is not blank, then one is found. -/
theorem exists_find?_eq_some (hmem : e ∈ c.languages) (hanswers : e.Answers (Text.trim id) trait)
    (hne : Text.trim id ≠ "") : ∃ found, c.find? id = some found := by
  cases hfind : c.find? id with
  | some found => exact ⟨found, rfl⟩
  | none => exact absurd hanswers ((c.find?_eq_iff hne).1 hfind e hmem trait)

/-- An id that names the scope of some language leads to a language of this scope. -/
theorem exists_find?_eq_some_of_scope (hmem : e ∈ c.languages) (hscope : e.Answers (Text.trim id) .scope)
    (hne : Text.trim id ≠ "") : ∃ found, c.find? id = some found ∧ found.scope = e.scope := by
  obtain ⟨found, hfind⟩ := exists_find?_eq_some hmem hscope hne
  refine ⟨found, hfind, ?_⟩
  obtain ⟨trait, before, after, -, hfound, -, hbetter⟩ := (c.find?_eq_iff hne).1 hfind
  have hanswers : found.Answers (Text.trim id) .scope := by
    cases trait with
    | scope => exact hfound
    | extension | name => exact absurd hscope (hbetter e hmem .scope (by decide))
  exact Except.ok.inj (hanswers.symm.trans hscope)

theorem loadGrammar_eq (c : Catalog π) (id : String) (s : Unit) :
    c.backend.loadGrammar id s = (.ok ((c.find? id).map fun e => e.parser.grammar e.scope.name), s) := rfl

theorem loadGrammar_of_find? (h : c.find? id = some e) (s : Unit) :
    c.backend.loadGrammar id s = (.ok (some (e.parser.grammar e.scope.name)), s) := by
  rw [loadGrammar_eq, h, Option.map_some]

/-- The fallback is not asked for where a language is found. -/
theorem loadWithFallback_of_find? (h : c.find? id = some e) (fallback : String) (s : Session Unit) :
    (Cache.loadWithFallback c.backend id fallback s).1 = .ok (e.parser.grammar e.scope.name, .requested) := by
  rw [Cache.loadWithFallback, Session.loadGrammar, loadGrammar_of_find? h]

/-- **All that the listing shows can be loaded.** The listing has a row for each language. Under the scope that the row
shows a grammar of this scope is loaded, if the language has its scope from a text, and the scope shown has no blanks
around it and is not all dots. Under the name and each extension that are not blank and have no blanks around them some
grammar is loaded, and never the fallback. Blanks around an id do not matter, and a blank id leads to nothing; any other
leads to the one language that is chosen, if there is one. -/
theorem loads_listed (c : Catalog π) :
    c.listing.Perm (c.languages.map (·.listed)) ∧
    (∀ e ∈ c.languages,
      (∀ text, Scope.parse text = .ok e.scope → Text.trim e.scope.name = e.scope.name →
        (∃ char ∈ e.scope.name.toList, char ≠ '.') →
        ∃ grammar, c.backend.loadGrammar e.scope.name () = (.ok (some grammar), ()) ∧ grammar.scope = e.scope.name) ∧
      ∀ id, id = e.name ∨ id ∈ e.extensions → Text.trim id = id → id ≠ "" →
        ∃ grammar, c.backend.loadGrammar id () = (.ok (some grammar), ()) ∧
          ∀ fallback s, (Cache.loadWithFallback c.backend id fallback s).1 = .ok (grammar, .requested)) ∧
    ∀ id,
      c.backend.loadGrammar id = c.backend.loadGrammar (Text.trim id) ∧
      (Text.trim id = "" → c.backend.loadGrammar id () = (.ok none, ())) ∧
      (Text.trim id ≠ "" →
        ∃ chosen, c.Chosen (Text.trim id) chosen ∧ (∀ other, c.Chosen (Text.trim id) other → other = chosen) ∧
          c.backend.loadGrammar id () = (.ok (chosen.map fun e => e.parser.grammar e.scope.name), ())) := by
  refine ⟨c.listing_perm, fun e hmem => ⟨fun text hparse htrim hchar => ?_, fun id hid htrim hne => ?_⟩,
    fun id => ⟨?_, fun hblank => ?_, fun hne => ?_⟩⟩
  · have hne : e.scope.name ≠ "" := by
      rintro hempty
      simp [hempty] at hchar
    have hanswers : e.Answers (Text.trim e.scope.name) .scope := by
      rw [htrim]
      exact Scope.parse_name hparse htrim fun hempty => absurd hempty hne
    obtain ⟨found, hfind, hscope⟩ := exists_find?_eq_some_of_scope hmem hanswers (by rwa [htrim])
    exact ⟨_, loadGrammar_of_find? hfind (), congrArg Scope.name hscope⟩
  · have hanswers : ∃ trait, e.Answers (Text.trim id) trait := by
      rw [htrim]
      rcases hid with rfl | hid
      · exact ⟨.name, rfl⟩
      · exact ⟨.extension, id, hid, rfl⟩
    obtain ⟨trait, hanswers⟩ := hanswers
    obtain ⟨found, hfind⟩ := exists_find?_eq_some hmem hanswers (by rwa [htrim])
    exact ⟨_, loadGrammar_of_find? hfind (), fun fallback s => loadWithFallback_of_find? hfind fallback s⟩
  · funext s
    rw [loadGrammar_eq, loadGrammar_eq, c.find?_trim]
  · rw [loadGrammar_eq, c.find?_of_blank hblank, Option.map_none]
  · obtain ⟨found, hfound⟩ : ∃ found, c.find? id = found := ⟨_, rfl⟩
    refine ⟨found, (c.find?_eq_iff hne).1 hfound, fun other hother => ?_, ?_⟩
    · rw [← hfound, (c.find?_eq_iff hne).2 hother]
    · rw [loadGrammar_eq, hfound]

end Catalog

end Highlight

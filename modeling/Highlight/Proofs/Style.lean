/-
The fold of the rules that match a token. It may be made in pieces, each above
those that follow it (`Style.fold_append`), so it is one pass over the rules
(`Style.fold_eq_foldl`), and rules that set nothing do not count
(`Style.fold_filter`).

Its font bits are a union (`FontBits.union`), for which the order of the rules
does not matter. A single bit is a union only of itself and of the empty set
(`FontBits.union_eq_iff`), and so the emphasis of a span can be told from its
rules one by one (`Style.fold_rule_by_rule`).
-/
import Highlight.Proofs.Painting.Line
import Mathlib.Data.List.Perm.Basic

namespace Highlight

namespace FontBits

/-- All bits that are in some of the sets. -/
def union (fonts : List FontBits) : FontBits := fonts.foldl (· ||| ·) 0

/-- Whether the bits are those of one emphasis. -/
def Single (flag : FontBits) : Prop := flag = bold ∨ flag = italic ∨ flag = underline

variable {flag b : FontBits}

theorem and_or_self (a b : FontBits) : a &&& (a ||| b) = a := by
  rw [← UInt8.toBitVec_inj]
  ext i hi
  simp +contextual

theorem union_cons (b : FontBits) (fonts : List FontBits) : union (b :: fonts) = b ||| union fonts := by
  rw [union, List.foldl_cons, UInt8.or_comm 0 b, List.foldl_assoc, union]

theorem union_append (fonts fonts' : List FontBits) : union (fonts ++ fonts') = union fonts ||| union fonts' := by
  induction fonts with
  | nil => exact UInt8.zero_or.symm
  | cons b fonts ih => rw [List.cons_append, union_cons, ih, union_cons, UInt8.or_assoc]

theorem and_union_of_mem {fonts : List FontBits} (h : b ∈ fonts) : b &&& union fonts = b := by
  obtain ⟨before, after, rfl⟩ := List.append_of_mem h
  rw [union_append, union_cons, UInt8.or_comm, UInt8.or_assoc, and_or_self]

/-- A union of sets each of which is empty or all of `flag`. -/
theorem union_of_each {fonts : List FontBits} (h : ∀ b ∈ fonts, b = 0 ∨ b = flag) :
    union fonts = if flag ∈ fonts then flag else 0 := by
  induction fonts with
  | nil => rfl
  | cons b fonts ih =>
    rw [union_cons, ih fun b hb => h b (List.mem_cons_of_mem _ hb)]
    rcases h b List.mem_cons_self with rfl | rfl
    · -- The empty set is `flag` itself if `flag` has no bit.
      by_cases hzero : flag = 0
      · simp [hzero]
      · simp [hzero]
    · by_cases hmem : b ∈ fonts
      · simp [hmem]
      · simp [hmem]

/-- A single bit has no other parts than nothing and itself. -/
theorem Single.eq_zero_or_eq (hflag : Single flag) (h : b &&& flag = b) : b = 0 ∨ b = flag := by
  have hall : ∀ flag ∈ [bold, italic, underline], ∀ n ∈ List.range 256,
      UInt8.ofNat n &&& flag = UInt8.ofNat n → UInt8.ofNat n = 0 ∨ UInt8.ofNat n = flag := by decide +kernel
  have hmem : flag ∈ [bold, italic, underline] := by simpa [Single] using hflag
  have hb := hall flag hmem b.toNat (List.mem_range.2 b.toNat_lt)
  rw [UInt8.ofNat_toNat] at hb
  exact hb h

theorem Single.ne_zero (hflag : Single flag) : flag ≠ 0 := by
  rcases hflag with rfl | rfl | rfl <;> decide

/-- **A single bit is a union** only if some of the sets is that bit, and each of the others is it too or empty. -/
theorem union_eq_iff (hflag : Single flag) {fonts : List FontBits} :
    union fonts = flag ↔ flag ∈ fonts ∧ ∀ b ∈ fonts, b = 0 ∨ b = flag := by
  constructor
  · intro h
    have heach : ∀ b ∈ fonts, b = 0 ∨ b = flag := fun b hb => hflag.eq_zero_or_eq (h ▸ and_union_of_mem hb)
    refine ⟨?_, heach⟩
    by_contra hmem
    rw [union_of_each heach, if_neg hmem] at h
    exact hflag.ne_zero h.symm
  · rintro ⟨hmem, heach⟩
    rw [union_of_each heach, if_pos hmem]

end FontBits

/-- The style of a rule by itself. -/
def Rule.style (rule : Rule) : Style := ⟨rule.foreground, rule.background, rule.font.getD 0⟩

/-- Some of the rules asks for exactly this emphasis, and none for anything else. -/
def Rule.OnlyFont (flag : FontBits) (rules : List Rule) : Prop :=
  (∃ rule ∈ rules, rule.font = some flag) ∧
    ∀ rule ∈ rules, rule.font = none ∨ rule.font = some 0 ∨ rule.font = some flag

namespace Style

/-- A style above another one, which counts where the first sets no colour. Their bits add up. -/
def above (s t : Style) : Style := ⟨s.foreground.or t.foreground, s.background.or t.background, s.font ||| t.font⟩

@[simp]
theorem empty_above (s : Style) : above {} s = s := by
  simp [above]

theorem font_fold (rules : List Rule) : (fold rules).font = FontBits.union (rules.filterMap Rule.font) := rfl

theorem fold_append (xs ys : List Rule) : fold (xs ++ ys) = (fold xs).above (fold ys) := by
  rw [above, font_fold, font_fold, ← FontBits.union_append, ← List.filterMap_append, ← font_fold]
  simp only [fold, List.findSome?_append]

theorem fold_singleton (rule : Rule) : fold [rule] = rule.style := by
  rcases rule with ⟨_ | _, _ | _, _ | _⟩ <;> simp [fold, Rule.style]

theorem fold_cons (rule : Rule) (rules : List Rule) : fold (rule :: rules) = rule.style.above (fold rules) := by
  rw [← fold_singleton, ← fold_append, List.singleton_append]

/-- The fold as one pass: each rule sets what those before it have not set. -/
theorem fold_eq_foldl (rules : List Rule) : fold rules = rules.foldl (fun style rule => style.above rule.style) {} := by
  induction rules using List.reverseRecOn with
  | nil => rfl
  | append_singleton rules rule ih => rw [fold_append, fold_singleton, List.foldl_append, ← ih]; rfl

/-- Rules that set nothing may be left out. -/
theorem fold_filter (rules : List Rule) : fold (rules.filter (·.style ≠ {})) = fold rules := by
  induction rules with
  | nil => rfl
  | cons rule rules ih =>
    by_cases hidle : rule.style = {}
    · rw [List.filter_cons_of_neg (by simp [hidle]), ih, fold_cons, hidle, empty_above]
    · rw [List.filter_cons_of_pos (by simp [hidle]), fold_cons, fold_cons, ih]

/-- In whatever order the rules come, their font bits make the same union. -/
theorem font_fold_perm {xs ys : List Rule} (h : xs.Perm ys) : (fold xs).font = (fold ys).font :=
  (h.filterMap Rule.font).foldl_op_eq

theorem font_fold_eq_iff {flag : FontBits} (hflag : FontBits.Single flag) (rules : List Rule) :
    (fold rules).font = flag ↔ Rule.OnlyFont flag rules := by
  rw [font_fold, FontBits.union_eq_iff hflag, Rule.OnlyFont, List.mem_filterMap]
  refine and_congr_right fun _ => ?_
  simp only [List.mem_filterMap]
  constructor
  · intro h rule hrule
    cases hfont : rule.font with
    | none => exact .inl rfl
    | some bits => simpa using h bits ⟨rule, hrule, hfont⟩
  · rintro h bits ⟨rule, hrule, hfont⟩
    simpa [hfont] using h rule hrule

end Style

/-- Font bits make at most one emphasis. -/
theorem Emphasis.count_ofBits_le (bits : FontBits) :
    [(ofBits bits).bold, (ofBits bits).italic, (ofBits bits).underline].count true ≤ 1 := by
  by_cases hbold : bits = FontBits.bold
  · subst hbold
    decide
  · by_cases hitalic : bits = FontBits.italic
    · subst hitalic
      decide
    · rw [ofBits, beq_eq_false_iff_ne.2 hbold, beq_eq_false_iff_ne.2 hitalic]
      cases bits == FontBits.underline <;> decide

theorem Painter.emphasis_eq {p : Painter} {line : String} {token : Token} {span : Span}
    (h : (p.span line token).1 = .ok (some span)) :
    span.emphasis = .ofBits (Style.fold (p.theme.rulesFor token.scopes)).font := by
  rw [span_eq_recalled] at h
  rcases Theme.spanOf_cases h with ⟨hnone, -⟩ | ⟨_, _, _, -, -, -, hsome⟩
  · cases hnone
  · cases hsome
    rfl

/-- **The fold of rules, rule by rule.** It is one pass, in which each rule sets the colours that those before it have not
set and adds its bits. The fold of two lists is that of the first above that of the second. So rules that set nothing
change nothing, and the order of the rules does not change the bits. Of the three emphases a span has at most one:
that for which some of its rules asks, if none asks for anything else. -/
theorem Style.fold_rule_by_rule :
    (∀ rules : List Rule, fold rules = rules.foldl (fun style rule => style.above rule.style) {}) ∧
    (∀ xs ys : List Rule, fold (xs ++ ys) = (fold xs).above (fold ys)) ∧
    (∀ rules : List Rule, fold (rules.filter (·.style ≠ {})) = fold rules) ∧
    (∀ xs ys : List Rule, xs.Perm ys → (fold xs).font = (fold ys).font) ∧
    ∀ (p : Painter) (line : String) (token : Token) (span : Span), (p.span line token).1 = .ok (some span) →
      [span.emphasis.bold, span.emphasis.italic, span.emphasis.underline].count true ≤ 1 ∧
      (span.emphasis.bold = true ↔ Rule.OnlyFont FontBits.bold (p.theme.rulesFor token.scopes)) ∧
      (span.emphasis.italic = true ↔ Rule.OnlyFont FontBits.italic (p.theme.rulesFor token.scopes)) ∧
      (span.emphasis.underline = true ↔ Rule.OnlyFont FontBits.underline (p.theme.rulesFor token.scopes)) := by
  refine ⟨fold_eq_foldl, fold_append, fold_filter, fun _ _ => font_fold_perm, fun p line token span hspan => ?_⟩
  rw [Painter.emphasis_eq hspan]
  refine ⟨Emphasis.count_ofBits_le _, ?_, ?_, ?_⟩
  · rw [← font_fold_eq_iff (.inl rfl)]
    exact beq_iff_eq
  · rw [← font_fold_eq_iff (.inr (.inl rfl))]
    exact beq_iff_eq
  · rw [← font_fold_eq_iff (.inr (.inr rfl))]
    exact beq_iff_eq

/-- Bold twice and an empty set make a token bold, in any order; a bit without a name takes the emphasis away. -/
theorem Style.fold_of_bold_rules :
    let rules : List Rule := [{ font := some FontBits.bold }, {}, { font := some 0 }, { font := some FontBits.bold }]
    let theme : Theme :=
      { name := "t"
        rulesFor := fun scopes => if "strange" ∈ scopes then { font := some 128 } :: rules else rules
        colorText := fun _ => none }
    let p : Painter := { theme, appearance := .dark, known := [], lookups := [] }
    (fold rules).font = (fold rules.reverse).font ∧
      Rule.OnlyFont FontBits.bold rules ∧
      ¬ Rule.OnlyFont FontBits.bold ({ font := some 128 } :: rules) ∧
      (p.span "if" ⟨0, 2, ["keyword"]⟩).1 = .ok (some ⟨"if", .white, none, { bold := true }⟩) ∧
      (p.span "if" ⟨0, 2, ["keyword", "strange"]⟩).1 = .ok (some ⟨"if", .white, none, {}⟩) := by
  intro rules theme p
  have hspan : (p.span "if" ⟨0, 2, ["keyword"]⟩).1 = .ok (some ⟨"if", .white, none, { bold := true }⟩) := by
    decide +kernel
  have hspan' : (p.span "if" ⟨0, 2, ["keyword", "strange"]⟩).1 = .ok (some ⟨"if", .white, none, {}⟩) := by
    decide +kernel
  obtain ⟨-, -, -, hperm, hemphasis⟩ := fold_rule_by_rule
  refine ⟨hperm _ _ (List.reverse_perm rules).symm, (hemphasis p _ _ _ hspan).2.1.1 rfl, fun h => ?_, hspan, hspan'⟩
  cases (hemphasis p _ _ _ hspan').2.1.2 h

end Highlight

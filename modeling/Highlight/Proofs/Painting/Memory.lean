/-
Work on one painter. Whatever a painter is asked to do, one thing after the
other, and whatever of it fails, each outcome is that of a new painter
(`Painter.After.performAll`). The theme is asked for the colours that the work
needs, less those that an earlier request decoded
(`Theme.lookupsFor_eq_filter`): a good colour is looked up once, one that fails
every time (`Painter.performAll_new`).
-/
import Highlight.Proofs.Painting

namespace Highlight

namespace Theme

variable {theme : Theme} {ref : ColorRef} {asked : List ColorRef}

/-- The lookups are the requests, in their order, less those for a colour that an earlier request decoded. -/
theorem lookupsFor_eq_filter (theme : Theme) (asked : List ColorRef) :
    theme.lookupsFor asked =
      (asked.zipIdx.filter fun request => request.1 ∉ asked.take request.2 ∨ theme.fails request.1).map (·.1) := by
  induction asked using List.reverseRecOn with
  | nil => rfl
  | append_singleton asked ref ih =>
    have hearlier : (asked.zipIdx.filter fun request =>
          request.1 ∉ (asked ++ [ref]).take request.2 ∨ theme.fails request.1) =
        asked.zipIdx.filter fun request => request.1 ∉ asked.take request.2 ∨ theme.fails request.1 := by
      refine List.filter_congr fun request hrequest => ?_
      obtain ⟨-, hlt, -⟩ := List.mem_zipIdx hrequest
      rw [List.take_append_of_le_length (by omega)]
    rw [lookupsFor_append_singleton, ih, List.zipIdx_append, List.filter_append, List.map_append, hearlier]
    congr 1
    by_cases hmem : ref ∈ asked <;> cases hfails : theme.fails ref <;> simp [hmem, hfails]

theorem count_lookupsFor_of_fails (hfails : theme.fails ref = true) (asked : List ColorRef) :
    (theme.lookupsFor asked).count ref = asked.count ref := by
  induction asked with
  | nil => rfl
  | cons first asked ih =>
    rw [lookupsFor, List.count_cons, List.count_cons]
    split
    · rw [ih]
    · rename_i hfirst
      have hne : ref ≠ first := fun heq => hfirst (heq ▸ hfails)
      rw [List.count_filter (by simpa using hne), ih]

theorem count_lookupsFor_of_not_fails (hfails : theme.fails ref = false) (asked : List ColorRef) :
    (theme.lookupsFor asked).count ref = if ref ∈ asked then 1 else 0 := by
  induction asked with
  | nil => rfl
  | cons first asked ih =>
    rw [lookupsFor]
    by_cases heq : ref = first
    · subst heq
      have hgone : ((theme.lookupsFor asked).filter (· ≠ ref)).count ref = 0 := List.count_eq_zero.2 (by simp)
      rw [hfails, if_neg Bool.false_ne_true, List.count_cons_self, hgone, if_pos List.mem_cons_self]
    · rw [List.count_cons_of_ne (Ne.symm heq)]
      have hrest : ref ∈ first :: asked ↔ ref ∈ asked := by simp [heq]
      simp only [hrest, ← ih]
      split
      · rfl
      · exact List.count_filter (by simpa using heq)

end Theme

namespace Painter

/-- What a painter may be asked to do. -/
inductive Op (κ : Type) where
  | style (scopes : List String)
  | span (text : String) (token : Token)
  /-- Paints a line into a sink that holds `k`. -/
  | line (sink : Sink κ) (text : String) (tokens : List Token) (k : κ)

/-- What comes of it. -/
inductive Outcome (κ : Type) where
  | style (style : Style)
  | span (result : Except ColorError (Option Span))
  | line (result : Except ColorError Unit) (k : κ)

/-- The colours that an operation needs, up to the first that fails: for each token the foreground, then the
background. -/
def Op.requests (theme : Theme) : Op κ → List ColorRef
  | .style _ => []
  | .span text token => throughFirst theme.fails (theme.colorsOf text token)
  | .line _ text tokens _ => throughFirst theme.fails (tokens.flatMap (theme.colorsOf text))

/-- What comes of an operation when each colour is decoded anew. -/
def Op.outcome (theme : Theme) (appearance : Appearance) : Op κ → Outcome κ
  | .style scopes => .style (theme.styleOf scopes)
  | .span text token => .span (theme.spanOf appearance text token)
  | .line sink text tokens k =>
    .line (theme.paint appearance text tokens).2 (sink.items k (theme.paint appearance text tokens).1)

def perform (p : Painter) : Op κ → Outcome κ × Painter
  | .style scopes => (.style (p.theme.styleOf scopes), p)
  | .span text token =>
    match p.span text token with
    | (result, p) => (.span result, p)
  | .line sink text tokens k =>
    match Painter.line sink text tokens p k with
    | (result, p, k) => (.line result k, p)

/-- Performs operations one after the other, whether or not they fail. -/
def performAll : Painter → List (Op κ) → List (Outcome κ) × Painter
  | p, [] => ([], p)
  | p, op :: ops => ((p.perform op).1 :: ((p.perform op).2.performAll ops).1, ((p.perform op).2.performAll ops).2)

variable {p : Painter} {theme : Theme} {appearance : Appearance} {asked : List ColorRef}

theorem After.perform (h : p.After theme appearance asked) (op : Op κ) :
    ∃ q : Painter, p.perform op = (op.outcome theme appearance, q) ∧
      q.After theme appearance (asked ++ op.requests theme) := by
  cases op with
  | style scopes => exact ⟨p, by rw [Painter.perform, h.theme_eq]; rfl, by simpa [Op.requests] using h⟩
  | span text token =>
    obtain ⟨q, hq, hafter⟩ := h.span text token
    exact ⟨q, by rw [Painter.perform, hq]; rfl, hafter⟩
  | line sink text tokens k =>
    obtain ⟨q, hq, hafter⟩ := h.line sink text tokens k
    exact ⟨q, by rw [Painter.perform, hq]; rfl, hafter⟩

/-- Each outcome is as it would be without a memory, and the painter has been asked for what each operation
requests. -/
theorem After.performAll (h : p.After theme appearance asked) (ops : List (Op κ)) :
    ∃ q : Painter, p.performAll ops = (ops.map (Op.outcome theme appearance), q) ∧
      q.After theme appearance (asked ++ ops.flatMap (Op.requests theme)) := by
  induction ops generalizing p asked with
  | nil => exact ⟨p, rfl, by simpa using h⟩
  | cons op ops ih =>
    obtain ⟨q, hq, hafter⟩ := h.perform op
    obtain ⟨r, hr, hafter'⟩ := ih hafter
    refine ⟨r, ?_, ?_⟩
    · rw [Painter.performAll, hq, hr, List.map_cons]
    · rw [List.flatMap_cons, ← List.append_assoc]
      exact hafter'

/-- **One painter for all does the same as a new one each time**, and asks the theme for exactly what is requested, less
the colours that an earlier request decoded. So a colour that decodes is looked up once, if it is requested at all,
and one that does not as often as it is requested. -/
theorem performAll_new (theme : Theme) (appearance : Appearance) (ops : List (Op κ)) :
    let new : Painter := { theme, appearance }
    let requests := ops.flatMap (Op.requests theme)
    let lookups := (new.performAll ops).2.lookups
    (new.performAll ops).1 = ops.map (fun op => (new.perform op).1) ∧
    lookups = (requests.zipIdx.filter fun request =>
      request.1 ∉ requests.take request.2 ∨ theme.fails request.1).map (·.1) ∧
    ∀ ref, lookups.count ref =
      if theme.fails ref then requests.count ref else if ref ∈ requests then 1 else 0 := by
  intro new requests lookups
  have hnew : new.After theme appearance [] := .new theme appearance
  obtain ⟨q, hq, hafter⟩ := hnew.performAll ops
  have hlookups : lookups = theme.lookupsFor requests := by
    show (new.performAll ops).2.lookups = _
    rw [hq, hafter.lookups_eq, List.nil_append]
  refine ⟨?_, ?_, fun ref => ?_⟩
  · rw [hq]
    refine List.map_congr_left fun op _ => ?_
    obtain ⟨r, hr, -⟩ := hnew.perform op
    rw [hr]
  · rw [hlookups, Theme.lookupsFor_eq_filter]
  · rw [hlookups]
    cases hfails : theme.fails ref with
    | true => exact Theme.count_lookupsFor_of_fails hfails requests
    | false => exact Theme.count_lookupsFor_of_not_fails hfails requests

end Painter

end Highlight

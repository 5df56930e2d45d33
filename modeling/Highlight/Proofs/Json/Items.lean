/-
Documents from their JSON. Of each element of the array its item is read off, by the
names of its fields (`Item.ofJson?`), and the element of an item gives that item back
(`Item.ofJson?_json`). The text of the array gives the array back, so the text that is
printed for a document gives its items, and with them the terminal text of the same
rendering (`Highlighter.read_print`).
-/
import Highlight.Config.Json
import Highlight.Proofs.Appearances
import Highlight.Proofs.Json.RoundTrip
import Highlight.Proofs.Printing

namespace Highlight

namespace Json

/-- The value of a field of an object. -/
def field? (v : Json) (name : String) : Option Json :=
  match v with
  | object fields => fields.lookup name
  | _ => none

def byte? : Json → Option UInt8
  | number mantissa 0 => if 0 ≤ mantissa ∧ mantissa < 256 then some (UInt8.ofNat mantissa.toNat) else none
  | _ => none

end Json

def Color.ofJson? (v : Json) : Option Color := do
  let red ← (← v.field? "r").byte?
  let green ← (← v.field? "g").byte?
  let blue ← (← v.field? "b").byte?
  return { red, green, blue }

/-- The colour behind a text, of which there may be none. -/
def Color.background? : Json → Option (Option Color)
  | .null => some none
  | v => (ofJson? v).map some

def Emphasis.ofJson? (v : Json) : Option Emphasis := do
  let bold ← Config.bool? (← v.field? "bold")
  let italic ← Config.bool? (← v.field? "italic")
  let underline ← Config.bool? (← v.field? "underline")
  return { bold, italic, underline }

def Span.ofJson? (v : Json) : Option Span := do
  let text ← Config.text? (← v.field? "text")
  let foreground ← Color.ofJson? (← v.field? "foreground")
  let background ← Color.background? (← v.field? "background")
  let emphasis ← Emphasis.ofJson? (← v.field? "attributes")
  return { text, foreground, background, emphasis }

/-- The item that an element stands for, by its kind. -/
def Item.ofJson? (v : Json) : Option Item := do
  match ← Config.text? (← v.field? "kind") with
  | "span" => (Span.ofJson? v).map span
  | "line_break" => some lineBreak
  | _ => none

/-- The items that a text stands for, if it is the text of an array of them. -/
def Document.items? (printed : String) : Option (List Item) := do
  match ← Json.read printed with
  | .array elements => elements.mapM Item.ofJson?
  | _ => none

theorem Json.byte?_nat (c : UInt8) : (nat c.toNat).byte? = some c := by
  have hlt : c.toNat < 256 := c.toNat_lt
  rw [nat, byte?, if_pos ⟨by omega, by omega⟩, Int.toNat_natCast, UInt8.ofNat_toNat]

theorem Color.ofJson?_json (c : Color) : ofJson? c.json = some c := by
  have hred : c.json.field? "r" = some (.nat c.red.toNat) := rfl
  have hgreen : c.json.field? "g" = some (.nat c.green.toNat) := rfl
  have hblue : c.json.field? "b" = some (.nat c.blue.toNat) := rfl
  simp only [ofJson?, hred, hgreen, hblue, Option.bind_eq_bind, Option.bind_some, Json.byte?_nat]
  rfl

theorem Emphasis.ofJson?_json (e : Emphasis) : ofJson? e.json = some e := rfl

theorem Color.background?_json (background : Option Color) :
    background? (match background with | some c => c.json | none => .null) = some background := by
  cases background with
  | none => rfl
  | some c =>
    dsimp only
    rw [background?, Color.ofJson?_json]
    · rfl
    · rintro ⟨⟩

/-- The fields of the element of a span. -/
theorem Item.field?_span (s : Span) :
    (span s).json.field? "kind" = some (.text "span") ∧ (span s).json.field? "text" = some (.text s.text) ∧
    (span s).json.field? "foreground" = some s.foreground.json ∧
    (span s).json.field? "background" = some (match s.background with | some c => c.json | none => .null) ∧
    (span s).json.field? "attributes" = some s.emphasis.json :=
  ⟨rfl, rfl, rfl, rfl, rfl⟩

theorem Span.ofJson?_json (s : Span) : ofJson? (Item.span s).json = some s := by
  obtain ⟨-, htext, hforeground, hbackground, hattributes⟩ := Item.field?_span s
  simp only [ofJson?, htext, hforeground, hbackground, hattributes, Option.bind_eq_bind, Option.bind_some, Config.text?,
    Color.ofJson?_json, Color.background?_json, Emphasis.ofJson?_json]
  rfl

/-- **An element stands for the item that it was made of.** -/
theorem Item.ofJson?_json (item : Item) : ofJson? item.json = some item := by
  cases item with
  | lineBreak => rfl
  | span s =>
    simp only [ofJson?, (field?_span s).1, Option.bind_eq_bind, Option.bind_some, Config.text?, Span.ofJson?_json]
    rfl

/-- What an element says of an item: its kind, and of a span its text, its colours and its emphasis. That there is no
colour behind the text is said by null. -/
def Item.Element (v : Json) : Item → Prop
  | lineBreak => v.field? "kind" = some (.text "line_break")
  | span s =>
    v.field? "kind" = some (.text "span") ∧ v.field? "text" = some (.text s.text) ∧
    (v.field? "foreground").bind Color.ofJson? = some s.foreground ∧
    (v.field? "background" = some .null ↔ s.background = none) ∧
    (∀ c, s.background = some c → (v.field? "background").bind Color.ofJson? = some c) ∧
    (v.field? "attributes").bind Emphasis.ofJson? = some s.emphasis

theorem Item.element_json (item : Item) : Element item.json item := by
  cases item with
  | lineBreak => rfl
  | span s =>
    obtain ⟨hkind, htext, hforeground, hbackground, hattributes⟩ := field?_span s
    simp only [Element, hkind, htext, hforeground, hbackground, hattributes, Option.bind_some, Color.ofJson?_json,
      Emphasis.ofJson?_json, true_and, and_true]
    cases s.background with
    | none => simp
    | some c =>
      have hnull : c.json ≠ .null := by rintro ⟨⟩
      simp [Color.ofJson?_json, hnull]

namespace Document

theorem read_print (doc : Document) : Json.read (doc.print .json) = some (.array (doc.items.map Item.json)) :=
  Json.read_pretty doc.json

/-- **The text of a document stands for its items.** -/
theorem items?_print (doc : Document) : items? (doc.print .json) = some doc.items := by
  have hitems : ∀ items : List Item, (items.map Item.json).mapM Item.ofJson? = some items := by
    intro items
    induction items with
    | nil => rfl
    | cons item items ih =>
      rw [List.map_cons, List.mapM_cons, Item.ofJson?_json, ih]
      rfl
  simp only [items?, read_print, Option.bind_eq_bind, Option.bind_some, hitems]

end Document

namespace Highlighter

theorem print_of_render {h : Highlighter β σ} {code language : String} {doc : Document}
    (hdoc : (h.renderDefault code language).result = .ok doc) (format : Format) :
    (h.print format code language).1 = .ok (doc.print format) := by
  rw [print, hdoc]
  rfl

/-- **The JSON of a rendering carries the whole document.** Where a text is rendered to a document, its JSON is printed,
and is the text of an array with one element for each item, in order. The items can be read off of it, so no document
with other items has the same JSON. Their terminal text is what the same renderer prints for a terminal, in place of the
JSON or after it. -/
theorem items_of_print_json {h : Highlighter β σ} {code language : String} {doc : Document}
    (hdoc : (h.renderDefault code language).result = .ok doc) :
    ∃ printed elements,
      (h.print .json code language).1 = .ok printed ∧
      Json.read printed = some (.array elements) ∧ List.Forall₂ Item.Element elements doc.items ∧
      Document.items? printed = some doc.items ∧
      (∀ other : Document, other.print .json = printed → other.items = doc.items) ∧
      (h.print .terminal code language).1 = .ok (Ansi.text doc.items) ∧
      ((h.print .json code language).2.print .terminal code language).1 = .ok (Ansi.text doc.items) := by
  refine ⟨_, _, print_of_render hdoc .json, doc.read_print, ?_, doc.items?_print, fun other hother => ?_,
    print_of_render hdoc .terminal, ?_⟩
  · rw [List.forall₂_map_left_iff]
    exact List.forall₂_same.2 fun item _ => item.element_json
  · have hitems := other.items?_print
    rw [hother, doc.items?_print] at hitems
    exact (Option.some.inj hitems).symm
  · obtain ⟨-, hconfig, -⟩ := h.render_highlighter code language h.config.theme h.config.appearance
    obtain ⟨entry, -, -, -, hentry, -⟩ := h.result_eq_ok_iff.1 hdoc
    have hagain : ((h.renderDefault code language).highlighter.renderDefault code language).result = .ok doc := by
      rw [renderDefault, renderDefault, hconfig, h.render_again code language _ _ _ hentry]
      exact hdoc
    exact print_of_render hagain .terminal

/-- Even where the text has quotation marks, backslashes, control characters and characters outside the first plane. -/
theorem items_of_print_json_escaped :
    let h := new Catalog.straying.backend { theme := "plain" } ()
    let items : List Item := [.span ⟨"é\"\\\x01😀", ⟨1, 2, 3⟩, none, {}⟩, .lineBreak]
    ∃ printed, (h.print .json "é\"\\\x01😀" "st").1 = .ok printed ∧
      Document.items? printed = some items ∧
      (h.print .terminal "é\"\\\x01😀" "st").1 = .ok (Ansi.text items) := by
  intro h items
  have hdoc : (h.renderDefault "é\"\\\x01😀" "st").result = .ok { items, source := some .requested } := by
    decide +kernel
  obtain ⟨printed, elements, hprinted, -, -, hitems, -, hshown, -⟩ := items_of_print_json hdoc
  exact ⟨printed, hprinted, hitems, hshown⟩

end Highlighter

end Highlight

/-
Rendered documents: styled spans and line breaks, and where their grammar came
from. A `Sink` takes the items in one by one; a document can be replayed into
any sink.
-/
import Highlight.Style

namespace Highlight

/-- A piece of one line with the colours and the emphasis it is shown in. -/
structure Span where
  text : String
  foreground : Color
  background : Option Color := none
  emphasis : Emphasis := {}
  deriving DecidableEq, Repr

inductive Item where
  | span (span : Span)
  | lineBreak
  deriving DecidableEq, Repr

namespace Item

def span? : Item → Option Span
  | span s => some s
  | lineBreak => none

def isLineBreak : Item → Bool
  | span _ => false
  | lineBreak => true

end Item

/-- What takes in spans and line breaks: how each changes a state of type `κ`. -/
structure Sink (κ : Type) where
  span : κ → Span → κ
  lineBreak : κ → κ

namespace Sink

def item (sink : Sink κ) (k : κ) : Item → κ
  | .span s => sink.span k s
  | .lineBreak => sink.lineBreak k

/-- Takes in the items one after the other. -/
def items (sink : Sink κ) (k : κ) (items : List Item) : κ := items.foldl sink.item k

/-- The sink that keeps every item, in order. -/
def collect : Sink (Array Item) where
  span k s := k.push (.span s)
  lineBreak k := k.push .lineBreak

theorem toList_collect (collected : Array Item) (items : List Item) :
    (collect.items collected items).toList = collected.toList ++ items := by
  induction items generalizing collected with
  | nil => simp [items]
  | cons item items ih =>
    rw [Sink.items, List.foldl_cons, ← Sink.items, ih]
    cases item <;> simp [Sink.item, Sink.collect]

end Sink

/-! ## Documents -/

/-- Where a grammar came from: the language that was asked for, or the fallback language. -/
inductive Source where
  | requested
  | fallback
  deriving DecidableEq, Repr

structure Document where
  items : List Item := []
  source : Option Source := none
  deriving DecidableEq, Repr

namespace Document

def spans (doc : Document) : List Span := doc.items.filterMap Item.span?

def lineCount (doc : Document) : Nat := doc.items.countP Item.isLineBreak

/-- Gives the items of the document to a sink, in order. -/
def replay (doc : Document) (sink : Sink κ) (k : κ) : κ := sink.items k doc.items

end Document

end Highlight

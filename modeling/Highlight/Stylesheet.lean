/-
Stylesheets: themes as lists of selectors with colours and font styles.
`Sheet.theme` flattens one into rules over a table of swatches, the texts
of its distinct colours in order of first use; the rules that match a token are
those whose selectors match its scopes, the strongest first and of equally
strong ones the later first. Selectors may be of any type that fits scopes with
powers in a linear order; those of a `Stylesheet` are `Selector`s.
-/
import Highlight.Backend
import Highlight.Scope.Selector

namespace Highlight

/-- A colour with its opacity. Only the colour is used. -/
structure Paint where
  color : Color
  alpha : UInt8
  deriving DecidableEq, Repr

/-- Font styles in the numbering of stylesheets: bold 1, underline 2, italic 4. -/
structure SheetFont where
  bits : UInt8
  deriving DecidableEq, Repr

/-- The same font styles as font bits; other bits are dropped. -/
def SheetFont.toBits (font : SheetFont) : FontBits :=
  (if font.bits &&& 1 = 1 then FontBits.bold else 0)
    ||| (if font.bits &&& 4 = 4 then FontBits.italic else 0)
    ||| (if font.bits &&& 2 = 2 then FontBits.underline else 0)

/-- One entry of a stylesheet, with a selector of type `ς`. -/
structure StyleItem (ς : Type) where
  selector : ς
  foreground : Option Paint := none
  background : Option Paint := none
  font : Option SheetFont := none
  deriving DecidableEq, Repr

/-- The texts of colours, each once; a colour is referred to by its place. -/
structure Swatches where
  texts : List String := []
  /-- The reference that each text was given. -/
  refs : List (String × ColorRef) := []
  deriving DecidableEq, Repr

namespace Swatches

/-- The reference of a colour, which is added if it is new. -/
def add (s : Swatches) (c : Color) : ColorRef × Swatches :=
  let text := c.toHex
  match s.refs.lookup text with
  | some ref => (ref, s)
  | none =>
    let ref : ColorRef := ⟨UInt32.ofNat s.texts.length⟩
    (ref, { texts := s.texts ++ [text], refs := (text, ref) :: s.refs })

def add? (s : Swatches) : Option Paint → Option ColorRef × Swatches
  | some paint => let (ref, s) := s.add paint.color; (some ref, s)
  | none => (none, s)

/-- The rule of an entry. Its foreground is added before its background. -/
def rule (s : Swatches) (item : StyleItem ς) : Rule × Swatches :=
  let (foreground, s) := s.add? item.foreground
  let (background, s) := s.add? item.background
  (⟨foreground, background, item.font.map SheetFont.toBits⟩, s)

/-- The rules of entries, each with its selector, and the swatches they use. -/
def rules (s : Swatches) : List (StyleItem ς) → List (ς × Rule) × Swatches
  | [] => ([], s)
  | item :: items =>
    let (rule, s) := s.rule item
    let (rest, s) := s.rules items
    ((item.selector, rule) :: rest, s)

end Swatches

/-- A rule that matches, with its power and its place among all rules. -/
structure Match (π : Type) where
  power : π
  place : Nat
  rule : Rule
  deriving DecidableEq, Repr

/-- A stronger match comes before a weaker one, and of equally strong ones the later rule first. -/
def Match.before [Std.LinearOrderPackage π] (a b : Match π) : Bool :=
  b.power < a.power || (a.power == b.power && b.place ≤ a.place)

/-- A stylesheet made ready for matching. -/
structure FlatSheet (ς : Type) where
  rules : List (ς × Rule)
  /-- The texts of the colours that the rules refer to. -/
  texts : List String
  deriving DecidableEq, Repr

namespace FlatSheet

/-- The rules whose selectors match a stack of scopes, in their order of declaration. -/
def found [Selects ς π] (sheet : FlatSheet ς) (stack : List Scope) : List (Match π) :=
  sheet.rules.zipIdx.filterMap fun ((selector, rule), place) =>
    (Selects.power selector stack).map fun power => ⟨power, place, rule⟩

/-- The scopes that names stand for. Names that are too long are dropped. -/
def stackOf (names : List String) : List Scope := names.filterMap fun name => (Scope.parse name).toOption

def rulesFor [Selects ς π] [Std.LinearOrderPackage π] (sheet : FlatSheet ς) (names : List String) : List Rule :=
  ((sheet.found (stackOf names)).mergeSort Match.before).map Match.rule

def colorText (sheet : FlatSheet ς) (ref : ColorRef) : Option String := sheet.texts[ref.index.toNat]?

end FlatSheet

/-- A stylesheet with selectors of type `ς`. -/
structure Sheet (ς : Type) where
  items : List (StyleItem ς) := []
  deriving DecidableEq, Repr

abbrev Stylesheet := Sheet Selector

namespace Sheet

def flatten (sheet : Sheet ς) : FlatSheet ς :=
  let (rules, swatches) := Swatches.rules {} sheet.items
  { rules, texts := swatches.texts }

/-- The theme of a stylesheet under a name. -/
def theme [Selects ς π] [Std.LinearOrderPackage π] (sheet : Sheet ς) (name : String) : Theme :=
  let flat := sheet.flatten
  { name, rulesFor := flat.rulesFor, colorText := flat.colorText }

end Sheet

end Highlight

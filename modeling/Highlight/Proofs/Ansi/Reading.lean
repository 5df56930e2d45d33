/-
Reading terminal text. `read` gives back the items that a terminal text shows,
unless they show an escape character themselves (`read_replay`): their texts and
where each begins and ends, every colour, the emphasis and the line breaks.

An escape character stands before each sequence and nowhere else, so terminal
text falls apart at them: line breaks first, and then by turns a sequence with
the text of a span, and a reset with the line breaks that follow it.
-/
import Highlight.Document
import Highlight.Proofs.Ansi.Text
import Highlight.Proofs.Text.Lines

namespace Highlight.Ansi

/-- The number that decimal digits stand for. -/
def readNumber (cs : List Char) : Option Nat :=
  if cs ≠ [] ∧ cs.all Char.isDigit then some (Nat.ofDigitChars 10 cs 0) else none

/-- The numbers between semicolons. -/
def readParameters (cs : List Char) : Option (List Nat) := (Text.cut (· == ';') cs).mapM readNumber

/-- Takes a colour of this kind from the front. -/
def readColor (kind : Nat) : List Nat → Option (Color × List Nat)
  | k :: 2 :: red :: green :: blue :: rest =>
    if k = kind ∧ red < 256 ∧ green < 256 ∧ blue < 256 then
      some (⟨.ofNat red, .ofNat green, .ofNat blue⟩, rest)
    else none
  | _ => none

/-- The span with this text that is shown with these numbers. What is left after the colours is its emphasis. -/
def readCodes (text : String) (codes : List Nat) : Option Span := do
  let (foreground, rest) ← readColor 38 codes
  let (background, rest) := match readColor 48 rest with
    | some (color, rest) => (some color, rest)
    | none => (none, rest)
  return { text, foreground, background
           emphasis := { bold := rest.contains 1, italic := rest.contains 3, underline := rest.contains 4 } }

/-- What follows the escape character of a span: its sequence and its text. -/
def readSpan : List Char → Option Span
  | '[' :: cs => do
    let codes ← readParameters (cs.takeWhile (· ≠ 'm'))
    readCodes (String.ofList (cs.dropWhile (· ≠ 'm')).tail) codes
  | _ => none

def readBreaks (cs : List Char) : Option (List Item) := cs.mapM fun c => if c = '\n' then some .lineBreak else none

/-- What follows the escape character of a reset: the rest of it, and line breaks. -/
def readReset : List Char → Option (List Item)
  | '[' :: '0' :: 'm' :: cs => readBreaks cs
  | _ => none

/-- Spans, each of two pieces, with the line breaks after them. -/
def readSpans : List (List Char) → Option (List Item)
  | [] => some []
  | [_] => none
  | opening :: closing :: pieces => do
    let span ← readSpan opening
    let breaks ← readReset closing
    let rest ← readSpans pieces
    return .span span :: (breaks ++ rest)

def readPieces : List (List Char) → Option (List Item)
  | [] => none
  | breaks :: pieces => do return (← readBreaks breaks) ++ (← readSpans pieces)

/-- The items that a terminal text shows. -/
def read (shown : String) : Option (List Item) := readPieces (Text.cut (· == escape) shown.toList)

theorem readNumber_toDigits (n : Nat) : readNumber (Nat.toDigits 10 n) = some n := by
  have hdigits : (Nat.toDigits 10 n).all Char.isDigit = true :=
    List.all_eq_true.2 fun _ hc => Nat.isDigit_of_mem_toDigits (by decide) (by decide) hc
  rw [readNumber, if_pos ⟨Nat.toDigits_ne_nil, hdigits⟩, Nat.ofDigitChars_ten_toDigits]

theorem readParameters_parameters {codes : List Nat} (hne : codes ≠ []) :
    readParameters (parameters codes) = some codes := by
  have hsemicolon : ∀ piece ∈ codes.map (Nat.toDigits 10), ';' ∉ piece := by
    intro piece hpiece hmem
    obtain ⟨n, -, rfl⟩ := List.mem_map.1 hpiece
    have := Nat.isDigit_of_mem_toDigits (by decide) (by decide) hmem
    simp at this
  have hread : readNumber ∘ Nat.toDigits 10 = fun n => pure (id n) := funext readNumber_toDigits
  rw [readParameters, Text.cut_beq, parameters, List.splitOn_intercalate ';' hsemicolon (by simpa using hne),
    List.mapM_map, hread, List.mapM_pure, List.map_id]
  rfl

theorem readColor_colorCodes (kind : Nat) (c : Color) (rest : List Nat) :
    readColor kind (colorCodes kind c ++ rest) = some (c, rest) := by
  have hred := c.red.toNat_lt
  have hgreen := c.green.toNat_lt
  have hblue := c.blue.toNat_lt
  simp only [colorCodes, List.cons_append, List.nil_append, readColor]
  rw [if_pos ⟨trivial, by omega, by omega, by omega⟩]
  simp

/-- **The numbers of a span tell all of it but its text.** -/
theorem readCodes_codes (s : Span) : readCodes s.text (codes s) = some s := by
  obtain ⟨text, foreground, background, bold, italic, underline⟩ := s
  rw [readCodes, codes, List.append_assoc, List.append_assoc, List.append_assoc, readColor_colorCodes]
  cases background with
  | some color =>
    dsimp only [Option.bind_eq_bind, Option.bind_some]
    rw [readColor_colorCodes]
    cases bold <;> cases italic <;> cases underline <;> rfl
  | none => cases bold <;> cases italic <;> cases underline <;> rfl

theorem readSpan_append (s : Span) : readSpan ('[' :: parameters (codes s) ++ 'm' :: s.text.toList) = some s := by
  have hm : ∀ c ∈ parameters (codes s), decide (c ≠ 'm') = true := by
    intro c hc
    rw [decide_eq_true_eq]
    rintro rfl
    exact not_mem_parameters (by decide) (by decide) (codes s) hc
  have hne : codes s ≠ [] := by simp [codes, colorCodes]
  rw [List.cons_append, readSpan, List.takeWhile_append_of_pos hm, List.dropWhile_append_of_pos hm]
  simp [readParameters_parameters hne, readCodes_codes]

theorem readPieces_cons_eq_some_iff {first : List Char} {pieces : List (List Char)} {items : List Item} :
    readPieces (first :: pieces) = some items ↔
      ∃ breaks rest, readBreaks first = some breaks ∧ readSpans pieces = some rest ∧ items = breaks ++ rest := by
  rw [readPieces]
  cases readBreaks first <;> cases readSpans pieces <;> simp [eq_comm]

/-- The sequence and the text of a span are the first two pieces of its terminal text but for an empty one. -/
theorem cut_text_span {s : Span} (hs : escape ∉ s.text.toList) (items : List Item) :
    Text.cut (· == escape) (text (.span s :: items)).toList =
      [] :: ('[' :: parameters (codes s) ++ 'm' :: s.text.toList) ::
        (Text.cut (· == escape) (text items).toList).modifyHead (['[', '0', 'm'] ++ ·) := by
  have hopening : ∀ c ∈ '[' :: parameters (codes s) ++ 'm' :: s.text.toList, (c == escape) = false := by
    intro c hc
    rw [beq_eq_false_iff_ne]
    rintro rfl
    have hcodes := not_mem_parameters (c := escape) (by decide) (by decide) (codes s)
    rcases List.mem_append.1 hc with hc | hc
    · exact hcodes ((List.mem_cons.1 hc).resolve_left (by decide))
    · exact hs ((List.mem_cons.1 hc).resolve_left (by decide))
  have hreset : ∀ c ∈ ['[', '0', 'm'], (c == escape) = false := by simp [escape]
  have hshape : (text (.span s :: items)).toList =
      [] ++ escape :: (('[' :: parameters (codes s) ++ 'm' :: s.text.toList) ++
        escape :: (['[', '0', 'm'] ++ (text items).toList)) := by
    rw [toList_text_span]
    simp
  rw [hshape, Text.cut_append_cons rfl, Text.cut_nil, Text.cut_append_cons rfl, Text.cut_of_forall hopening,
    Text.cut_append_of_forall hreset]
  rfl

/-- **Terminal text falls apart into pieces that are read back**, one by one. -/
theorem exists_pieces {items : List Item} (hitems : EscapeFree items) :
    ∃ first pieces, Text.cut (· == escape) (text items).toList = first :: pieces ∧
      readPieces (first :: pieces) = some items := by
  induction items with
  | nil => exact ⟨[], [], rfl, rfl⟩
  | cons item items ih =>
    cases item with
    | lineBreak =>
      obtain ⟨first, pieces, hcut, hread⟩ := ih (escapeFree_lineBreak.1 hitems)
      obtain ⟨breaks, rest, hbreaks, hrest, rfl⟩ := readPieces_cons_eq_some_iff.1 hread
      refine ⟨'\n' :: first, pieces, ?_, readPieces_cons_eq_some_iff.2 ⟨.lineBreak :: breaks, rest, ?_, hrest, rfl⟩⟩
      · rw [toList_text_lineBreak, Text.cut_cons, hcut]
        rfl
      · rw [readBreaks] at hbreaks
        rw [readBreaks, List.mapM_cons, hbreaks]
        rfl
    | span s =>
      obtain ⟨hs, hrest⟩ := escapeFree_span.1 hitems
      obtain ⟨first, pieces, hcut, hread⟩ := ih hrest
      obtain ⟨breaks, rest, hbreaks, hspans, rfl⟩ := readPieces_cons_eq_some_iff.1 hread
      have hreset : readReset (['[', '0', 'm'] ++ first) = some breaks := hbreaks
      have hread : readSpans (('[' :: parameters (codes s) ++ 'm' :: s.text.toList) :: (['[', '0', 'm'] ++ first) ::
          pieces) = some (.span s :: (breaks ++ rest)) := by
        rw [readSpans, readSpan_append, hreset, hspans]
        rfl
      refine ⟨[], _, ?_, readPieces_cons_eq_some_iff.2 ⟨[], _, rfl, hread, rfl⟩⟩
      rw [cut_text_span hs, hcut]
      rfl

theorem read_text {items : List Item} (hitems : EscapeFree items) : read (text items) = some items := by
  obtain ⟨first, pieces, hcut, hread⟩ := exists_pieces hitems
  rw [read, hcut, hread]

/-- **Terminal text loses nothing.** A document without escape characters can be read back from its terminal text, so
that two such documents with the same terminal text have the same items. -/
theorem read_replay {doc : Document} (hdoc : EscapeFree doc.items) :
    read (doc.replay sink "") = some doc.items ∧
    ∀ other : Document, EscapeFree other.items → other.replay sink "" = doc.replay sink "" → other.items = doc.items := by
  have hread : ∀ {d : Document}, EscapeFree d.items → read (d.replay sink "") = some d.items := read_text
  refine ⟨hread hdoc, fun other hother hsame => ?_⟩
  have := hread hother
  rw [hsame, hread hdoc] at this
  exact (Option.some.inj this).symm

/-- Even where texts look like sequences, hold line feeds, or are empty; and two spans are told from one with the
text of both. -/
theorem read_replay_awkward :
    let doc : Document :=
      { items := [.span ⟨"", .white, some .black, {}⟩, .span ⟨"m;[0m\n", .black, none, ⟨true, false, true⟩⟩, .lineBreak,
          .span ⟨"a", .white, none, {}⟩, .span ⟨"é", .white, none, {}⟩] }
    let joined : Document := { doc with items := doc.items.take 3 ++ [.span ⟨"aé", .white, none, {}⟩] }
    read (doc.replay sink "") = some doc.items ∧ joined.replay sink "" ≠ doc.replay sink "" := by
  intro doc joined
  have hdoc : EscapeFree doc.items := by simp [doc, escape]
  have hjoined : EscapeFree joined.items := by simp [joined, doc, escape]
  obtain ⟨hread, hsame⟩ := read_replay hdoc
  refine ⟨hread, fun h => ?_⟩
  have := hsame joined hjoined h
  simp [joined, doc] at this

end Highlight.Ansi

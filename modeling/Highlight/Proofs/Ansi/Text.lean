/-
Terminal text, character by character. A span is shown by a sequence that sets
its colours, its text, and a sequence that resets them (`toList_text_span`). A
sequence begins with an escape character and ends at its first `m`, since there
are only digits and semicolons in between (`mem_parameters`). So what is left of
the terminal text of items without its sequences (`strip`) is what the items show
(`strip_text`), unless they show an escape character themselves.
-/
import Highlight.Document.Print
import Highlight.Proofs.Lists

namespace Highlight

/-- The characters that an item shows. -/
def Item.shown : Item → List Char
  | .span s => s.text.toList
  | .lineBreak => ['\n']

namespace Ansi

/-- No span among the items has an escape character in its text. -/
def EscapeFree (items : List Item) : Prop := ∀ s, Item.span s ∈ items → escape ∉ s.text.toList

@[simp] theorem escapeFree_nil : EscapeFree [] := fun _ h => by simp at h

@[simp] theorem escapeFree_lineBreak {items : List Item} : EscapeFree (.lineBreak :: items) ↔ EscapeFree items := by
  simp [EscapeFree]

@[simp] theorem escapeFree_span {s : Span} {items : List Item} :
    EscapeFree (.span s :: items) ↔ escape ∉ s.text.toList ∧ EscapeFree items := by
  simp [EscapeFree, or_imp, forall_and]

/-- The numbers of a sequence with semicolons between them. -/
def parameters (codes : List Nat) : List Char := [';'].intercalate (codes.map (Nat.toDigits 10))

theorem mem_parameters {c : Char} {codes : List Nat} (h : c ∈ parameters codes) : c = ';' ∨ c.isDigit = true := by
  rcases mem_intercalate h with h | ⟨piece, hpiece, hc⟩
  · exact .inl (List.mem_singleton.1 h)
  · obtain ⟨n, -, rfl⟩ := List.mem_map.1 hpiece
    exact .inr (Nat.isDigit_of_mem_toDigits (by decide) (by decide) hc)

/-- Between the digits and semicolons of a sequence there is no other character. -/
theorem not_mem_parameters {c : Char} (hsemicolon : c ≠ ';') (hdigit : c.isDigit = false) (codes : List Nat) :
    c ∉ parameters codes := by
  intro h
  rcases mem_parameters h with rfl | hc
  · exact hsemicolon rfl
  · simp [hdigit] at hc

theorem toList_sequence (codes : List Nat) :
    (sequence codes).toList = escape :: '[' :: (parameters codes ++ ['m']) := by
  have hdigits : String.toList ∘ decimal = Nat.toDigits 10 := by
    funext n
    simp [decimal]
  rw [sequence, String.toList_append, String.toList_append, String.toList_intercalate, List.map_map, hdigits]
  rfl

theorem items_sink (shown : String) (items : List Item) : sink.items shown items = shown ++ text items := by
  induction items generalizing shown with
  | nil => simp [text, Sink.items]
  | cons item items ih =>
    have hitem : ∀ k, sink.items k (item :: items) = sink.items (sink.item k item) items := fun _ => rfl
    rw [text, hitem, hitem, ih, ih (sink.item "" item), ← String.append_assoc]
    cases item <;> simp [Sink.item, sink]

theorem toList_text_lineBreak (items : List Item) : (text (.lineBreak :: items)).toList = '\n' :: (text items).toList := by
  have htext : text (.lineBreak :: items) = sink.items "\n" items := rfl
  rw [htext, items_sink, String.toList_append]
  rfl

/-- A span is its text between two sequences. -/
theorem toList_text_span (s : Span) (items : List Item) :
    (text (.span s :: items)).toList =
      escape :: ('[' :: parameters (codes s) ++ 'm' ::
        (s.text.toList ++ escape :: (['[', '0'] ++ 'm' :: (text items).toList))) := by
  have htext : text (.span s :: items) = sink.items ("" ++ span s) items := rfl
  have hreset : (sequence [0]).toList = [escape, '[', '0', 'm'] := toList_sequence [0]
  rw [htext, items_sink, String.empty_append, span]
  simp only [String.toList_append, toList_sequence, hreset]
  simp

/-- The characters that are left when every sequence is deleted: all from an escape character up to and with the
next `m`. The state tells whether a sequence has begun. -/
def stripChars : Bool → List Char → List Char
  | _, [] => []
  | true, c :: cs => stripChars (c != 'm') cs
  | false, c :: cs => if c = escape then stripChars true cs else c :: stripChars false cs

/-- A text without its sequences. -/
def strip (shown : String) : String := String.ofList (stripChars false shown.toList)

theorem stripChars_append {cs : List Char} (hcs : escape ∉ cs) (rest : List Char) :
    stripChars false (cs ++ rest) = cs ++ stripChars false rest := by
  induction cs with
  | nil => rfl
  | cons c cs ih =>
    rw [List.mem_cons, not_or] at hcs
    rw [List.cons_append, stripChars, if_neg (Ne.symm hcs.1), ih hcs.2, List.cons_append]

theorem stripChars_sequence {cs : List Char} (hcs : 'm' ∉ cs) (rest : List Char) :
    stripChars false (escape :: (cs ++ 'm' :: rest)) = stripChars false rest := by
  have hinside : stripChars true (cs ++ 'm' :: rest) = stripChars false rest := by
    induction cs with
    | nil => rfl
    | cons c cs ih =>
      rw [List.mem_cons, not_or] at hcs
      have hc : (c != 'm') = true := by simpa using Ne.symm hcs.1
      rw [List.cons_append, stripChars, hc, ih hcs.2]
  rw [stripChars, if_pos rfl, hinside]

/-- **Without its sequences, the terminal text of items is what the items show.** -/
theorem strip_text {items : List Item} (hitems : EscapeFree items) :
    strip (text items) = String.ofList (items.flatMap Item.shown) := by
  rw [strip]
  congr 1
  induction items with
  | nil => rfl
  | cons item items ih =>
    rw [List.flatMap_cons]
    cases item with
    | lineBreak =>
      rw [toList_text_lineBreak, ← ih (escapeFree_lineBreak.1 hitems)]
      rfl
    | span s =>
      obtain ⟨hs, hrest⟩ := escapeFree_span.1 hitems
      have hopening : 'm' ∉ '[' :: parameters (codes s) := by
        have := not_mem_parameters (c := 'm') (by decide) (by decide) (codes s)
        simpa using this
      rw [toList_text_span, stripChars_sequence hopening, stripChars_append hs, stripChars_sequence (by decide),
        ih hrest]
      rfl

end Ansi

end Highlight

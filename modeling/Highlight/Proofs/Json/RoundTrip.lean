/-
Reading what is written. A character of a quoted text is read back
(`readChar_escaped`), and so is a numeral (`readNumber_numeral`), and the members of a
list, each of which begins with no space (`readMembers_listed`). So every value is what
its text is read as (`read_pretty`).
-/
import Highlight.Proofs.Color
import Highlight.Proofs.Json.Reading
import Highlight.Proofs.Lists

namespace Highlight.Json

section Text

theorem readUnit_control {n : Nat} (h : n < 256) (cs : List Char) :
    readUnit ('0' :: '0' :: (n / 16).digitChar :: (n % 16).digitChar :: cs) = some (n, cs) := by
  have hzero : Color.digit? '0' = some 0 := by decide
  have hhigh : Color.digit? (n / 16).digitChar = some (n / 16) := Color.digit?_digitChar (by omega)
  have hlow : Color.digit? (n % 16).digitChar = some (n % 16) := Color.digit?_digitChar (by omega)
  have hwhole : 4096 * 0 + 256 * 0 + 16 * (n / 16) + n % 16 = n := by omega
  simp only [readUnit, hzero, hhigh, hlow, Option.bind_eq_bind, Option.bind_some, hwhole]
  rfl

/-- **A character that is written is read.** -/
theorem readChar_escaped (c : Char) (cs : List Char) : readChar (escaped c ++ cs) = some (c, cs) := by
  unfold escaped
  split
  case h_8 _ hquote hbackslash _ _ _ _ _ =>
    split
    · have hunit : readUnits ('0' :: '0' :: (c.toNat / 16).digitChar :: (c.toNat % 16).digitChar :: cs) =
          some (c, cs) := by
        rw [readUnits, readUnit_control (by omega)]
        simp only [Option.bind_eq_bind, Option.bind_some]
        rw [if_neg (by omega), if_neg (by omega), Char.ofNat_toNat]
        rfl
      exact hunit
    · rename_i hcontrol
      rw [List.singleton_append, readChar]
      · rw [if_neg]
        rintro (h | h | h)
        · exact hcontrol h
        · exact hquote h
        · exact hbackslash h
      · rintro _ rfl
        exact absurd rfl hbackslash
      · rintro _ _ rfl
        exact absurd rfl hbackslash
  all_goals rfl

/-- No character is written with a quotation mark at its front. -/
theorem escaped_eq_cons (c : Char) : ∃ d ds, escaped c = d :: ds ∧ d ≠ '"' := by
  unfold escaped
  split
  case h_8 _ hquote _ _ _ _ _ _ =>
    split
    · exact ⟨_, _, rfl, by decide⟩
    · exact ⟨_, _, rfl, hquote⟩
  all_goals exact ⟨_, _, rfl, by decide⟩

theorem readChars_escaped {chars : List Char} {fuel : Nat} (h : chars.length ≤ fuel) (cs : List Char) :
    readChars fuel (chars.flatMap escaped ++ '"' :: cs) = some (chars, cs) := by
  induction chars generalizing fuel with
  | nil => rw [List.flatMap_nil, List.nil_append, readChars]
  | cons c chars ih =>
    obtain ⟨fuel, rfl⟩ : ∃ n, fuel = n + 1 := ⟨fuel - 1, by simp at h; omega⟩
    obtain ⟨d, ds, hescaped, hne⟩ := escaped_eq_cons c
    have hchar := readChar_escaped c (chars.flatMap escaped ++ '"' :: cs)
    rw [hescaped, List.cons_append] at hchar
    rw [List.flatMap_cons, hescaped, List.append_assoc, List.cons_append, readChars, hchar]
    · simp only [Option.bind_eq_bind, Option.bind_some]
      rw [ih (by simpa using h)]
      rfl
    · rintro _ heq
      exact hne (List.cons.inj heq).1

/-- **A quoted text is read back.** -/
theorem readText_quoted (s : String) (cs : List Char) :
    ∃ rest, quoted s ++ cs = '"' :: rest ∧ readText rest = some (s, cs) := by
  refine ⟨s.toList.flatMap escaped ++ '"' :: cs, by simp [quoted], ?_⟩
  have hlength : s.toList.length ≤ (s.toList.flatMap escaped).length :=
    length_le_length_flatMap fun c _ h => by
      obtain ⟨d, ds, hescaped, -⟩ := escaped_eq_cons c
      exact List.cons_ne_nil d ds (hescaped.symm.trans h)
  rw [readText, readChars_escaped (Nat.le_trans hlength (by simp)), Option.map_some]
  simp only [String.ofList_toList]

end Text

/-- What may stand after a number: nothing that could still belong to it. -/
def Ends (cs : List Char) : Prop := ∀ c ∈ cs.head?, c.isDigit = false ∧ c ≠ '.' ∧ c ≠ 'e' ∧ c ≠ 'E'

section Number

variable {cs : List Char}

theorem readDigits_append {ds : List Char} (hne : ds ≠ []) (hdigits : ∀ d ∈ ds, d.isDigit = true)
    (hcs : ∀ c ∈ cs.head?, c.isDigit = false) : readDigits (ds ++ cs) = some (ds, cs) := by
  rw [readDigits, takeWhile_append_of_head? hdigits hcs, dropWhile_append_of_head? hdigits hcs]
  cases ds with
  | nil => exact absurd rfl hne
  | cons d ds => rfl

theorem digits_ne_nil (n : Nat) : digits n ≠ [] := Nat.toDigits_ne_nil

theorem isDigit_of_mem_digits {n : Nat} {d : Char} (h : d ∈ digits n) : d.isDigit = true :=
  Nat.isDigit_of_mem_toDigits (by decide) (by decide) h

theorem digits_eq_cons (n : Nat) : ∃ d ds, digits n = d :: ds ∧ d.isDigit = true := by
  obtain ⟨d, ds, hdigits⟩ := List.exists_cons_of_ne_nil (digits_ne_nil n)
  exact ⟨d, ds, hdigits, isDigit_of_mem_digits (hdigits ▸ List.mem_cons_self)⟩

/-- The digits of a positive number do not begin with a zero. -/
theorem head?_digits {n : Nat} (h : 0 < n) : (digits n).head? ≠ some '0' := by
  induction n using Nat.strongRecOn with
  | ind n ih =>
    by_cases hsmall : n < 10
    · rw [digits, Nat.toDigits_of_lt_base hsmall]
      have hall : ∀ d ∈ List.range 10, 0 < d → [d.digitChar].head? ≠ some '0' := by decide
      exact hall n (List.mem_range.2 hsmall) h
    · have hlast : digits n = digits (n / 10) ++ [(n % 10).digitChar] :=
        Nat.toDigits_of_base_le (by decide) (by omega)
      have hhead := ih (n / 10) (by omega) (by omega)
      obtain ⟨d, ds, hdigits, -⟩ := digits_eq_cons (n / 10)
      rw [hlast]
      rw [hdigits] at hhead ⊢
      exact hhead

theorem readWhole_digits (n : Nat) (hcs : ∀ c ∈ cs.head?, c.isDigit = false) :
    readWhole (digits n ++ cs) = some (digits n, cs) := by
  rw [readWhole, readDigits_append (digits_ne_nil n) (fun _ => isDigit_of_mem_digits) hcs]
  simp only [Option.bind_eq_bind, Option.bind_some]
  split
  · rename_i d ds hdigits
    rcases Nat.eq_zero_or_pos n with rfl | hpos
    · cases hdigits
    · exact absurd (by rw [hdigits]; rfl) (head?_digits hpos)
  · rfl

theorem readExponent_of_ends (h : Ends cs) : readExponent cs = some (0, cs) := by
  unfold readExponent
  split
  · exact absurd rfl (h _ rfl).2.2.1
  · exact absurd rfl (h _ rfl).2.2.2
  · rfl

/-- The digits after a point, and the whole before it, stand for the number of all of them. -/
theorem ofDigitChars_padded {n scale : Nat} (h : 0 < scale) :
    let unit := Nat.pow 10 scale
    let fraction := List.replicate (scale - (digits (n % unit)).length) '0' ++ digits (n % unit)
    fraction.length = scale ∧ Nat.ofDigitChars 10 (digits (n / unit) ++ fraction) 0 = n := by
  intro unit fraction
  have hle : (digits (n % unit)).length ≤ scale :=
    (Nat.length_toDigits_le_iff (by decide) h).2 (Nat.mod_lt _ (Nat.pow_pos (by decide)))
  have hlength : fraction.length = scale := by
    simp only [fraction, List.length_append, List.length_replicate]
    omega
  have hfraction : Nat.ofDigitChars 10 fraction 0 = n % unit := by
    rw [Nat.ofDigitChars_append, Nat.ofDigitChars_replicate_zero, Nat.mul_zero]
    exact Nat.ofDigitChars_ten_toDigits
  have hwhole : Nat.ofDigitChars 10 (digits (n / unit)) 0 = n / unit := Nat.ofDigitChars_ten_toDigits
  refine ⟨hlength, ?_⟩
  rw [Nat.ofDigitChars_append, Nat.ofDigitChars_eq_ofDigitChars_zero, hlength, hfraction, hwhole]
  exact Nat.div_add_mod n unit

/-- A numeral is its sign, its whole part, and its fraction after a point, if it has one. -/
theorem numeral_eq (mantissa : Int) (scale : Nat) :
    ∃ whole fraction, numeral mantissa scale =
      (if mantissa < 0 then ['-'] else []) ++ (digits whole ++ if fraction = [] then [] else '.' :: fraction) ∧
      (∀ d ∈ fraction, d.isDigit = true) ∧ fraction.length = scale ∧
      Nat.ofDigitChars 10 (digits whole ++ fraction) 0 = mantissa.natAbs := by
  rcases Nat.eq_zero_or_pos scale with rfl | hpos
  · refine ⟨mantissa.natAbs, [], ?_, by simp, rfl, ?_⟩
    · simp [numeral]
    · rw [List.append_nil]
      exact Nat.ofDigitChars_ten_toDigits
  · obtain ⟨hlength, hvalue⟩ := ofDigitChars_padded (n := mantissa.natAbs) hpos
    refine ⟨mantissa.natAbs / Nat.pow 10 scale, _, ?_, fun d hd => ?_, hlength, hvalue⟩
    · have hne := List.ne_nil_of_length_pos (Nat.lt_of_lt_of_eq hpos hlength.symm)
      rw [if_neg hne, numeral, if_neg (Nat.ne_of_gt hpos)]
      simp only [List.append_assoc, List.cons_append, List.nil_append]
    · rcases List.mem_append.1 hd with hd | hd
      · rw [(List.mem_replicate.1 hd).2]
        decide
      · exact isDigit_of_mem_digits hd

theorem numeral_eq_cons (mantissa : Int) (scale : Nat) :
    ∃ c cs, numeral mantissa scale = c :: cs ∧ (c = '-' ∨ c.isDigit = true) := by
  obtain ⟨whole, fraction, hnumeral, -⟩ := numeral_eq mantissa scale
  obtain ⟨d, ds, hwhole, hd⟩ := digits_eq_cons whole
  rw [hnumeral, hwhole]
  split
  · exact ⟨'-', _, rfl, .inl rfl⟩
  · exact ⟨d, _, rfl, .inr hd⟩

theorem readSign_append (mantissa : Int) (hcs : cs.head? ≠ some '-') :
    readSign ((if mantissa < 0 then ['-'] else []) ++ cs) = (if mantissa < 0 then -1 else 1, cs) := by
  split
  · rfl
  · rw [List.nil_append, readSign]
    rintro _ rfl
    exact hcs rfl

theorem readFraction_append {fraction : List Char} (hdigits : ∀ d ∈ fraction, d.isDigit = true) (h : Ends cs) :
    readFraction ((if fraction = [] then [] else '.' :: fraction) ++ cs) = some (fraction, cs) := by
  split
  · rename_i hnil
    subst hnil
    rw [List.nil_append, readFraction]
    rintro _ rfl
    exact (h _ rfl).2.1 rfl
  · rename_i hne
    rw [List.cons_append, readFraction, readDigits_append hne hdigits fun c hc => (h c hc).1]

/-- **A numeral is read back.** -/
theorem readNumber_numeral (mantissa : Int) (scale : Nat) (h : Ends cs) :
    readNumber (numeral mantissa scale ++ cs) = some (number mantissa scale, cs) := by
  obtain ⟨whole, fraction, hnumeral, hdigits, hlength, hvalue⟩ := numeral_eq mantissa scale
  -- The whole part begins with no sign, and ends where the point or the rest begins.
  have hminus : (digits whole ++ ((if fraction = [] then [] else '.' :: fraction) ++ cs)).head? ≠ some '-' := by
    obtain ⟨d, ds, hwhole, hd⟩ := digits_eq_cons whole
    rw [hwhole]
    rintro ⟨⟩
    exact absurd hd (by decide)
  have hpoint : ∀ c ∈ ((if fraction = [] then [] else '.' :: fraction) ++ cs).head?, c.isDigit = false := by
    split
    · exact fun c hc => (h c hc).1
    · rintro _ ⟨⟩
      rfl
  have hmantissa : (if mantissa < 0 then -1 else 1) * (mantissa.natAbs : Int) = mantissa := by
    split <;> omega
  have hscaled : scaled mantissa (0 - scale) = number mantissa scale := by
    rw [scaled, if_pos (by omega)]
    congr 1
    omega
  rw [hnumeral, List.append_assoc, List.append_assoc, readNumber, readSign_append mantissa hminus]
  simp only [readWhole_digits whole hpoint, readFraction_append hdigits h, readExponent_of_ends h,
    Option.bind_eq_bind, Option.bind_some, hvalue, hlength, hmantissa, hscaled]
  rfl

end Number

section Members

/-- The members of a list as they are written: one on each line. -/
def listed (depth : Nat) (print : α → List Char) (a : α) (as : List α) : List Char :=
  newline (depth + 1) ++ print a ++ as.flatMap (fun a => ',' :: (newline (depth + 1) ++ print a)) ++ newline depth

theorem skip_newline (depth : Nat) (cs : List Char) : skip (newline depth ++ cs) = skip cs := by
  rw [newline, List.cons_append, skip, List.dropWhile_cons_of_pos rfl, List.dropWhile_append_of_pos]
  · rfl
  · intro c hc
    rw [(List.mem_replicate.1 hc).2]
    rfl

theorem skip_cons {c : Char} (h : isSpace c = false) (cs : List Char) : skip (c :: cs) = c :: cs :=
  List.dropWhile_cons_of_neg (by simp [h])

theorem ends_newline (depth : Nat) (cs : List Char) : Ends (newline depth ++ cs) := by
  rintro c ⟨⟩
  decide

theorem ends_comma (cs : List Char) : Ends (',' :: cs) := by
  rintro c ⟨⟩
  decide

variable {close : Char} {member : List Char → Option (α × List Char)} {print : α → List Char}

/-- What is written of a member begins with no space, and is read as that member. -/
def Reads (member : List Char → Option (α × List Char)) (print : α → List Char) (a : α) : Prop :=
  (∃ c cs, print a = c :: cs ∧ isSpace c = false) ∧ ∀ cs, Ends cs → member (print a ++ cs) = some (a, cs)

theorem Reads.skip_append {a : α} (h : Reads member print a) (cs : List Char) :
    skip (print a ++ cs) = print a ++ cs := by
  obtain ⟨⟨c, cs', hprint, hspace⟩, -⟩ := h
  rw [hprint, List.cons_append, skip_cons hspace]

theorem listed_nil (depth : Nat) (print : α → List Char) (a : α) :
    listed depth print a [] = newline (depth + 1) ++ (print a ++ newline depth) := by
  simp [listed]

theorem listed_cons (depth : Nat) (print : α → List Char) (a b : α) (as : List α) :
    listed depth print a (b :: as) = newline (depth + 1) ++ (print a ++ ',' :: listed depth print b as) := by
  simp [listed]

theorem length_lt_length_listed {a b : α} {as : List α} (h : b ∈ a :: as) (depth : Nat) (print : α → List Char) :
    (print b).length < (listed depth print a as).length := by
  simp only [listed, newline, List.length_append, List.length_cons]
  rcases List.mem_cons.1 h with rfl | h
  · omega
  · obtain ⟨before, after, rfl⟩ := List.append_of_mem h
    simp only [List.flatMap_append, List.flatMap_cons, List.length_append, List.length_cons]
    omega

theorem readMore_listed (hspace : isSpace close = false) (hcomma : close ≠ ',') {a : α} {as : List α}
    (h : ∀ b ∈ a :: as, Reads member print b) {fuel : Nat} (hfuel : as.length < fuel) (depth : Nat) (cs : List Char) :
    readMore close member fuel (listed depth print a as ++ close :: cs) = some (a :: as, cs) := by
  obtain ⟨fuel, rfl⟩ : ∃ n, fuel = n + 1 := ⟨fuel - 1, by omega⟩
  have hfirst := h a List.mem_cons_self
  induction as generalizing a fuel with
  | nil =>
    have hread := hfirst.2 (newline depth ++ close :: cs) (ends_newline depth _)
    rw [listed_nil, readMore]
    simp only [List.append_assoc, skip_newline, hfirst.skip_append, hread, Option.bind_eq_bind, Option.bind_some,
      skip_cons hspace]
    exact if_pos trivial
  | cons b as ih =>
    have hread := hfirst.2 (',' :: (listed depth print b as ++ close :: cs)) (ends_comma _)
    have hrest : ∀ b' ∈ b :: as, Reads member print b' := fun b' hb' => h b' (List.mem_cons_of_mem _ hb')
    rw [List.length_cons] at hfuel
    obtain ⟨fuel, rfl⟩ : ∃ n, fuel = n + 1 := ⟨fuel - 1, by omega⟩
    have hmore := ih hrest fuel (by omega) (hrest b List.mem_cons_self)
    rw [listed_cons, readMore]
    simp only [List.append_assoc, List.cons_append, skip_newline, hfirst.skip_append, hread, Option.bind_eq_bind,
      Option.bind_some, skip_cons (show isSpace ',' = false from rfl), hmore]
    rfl

theorem readMembers_listed (hspace : isSpace close = false) (hcomma : close ≠ ',') {a : α} {as : List α}
    (h : ∀ b ∈ a :: as, Reads member print b) (hclose : (print a).head? ≠ some close) (depth : Nat) (cs : List Char) :
    readMembers close member (listed depth print a as ++ close :: cs) = some (a :: as, cs) := by
  have hlength : as.length < (listed depth print a as ++ close :: cs).length := by
    have hle : as.length ≤ (as.flatMap fun a => ',' :: (newline (depth + 1) ++ print a)).length :=
      length_le_length_flatMap fun _ _ => List.cons_ne_nil _ _
    simp only [listed, List.length_append, List.length_cons]
    omega
  have hmore := readMore_listed hspace hcomma h hlength depth cs
  have hfirst := h a List.mem_cons_self
  have hskip : skip (listed depth print a as ++ close :: cs) = print a ++
      (as.flatMap (fun a => ',' :: (newline (depth + 1) ++ print a)) ++ (newline depth ++ close :: cs)) := by
    simp only [listed, List.append_assoc, skip_newline, hfirst.skip_append]
  obtain ⟨⟨c, rest, hprint, -⟩, -⟩ := hfirst
  rw [hprint] at hclose
  rw [readMembers, hskip, hprint, List.cons_append]
  dsimp only
  rw [if_neg (fun heq => hclose (congrArg some heq)), hmore]

end Members

section Value

/-- A field as it is written. -/
def namedChars (depth : Nat) (field : String × Json) : List Char :=
  quoted field.1 ++ [':', ' '] ++ field.2.chars depth

theorem chars_array (depth : Nat) (v : Json) (vs : List Json) :
    (array (v :: vs)).chars depth = '[' :: (listed depth (chars (depth + 1)) v vs ++ [']']) := by
  have hitems : ∀ vs : List Json, itemChars (depth + 1) vs =
      vs.flatMap fun v => ',' :: (newline (depth + 1) ++ v.chars (depth + 1)) := by
    intro vs
    induction vs with
    | nil => rw [itemChars, List.flatMap_nil]
    | cons v vs ih => rw [itemChars, ih, List.flatMap_cons, List.cons_append]
  rw [chars, hitems, listed]

theorem chars_object (depth : Nat) (field : String × Json) (fields : List (String × Json)) :
    (object (field :: fields)).chars depth =
      '\x7b' :: (listed depth (namedChars (depth + 1)) field fields ++ ['\x7d']) := by
  have hfields : ∀ fields : List (String × Json), fieldChars (depth + 1) fields =
      fields.flatMap fun field => ',' :: (newline (depth + 1) ++ namedChars (depth + 1) field) := by
    intro fields
    induction fields with
    | nil => rw [fieldChars, List.flatMap_nil]
    | cons field fields ih =>
      obtain ⟨key, v⟩ := field
      rw [fieldChars, ih, List.flatMap_cons, List.cons_append, namedChars]
      simp only [List.append_assoc]
  obtain ⟨key, v⟩ := field
  rw [chars, hfields, listed, namedChars]
  simp only [List.append_assoc]

/-- No value begins with a space, or with the sign that closes an array. -/
theorem chars_eq_cons (v : Json) (depth : Nat) : ∃ c cs, v.chars depth = c :: cs ∧ isSpace c = false ∧ c ≠ ']' := by
  cases v with
  | null => exact ⟨_, _, by rw [chars], by decide, by decide⟩
  | bool b => cases b <;> exact ⟨_, _, by rw [chars], by decide, by decide⟩
  | number mantissa scale =>
    obtain ⟨c, cs, hnumeral, hc⟩ := numeral_eq_cons mantissa scale
    refine ⟨c, cs, by rw [chars, hnumeral], Bool.eq_false_iff.2 fun hspace => ?_, ?_⟩
    · simp only [isSpace, Bool.or_eq_true, beq_iff_eq] at hspace
      rcases hspace with ((rfl | rfl) | rfl) | rfl <;> simp at hc
    · rintro rfl
      simp at hc
  | text s => exact ⟨'"', _, by rw [chars, quoted], by decide, by decide⟩
  | array items => cases items <;> exact ⟨'[', _, by first | rw [chars_array] | rw [chars], by decide, by decide⟩
  | object fields => cases fields <;> exact ⟨_, _, by first | rw [chars_object] | rw [chars], by decide, by decide⟩

theorem readValue_number {c : Char} {cs : List Char} (h : c = '-' ∨ c.isDigit = true) (fuel : Nat) :
    readValue (fuel + 1) (c :: cs) = readNumber (c :: cs) := by
  rw [readValue]
  all_goals
    rintro _ heq
    obtain rfl := (List.cons.inj heq).1
    simp at h

theorem reads_of_readValue {value : List Char → Option (Json × List Char)} {v : Json} {depth : Nat}
    (h : ∀ cs, Ends cs → value (v.chars depth ++ cs) = some (v, cs)) : Reads value (chars depth) v := by
  obtain ⟨c, rest, hchars, hspace, -⟩ := chars_eq_cons v depth
  exact ⟨⟨c, rest, hchars, hspace⟩, h⟩

theorem Reads.field {value : List Char → Option (Json × List Char)} {v : Json} {depth : Nat}
    (h : Reads value (chars depth) v) (key : String) : Reads (readField value) (namedChars depth) (key, v) := by
  refine ⟨⟨'"', _, rfl, by decide⟩, fun cs hcs => ?_⟩
  obtain ⟨rest, hquoted, hkey⟩ := readText_quoted key (':' :: ' ' :: (v.chars depth ++ cs))
  have hspace : skip (' ' :: (v.chars depth ++ cs)) = v.chars depth ++ cs := h.skip_append cs
  have hfield : namedChars depth (key, v) ++ cs = '"' :: rest := by
    rw [← hquoted, namedChars]
    simp only [List.append_assoc, List.cons_append, List.nil_append]
  rw [hfield, readField, hkey]
  simp only [Option.bind_eq_bind, Option.bind_some, skip_cons (show isSpace ':' = false from rfl), hspace, h.2 cs hcs]
  rfl

section Nested

variable {fuel depth : Nat} (cs : List Char)

theorem readValue_array {v : Json} {vs : List Json}
    (h : ∀ w ∈ v :: vs, Reads (readValue fuel) (chars (depth + 1)) w) :
    readValue (fuel + 1) ((array (v :: vs)).chars depth ++ cs) = some (array (v :: vs), cs) := by
  obtain ⟨c, rest, hchars, -, hclose⟩ := chars_eq_cons v (depth + 1)
  have hfirst : (v.chars (depth + 1)).head? ≠ some ']' := by simp [hchars, hclose]
  have hread := readMembers_listed (by decide) (by decide) h hfirst depth cs
  rw [chars_array, List.cons_append, List.append_assoc, List.singleton_append, readValue, hread]
  rfl

theorem readValue_object {field : String × Json} {fields : List (String × Json)}
    (h : ∀ f ∈ field :: fields, Reads (readValue fuel) (chars (depth + 1)) f.2) :
    readValue (fuel + 1) ((object (field :: fields)).chars depth ++ cs) = some (object (field :: fields), cs) := by
  have hfields : ∀ f ∈ field :: fields, Reads (readField (readValue fuel)) (namedChars (depth + 1)) f :=
    fun f hf => (h f hf).field f.1
  have hfirst : (namedChars (depth + 1) field).head? ≠ some '\x7d' := by simp [namedChars, quoted]
  have hread := readMembers_listed (by decide) (by decide) hfields hfirst depth cs
  rw [chars_object, List.cons_append, List.append_assoc, List.singleton_append, readValue, hread]
  rfl

end Nested

/-- A value is read back wherever it stands, with at least as much fuel as it has characters. -/
theorem readValue_chars {fuel : Nat} {v : Json} {depth : Nat} (h : (v.chars depth).length ≤ fuel) {cs : List Char}
    (hcs : Ends cs) : readValue fuel (v.chars depth ++ cs) = some (v, cs) := by
  -- By induction on the fuel: what is written of a member is shorter than what is written of the whole.
  induction fuel generalizing v depth cs with
  | zero =>
    obtain ⟨c, rest, hchars, -⟩ := chars_eq_cons v depth
    rw [hchars] at h
    cases h
  | succ fuel ih =>
    have hmember {w : Json} (hw : (w.chars (depth + 1)).length ≤ fuel) :
        Reads (readValue fuel) (chars (depth + 1)) w :=
      reads_of_readValue fun cs hcs => ih hw hcs
    cases v with
    | null =>
      rw [chars]
      rfl
    | bool b =>
      cases b <;>
      · rw [chars]
        rfl
    | number mantissa scale =>
      obtain ⟨c, rest, hnumeral, hc⟩ := numeral_eq_cons mantissa scale
      have hread := readNumber_numeral mantissa scale hcs
      rw [chars]
      rw [hnumeral] at hread ⊢
      rw [List.cons_append, readValue_number hc, ← List.cons_append, hread]
    | text s =>
      obtain ⟨rest, hquoted, hread⟩ := readText_quoted s cs
      rw [chars, hquoted, readValue, hread]
      rfl
    | array items =>
      cases items with
      | nil =>
        rw [chars]
        rfl
      | cons v vs =>
        refine readValue_array cs fun w hw => hmember ?_
        have hlt := length_lt_length_listed hw depth (chars (depth + 1))
        rw [chars_array, List.length_cons, List.length_append] at h
        omega
    | object fields =>
      cases fields with
      | nil =>
        rw [chars]
        rfl
      | cons field fields =>
        refine readValue_object cs fun f hf => hmember ?_
        have hlt := length_lt_length_listed hf depth (namedChars (depth + 1))
        rw [chars_object, List.length_cons, List.length_append] at h
        simp only [namedChars, List.length_append] at hlt
        omega

/-- **Every value is what its text is read as.** -/
theorem read_pretty (v : Json) : read v.pretty = some v := by
  have hchars : v.pretty.toList = v.chars 0 := String.toList_ofList
  have hskip : skip (v.chars 0) = v.chars 0 := by
    obtain ⟨c, cs, hchars, hspace, -⟩ := chars_eq_cons v 0
    rw [hchars, skip_cons hspace]
  have hlength : (v.chars 0).length = v.pretty.length := by rw [← hchars, String.length_toList]
  have hends : Ends [] := by rintro c ⟨⟩
  have hread := readValue_chars (Nat.le_of_eq hlength) hends
  rw [List.append_nil] at hread
  rw [read, hchars, hskip, hread]
  rfl

end Value

end Highlight.Json

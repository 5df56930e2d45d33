/-
Guards that unwind. The guards of one variable are released from the last made to
the first, those of different variables in any order, and nothing else writes
(`Nested`). Then each guard in force keeps what the one beneath it gives
(`Unwinding`), so that a variable always shows what its innermost guard gives it.
When all of its guards are released it has its first value again, unless that was
no text (`Nested.unwinds`).
-/
import Highlight.Environment.Guard

namespace Highlight.GuardedEnvironment

/-- A guard as it was made: its number, its variable, and the text that it gives, if it gives one. -/
structure Override where
  number : Nat
  name : String
  text : Option String
  deriving DecidableEq

def Step.made? : Step → Option (String × Option String)
  | .change name text => some (name, text)
  | .release _ | .write .. => none

/-- The variable and the text of each guard that some steps make, by its number. -/
def made (steps : List Step) : List (String × Option String) := steps.filterMap Step.made?

/-- The guards in force after some steps: those that are made and not released. -/
def inForce (steps : List Step) : List Override :=
  ((made steps).zipIdx.map fun ((name, text), number) => ⟨number, name, text⟩).filter fun o =>
    Step.release o.number ∉ steps

/-- A guard in force, over which its variable has no other. -/
def Innermost (steps : List Step) (o : Override) : Prop :=
  o ∈ inForce steps ∧ ∀ other ∈ inForce steps, other.name = o.name → other.number ≤ o.number

instance (steps : List Step) (o : Override) : Decidable (Innermost steps o) :=
  inferInstanceAs (Decidable (_ ∧ _))

/-- What may be done after some steps: to make a guard, or to release one that is innermost. -/
def Admits (done : List Step) : Step → Prop
  | .change .. => True
  | .release i => ∃ o ∈ inForce done, o.number = i ∧ Innermost done o
  | .write .. => False

instance (done : List Step) : ∀ step, Decidable (Admits done step)
  | .change .. => inferInstanceAs (Decidable True)
  | .release i => inferInstanceAs (Decidable (∃ o ∈ inForce done, o.number = i ∧ Innermost done o))
  | .write .. => inferInstanceAs (Decidable False)

/-- Steps that release the guards of each variable in the reverse of the order that they were made in. -/
def Nested (steps : List Step) : Prop := ∀ k (h : k < steps.length), Admits (steps.take k) steps[k]

instance (steps : List Step) : Decidable (Nested steps) :=
  inferInstanceAs (Decidable (∀ k (h : k < steps.length), Admits (steps.take k) steps[k]))

/-- The variable that a step is about, after those before it. -/
def Step.name? (done : List Step) : Step → Option String
  | .change name _ | .write name _ => some name
  | .release i => (made done)[i]?.map (·.1)

section InForce

variable {steps : List Step} {o : Override}

theorem mem_inForce :
    o ∈ inForce steps ↔ (made steps)[o.number]? = some (o.name, o.text) ∧ Step.release o.number ∉ steps := by
  rw [inForce, List.mem_filter, List.mem_map, decide_eq_true_eq]
  refine and_congr_left fun _ => ⟨?_, fun h => ⟨((o.name, o.text), o.number), ?_, rfl⟩⟩
  · rintro ⟨⟨⟨name, text⟩, number⟩, hmem, rfl⟩
    exact List.mk_mem_zipIdx_iff_getElem?.1 hmem
  · exact List.mk_mem_zipIdx_iff_getElem?.2 h

theorem number_lt_of_mem_inForce (h : o ∈ inForce steps) : o.number < (made steps).length :=
  (List.getElem?_eq_some_iff.1 (mem_inForce.1 h).1).1

/-- A number belongs to one guard. -/
theorem eq_of_number_eq {other : Override} (h : o ∈ inForce steps) (hother : other ∈ inForce steps)
    (hnumber : other.number = o.number) : other = o := by
  obtain ⟨number, name, text⟩ := o
  obtain ⟨number', name', text'⟩ := other
  obtain rfl : number' = number := hnumber
  have hsame := (mem_inForce.1 hother).1.symm.trans (mem_inForce.1 h).1
  simpa using hsame

theorem made_append (steps : List Step) (step : Step) : made (steps ++ [step]) = made steps ++ step.made?.toList := by
  rw [made, List.filterMap_append]
  cases hmade : step.made? <;> simp [made, hmade]

/-- A new guard has the next number, which must not have been released yet. -/
theorem mem_inForce_change {name : String} {text : Option String}
    (hreleased : ∀ i, Step.release i ∈ steps → i < (made steps).length) :
    o ∈ inForce (steps ++ [.change name text]) ↔ o ∈ inForce steps ∨ o = ⟨(made steps).length, name, text⟩ := by
  obtain ⟨number, name', text'⟩ := o
  rw [mem_inForce, mem_inForce, made_append]
  simp only [Step.made?, Option.toList_some, List.mem_append, List.mem_singleton, reduceCtorEq, or_false,
    Override.mk.injEq]
  rcases Nat.lt_trichotomy number (made steps).length with hlt | rfl | hgt
  · rw [List.getElem?_append_left hlt]
    simp [Nat.ne_of_lt hlt]
  · have hfresh : Step.release (made steps).length ∉ steps := fun h => Nat.lt_irrefl _ (hreleased _ h)
    simp [hfresh, eq_comm]
  · have hnone : (made steps)[number]? = none := List.getElem?_eq_none (Nat.le_of_lt hgt)
    have hnone' : (made steps ++ [(name, text)])[number]? = none := by simp; omega
    simp [hnone, hnone', Nat.ne_of_gt hgt]

theorem mem_inForce_release {i : Nat} : o ∈ inForce (steps ++ [.release i]) ↔ o ∈ inForce steps ∧ o.number ≠ i := by
  rw [mem_inForce, mem_inForce, made_append]
  simp only [Step.made?, Option.toList_none, List.append_nil, List.mem_append, List.mem_singleton, Step.release.injEq,
    not_or]
  exact and_assoc.symm

end InForce

/-- The text that the guards numbered below `bound` leave to a variable: what the last of them in force gives it, or
else the text that it had at first. -/
inductive Leaves (first : Environment) (steps : List Step) (name : String) (bound : Nat) : Option String → Prop
  | guarded {o : Override} (mem : o ∈ inForce steps) (name_eq : o.name = name) (below : o.number < bound)
    (last : ∀ other ∈ inForce steps, other.name = name → other.number < bound → other.number ≤ o.number) :
    Leaves first steps name bound o.text
  | bare (none : ∀ o ∈ inForce steps, o.name = name → bound ≤ o.number) :
    Leaves first steps name bound (first.text? name)

/-- What a variable has without a guard in force: its first value, of which only a text outlasts a guard. -/
def restored (first : Environment) (steps : List Step) (name : String) : Option Environment.Value :=
  if name ∈ (made steps).map (·.1) then (first.text? name).map .text else first.get name

/-- What nested steps keep: each guard in force has kept what the guards beneath it leave, and each variable shows what
its innermost guard gives it. -/
structure Unwinding (first : Environment) (steps : List Step) (g : GuardedEnvironment) : Prop where
  length_guards : g.guards.length = (made steps).length
  released_lt : ∀ i, Step.release i ∈ steps → i < (made steps).length
  saved : ∀ o ∈ inForce steps, ∃ text,
    g.guards[o.number]? = some (some ⟨o.name, text⟩) ∧ Leaves first steps o.name o.number text
  shown : ∀ name, (∃ o, Innermost steps o ∧ o.name = name ∧ g.env.get name = o.text.map .text) ∨
    (∀ o ∈ inForce steps, o.name ≠ name) ∧ g.env.get name = restored first steps name

theorem text?_restored (first : Environment) (steps : List Step) (name : String) :
    (restored first steps name).bind Environment.Value.text? = first.text? name := by
  rw [restored]
  split
  · cases first.text? name <;> rfl
  · rfl

section Steps

variable {first : Environment} {steps : List Step} {g : GuardedEnvironment} {name : String} {text : Option String}
  {bound i : Nat}

theorem restored_change {other : String} (hne : other ≠ name) :
    restored first (steps ++ [.change name text]) other = restored first steps other := by
  have hmade : other ∈ (made (steps ++ [.change name text])).map (·.1) ↔ other ∈ (made steps).map (·.1) := by
    simp [made_append, Step.made?, hne]
  simp only [restored, hmade]

theorem restored_release : restored first (steps ++ [.release i]) name = restored first steps name := by
  have hmade : made (steps ++ [.release i]) = made steps := by simp [made_append, Step.made?]
  rw [restored, restored, hmade]

theorem Leaves.change (hleaves : Leaves first steps name bound text) (hbound : bound ≤ (made steps).length)
    (hreleased : ∀ i, Step.release i ∈ steps → i < (made steps).length) (name' : String) (text' : Option String) :
    Leaves first (steps ++ [.change name' text']) name bound text := by
  cases hleaves with
  | guarded hmem hname hbelow hlast =>
    refine .guarded ((mem_inForce_change hreleased).2 (.inl hmem)) hname hbelow fun other hother hsame hlt => ?_
    rcases (mem_inForce_change hreleased).1 hother with hother | rfl
    · exact hlast other hother hsame hlt
    · exact absurd hlt (Nat.not_lt.2 hbound)
  | bare hnone =>
    refine .bare fun o ho hsame => ?_
    rcases (mem_inForce_change hreleased).1 ho with ho | rfl
    · exact hnone o ho hsame
    · exact hbound

/-- A guard that is released matters only to what stands over it. -/
theorem Leaves.release (hleaves : Leaves first steps name bound text)
    (hover : ∀ o ∈ inForce steps, o.name = name → o.number = i → bound ≤ i) :
    Leaves first (steps ++ [.release i]) name bound text := by
  cases hleaves with
  | guarded hmem hname hbelow hlast =>
    refine .guarded (mem_inForce_release.2 ⟨hmem, fun hi => ?_⟩) hname hbelow fun other hother hsame hlt => ?_
    · have := hover _ hmem hname hi
      omega
    · exact hlast other (mem_inForce_release.1 hother).1 hsame hlt
  | bare hnone => exact .bare fun o ho hsame => hnone o (mem_inForce_release.1 ho).1 hsame

/-- The text that a variable has is the one that all of its guards leave to it. -/
theorem Unwinding.leaves (h : Unwinding first steps g) (name : String) :
    Leaves first steps name (made steps).length (g.env.text? name) := by
  rcases h.shown name with ⟨o, ⟨hmem, hlast⟩, rfl, hget⟩ | ⟨hnone, hget⟩
  · have htext : g.env.text? o.name = o.text := by
      rw [Environment.text?, hget]
      cases o.text <;> rfl
    rw [htext]
    exact .guarded hmem rfl (number_lt_of_mem_inForce hmem) fun other hother hsame _ => hlast other hother hsame
  · have htext : g.env.text? name = first.text? name := by rw [Environment.text?, hget, text?_restored]
    rw [htext]
    exact .bare fun o ho hsame => absurd hsame (hnone o ho)

theorem Unwinding.start (first : Environment) : Unwinding first [] { env := first } where
  length_guards := rfl
  released_lt _ h := by cases h
  saved _ h := by cases h
  shown _ := .inr ⟨List.forall_mem_nil _, rfl⟩

/-- A new guard keeps what its variable shows, and is the innermost of it from then on. -/
theorem Unwinding.change (h : Unwinding first steps g) (name : String) (text : Option String) :
    Unwinding first (steps ++ [.change name text]) (g.apply (.change name text)) := by
  have hmem {o : Override} : o ∈ inForce (steps ++ [.change name text]) ↔
      o ∈ inForce steps ∨ o = ⟨(made steps).length, name, text⟩ := mem_inForce_change h.released_lt
  have hmade : made (steps ++ [.change name text]) = made steps ++ [(name, text)] := made_append ..
  have hnew : (⟨(made steps).length, name, text⟩ : Override) ∈ inForce (steps ++ [.change name text]) :=
    hmem.2 (.inr rfl)
  refine ⟨?_, fun i hi => ?_, fun o ho => ?_, fun other => ?_⟩
  · simp [apply, hmade, h.length_guards]
  · have := h.released_lt i (by simpa using hi)
    simp [hmade]
    omega
  · rcases hmem.1 ho with ho | rfl
    · obtain ⟨saved, hguard, hleaves⟩ := h.saved o ho
      have hlt := number_lt_of_mem_inForce ho
      refine ⟨saved, ?_, hleaves.change (Nat.le_of_lt hlt) h.released_lt name text⟩
      rw [← h.length_guards] at hlt
      simp only [apply]
      rw [List.getElem?_append_left hlt, hguard]
    · refine ⟨g.env.text? name, ?_, (h.leaves name).change (Nat.le_refl _) h.released_lt name text⟩
      simp [apply, ← h.length_guards]
  · by_cases hother : other = name
    · subst hother
      refine .inl ⟨_, ⟨hnew, fun o ho _ => ?_⟩, rfl, by simp [apply, Environment.put]⟩
      rcases hmem.1 ho with ho | rfl
      · exact Nat.le_of_lt (number_lt_of_mem_inForce ho)
      · exact Nat.le_refl _
    · have hget : (g.apply (.change name text)).env.get other = g.env.get other := if_neg hother
      rw [hget]
      rcases h.shown other with ⟨o, ⟨ho, hlast⟩, hname, hget⟩ | ⟨hnone, hget⟩
      · refine .inl ⟨o, ⟨hmem.2 (.inl ho), fun o' ho' hsame => ?_⟩, hname, hget⟩
        rcases hmem.1 ho' with ho' | rfl
        · exact hlast o' ho' hsame
        · exact absurd (hname.symm.trans hsame.symm) hother
      · refine .inr ⟨fun o ho hsame => ?_, ?_⟩
        · rcases hmem.1 ho with ho | rfl
          · exact hnone o ho hsame
          · exact hother hsame.symm
        · rw [hget, restored_change hother]

/-- An innermost guard that is released gives its variable back what it has kept. -/
theorem Unwinding.release (h : Unwinding first steps g) {o : Override} (ho : Innermost steps o) :
    Unwinding first (steps ++ [.release o.number]) (g.apply (.release o.number)) := by
  obtain ⟨saved, hguard, hleaves⟩ := h.saved o ho.1
  have happly : g.apply (.release o.number) =
      { env := g.env.put o.name (saved.map .text), guards := g.guards.set o.number none } := by
    simp only [apply, hguard]
  have hmade : made (steps ++ [.release o.number]) = made steps := by simp [made_append, Step.made?]
  rw [happly]
  refine ⟨?_, fun i hi => ?_, fun o' ho' => ?_, fun name => ?_⟩
  · rw [List.length_set, hmade, h.length_guards]
  · rw [hmade]
    rcases List.mem_append.1 hi with hi | hi
    · exact h.released_lt i hi
    · obtain rfl : i = o.number := by simpa using hi
      exact number_lt_of_mem_inForce ho.1
  · obtain ⟨ho', hne⟩ := mem_inForce_release.1 ho'
    obtain ⟨saved', hguard', hleaves'⟩ := h.saved o' ho'
    refine ⟨saved', by simp [Ne.symm hne, hguard'], hleaves'.release fun o'' ho'' hname hnumber => ?_⟩
    -- The released guard is over all others of its variable.
    rw [eq_of_number_eq ho.1 ho'' hnumber] at hname
    exact ho.2 o' ho' hname.symm
  · by_cases hname : name = o.name
    · subst hname
      have hget : (g.env.put o.name (saved.map .text)).get o.name = saved.map .text := if_pos rfl
      rw [hget]
      cases hleaves with
      | @guarded inner hmem hsame hbelow hlast =>
        refine .inl ⟨inner, ⟨mem_inForce_release.2 ⟨hmem, Nat.ne_of_lt hbelow⟩, fun o' ho' hsame' => ?_⟩, hsame, rfl⟩
        obtain ⟨ho', hne⟩ := mem_inForce_release.1 ho'
        have hle := ho.2 o' ho' (hsame'.trans hsame)
        exact hlast o' ho' (hsame'.trans hsame) (Nat.lt_of_le_of_ne hle hne)
      | bare hnone =>
        refine .inr ⟨fun o' ho' hsame => ?_, ?_⟩
        · obtain ⟨ho', hne⟩ := mem_inForce_release.1 ho'
          exact hne (Nat.le_antisymm (ho.2 o' ho' hsame) (hnone o' ho' hsame))
        · have hmem : o.name ∈ (made steps).map (·.1) :=
            List.mem_map_of_mem (List.mem_of_getElem? (mem_inForce.1 ho.1).1)
          rw [restored_release, restored, if_pos hmem]
    · have hget : (g.env.put o.name (saved.map .text)).get name = g.env.get name := if_neg hname
      rw [hget, restored_release]
      rcases h.shown name with ⟨inner, ⟨hmem, hlast⟩, rfl, hinner⟩ | ⟨hnone, hbare⟩
      · refine .inl ⟨inner, ⟨mem_inForce_release.2 ⟨hmem, fun hnumber => ?_⟩, fun o' ho' => ?_⟩, rfl, hinner⟩
        · exact hname (congrArg Override.name (eq_of_number_eq ho.1 hmem hnumber))
        · exact hlast o' (mem_inForce_release.1 ho').1
      · exact .inr ⟨fun o' ho' => hnone o' (mem_inForce_release.1 ho').1, hbare⟩

/-- A step changes no variable but the one that it is about. -/
theorem Unwinding.frame (h : Unwinding first steps g) {step : Step} (hadmits : Admits steps step)
    (hname : step.name? steps ≠ some name) : (g.apply step).env.get name = g.env.get name := by
  cases step with
  | change changed text => exact if_neg fun heq => hname (congrArg some heq.symm)
  | release i =>
    obtain ⟨o, ho, rfl, -⟩ := hadmits
    obtain ⟨saved, hguard, -⟩ := h.saved o ho
    rw [Step.name?, (mem_inForce.1 ho).1] at hname
    simp only [apply, hguard]
    exact if_neg fun heq => hname (congrArg some heq.symm)
  | write => exact hadmits.elim

/-- What a variable without a guard in force has is its first value, unless this is no text and it had a guard. -/
theorem restored_eq (first : Environment) (steps : List Step) (name : String) :
    ((∀ bytes, first.get name ≠ some (.bytes bytes)) ∨ name ∉ (made steps).map (·.1) →
      restored first steps name = first.get name) ∧
    (∀ bytes, first.get name = some (.bytes bytes) → name ∈ (made steps).map (·.1) →
      restored first steps name = none) := by
  refine ⟨fun h => ?_, fun bytes hbytes hmade => ?_⟩
  · rw [restored]
    split
    · rename_i hmade
      rw [Environment.text?]
      rcases hfirst : first.get name with _ | text | bytes
      · rfl
      · rfl
      · exact absurd hfirst (h.resolve_right (absurd hmade) bytes)
    · rfl
  · rw [restored, if_pos hmade, Environment.text?, hbytes]
    rfl

end Steps

section Run

variable {first : Environment} {steps : List Step}

/-- The states of a run, its first one included, are those after the first steps of it. -/
theorem getElem?_run (g : GuardedEnvironment) (steps : List Step) (k : Nat) :
    (g :: g.run steps)[k]? = if k ≤ steps.length then some ((steps.take k).foldl apply g) else none := by
  induction steps generalizing g k with
  | nil => cases k <;> simp [run]
  | cons step steps ih =>
    cases k with
    | zero => simp
    | succ k =>
      rw [run, List.getElem?_cons_succ, ih]
      simp

theorem Nested.unwinding (h : Nested steps) (first : Environment) {k : Nat} (hk : k ≤ steps.length) :
    Unwinding first (steps.take k) ((steps.take k).foldl apply { env := first }) := by
  induction k with
  | zero => exact .start first
  | succ k ih =>
    have hunwinding := ih (Nat.le_of_succ_le hk)
    have hadmits := h k hk
    rw [List.take_succ_eq_append_getElem hk, List.foldl_append]
    cases hstep : steps[k] with
    | change name text => exact hunwinding.change name text
    | release i =>
      rw [hstep] at hadmits
      obtain ⟨o, -, rfl, ho⟩ := hadmits
      exact hunwinding.release ho
    | write =>
      rw [hstep] at hadmits
      exact hadmits.elim

/-- **Guards unwind.** While the guards of each variable are released from the last made to the first, and nothing else
writes, a variable with a guard in force shows what its innermost guard gives it. Once all of its guards are released it
has its first value again; but if this was no text, it is unset. No step changes a variable that it is not about. -/
theorem Nested.unwinds (h : Nested steps) (first : Environment) {k : Nat} {g : GuardedEnvironment}
    (hg : ({ env := first } :: run { env := first } steps)[k]? = some g) :
    let done := steps.take k
    (∀ o ∈ inForce done, ∃ inner, Innermost done inner ∧ inner.name = o.name ∧
      g.env.get o.name = inner.text.map .text) ∧
    (∀ name, (∀ o ∈ inForce done, o.name ≠ name) →
      ((∀ bytes, first.get name ≠ some (.bytes bytes)) ∨ name ∉ (made done).map (·.1) →
        g.env.get name = first.get name) ∧
      ∀ bytes, first.get name = some (.bytes bytes) → name ∈ (made done).map (·.1) → g.env.get name = none) ∧
    ∀ step after, steps[k]? = some step → (run { env := first } steps)[k]? = some after →
      ∀ name, step.name? done ≠ some name → after.env.get name = g.env.get name := by
  intro done
  rw [getElem?_run] at hg
  split at hg
  · rename_i hk
    cases hg
    have hunwinding : Unwinding first done _ := h.unwinding first hk
    refine ⟨fun o ho => ?_, fun name hnone => ?_, fun step after hstep hafter name hname => ?_⟩
    · rcases hunwinding.shown o.name with ⟨inner, hinner, hname, hget⟩ | ⟨hnone, -⟩
      · exact ⟨inner, hinner, hname, hget⟩
      · exact absurd rfl (hnone o ho)
    · rcases hunwinding.shown name with ⟨inner, hinner, hname, -⟩ | ⟨-, hget⟩
      · exact absurd hname (hnone inner hinner.1)
      · rw [hget]
        exact restored_eq first done name
    · obtain ⟨hlt, rfl⟩ := List.getElem?_eq_some_iff.1 hstep
      have hstates := getElem?_run { env := first } steps (k + 1)
      rw [if_pos (Nat.succ_le_of_lt hlt), List.getElem?_cons_succ, hafter, List.take_succ_eq_append_getElem hlt,
        List.foldl_append] at hstates
      cases hstates
      exact hunwinding.frame (h k hlt) hname
  · cases hg

/-- Even where a text is emptied and unset, and a variable begins with bytes: guards of three variables, whose releases
cross. Between the two guards of `A` the text of the outer one is back; at the end `A` has its text and `B` is unset. -/
theorem Nested.unwinds_crossing :
    let first : Environment := (Environment.empty.put "A" (some (.text "a"))).put "B" (some (.bytes [255]))
    let steps : List Step :=
      [.change "A" (some ""), .change "B" (some "b"), .change "A" none, .release 1, .change "C" (some "c"), .release 2,
        .release 3, .release 0]
    let states := { env := first } :: run { env := first } steps
    Nested steps ∧
    (∃ g, states[6]? = some g ∧ g.env.get "A" = some (.text "")) ∧
    ∃ g, states[8]? = some g ∧ g.env.get "A" = some (.text "a") ∧ g.env.get "B" = none ∧ g.env.get "C" = none := by
  intro first steps states
  have hnested : Nested steps := by decide
  have hinForce : inForce (steps.take 6) = [⟨0, "A", some ""⟩, ⟨3, "C", some "c"⟩] := by decide
  obtain ⟨hshown, -⟩ := hnested.unwinds first (k := 6) rfl
  obtain ⟨inner, hinner, hname, hget⟩ := hshown ⟨0, "A", some ""⟩ (by decide)
  obtain ⟨-, hrestored, -⟩ := hnested.unwinds first (k := 8) rfl
  refine ⟨hnested, ⟨_, rfl, hget.trans ?_⟩, ⟨_, rfl, ?_, ?_, ?_⟩⟩
  · have hmem := hinner.1
    rw [hinForce] at hmem
    simp only [List.mem_cons, List.not_mem_nil, or_false] at hmem
    rcases hmem with rfl | rfl
    · rfl
    · simp at hname
  · exact (hrestored "A" (by decide)).1 (.inl fun bytes h => by cases h)
  · exact (hrestored "B" (by decide)).2 [255] rfl (by decide)
  · exact (hrestored "C" (by decide)).1 (.inl fun bytes h => by cases h)

end Run

end Highlight.GuardedEnvironment

/-
Match powers: how well a selector fits a scope path. A power is a number kept
to 53 binary digits, ties going to the even neighbour, and infinite from 2^1024
on, so that deep paths lose their small terms.
-/

namespace Highlight

inductive Power where
  | finite (value : Nat)
  | infinite
  deriving DecidableEq, Repr, Inhabited

namespace Power

/-- The binary digits that are kept. -/
def precision : Nat := 53

/-- The first power of two that is infinite. -/
def limit : Nat := Nat.pow 2 1024

/-- The nearest whole number to `n / unit`; a tie goes to the even one. -/
def roundQuotient (n unit : Nat) : Nat :=
  let quotient := n / unit
  let twice := 2 * (n % unit)
  if unit < twice ∨ (twice = unit ∧ quotient % 2 = 1) then quotient + 1 else quotient

/-- The power nearest to a number. -/
def round (n : Nat) : Power :=
  let unit := Nat.pow 2 (n.log2 + 1 - precision)
  let value := roundQuotient n unit * unit
  if value < limit then finite value else infinite

def add : Power → Power → Power
  | finite m, finite n => round (m + n)
  | _, _ => infinite

/-- What a scope of `atoms` atoms contributes at depth `depth`, the outermost being 0. -/
def contribution (atoms depth : Nat) : Power := round (atoms * Nat.pow 2 (3 * depth))

/-- Whether a power is at most another. -/
def le : Power → Power → Bool
  | finite m, finite n => m ≤ n
  | _, infinite => true
  | infinite, finite _ => false

theorem le_refl (p : Power) : p.le p = true := by cases p <;> simp [le]

theorem le_total (p q : Power) : p.le q = true ∨ q.le p = true := by
  cases p <;> cases q <;> simp [le]; omega

theorem le_trans {p q r : Power} (h₁ : p.le q = true) (h₂ : q.le r = true) : p.le r = true := by
  cases p <;> cases q <;> cases r <;> simp_all [le]; omega

theorem le_antisymm {p q : Power} (h₁ : p.le q = true) (h₂ : q.le p = true) : p = q := by
  cases p <;> cases q <;> simp_all [le]; omega

instance : LE Power := ⟨fun p q => p.le q = true⟩

instance : DecidableLE Power := fun p q => inferInstanceAs (Decidable (p.le q = true))

instance : Std.IsLinearOrder Power where
  le_refl := le_refl
  le_total := le_total
  le_trans _ _ _ := le_trans
  le_antisymm _ _ := le_antisymm

instance : Std.LawfulOrderBEq Power where
  beq_iff_le_and_ge p q := by
    rw [beq_iff_eq]
    exact ⟨fun h => h ▸ ⟨le_refl p, le_refl p⟩, fun h => le_antisymm h.1 h.2⟩

/-- Powers are in a linear order. -/
instance : Std.LinearOrderPackage Power := .ofLE Power

end Power

end Highlight

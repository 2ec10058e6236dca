import Mathlib.Tactic

/-!
# Signed arithmetic that may overflow

* `Fits w x`    `x` is a value of a signed integer of `w` bits;
* `check w x`   the value of an operation whose exact result is `x`, or none where it overflows.
-/

namespace Signed

def Fits (w : Nat) (x : Int) : Prop := -2 ^ (w - 1) ≤ x ∧ x < 2 ^ (w - 1)

instance (w : Nat) (x : Int) : Decidable (Fits w x) := inferInstanceAs (Decidable (_ ∧ _))

def check (w : Nat) (x : Int) : Option Int := if Fits w x then some x else none

theorem check_eq {w : Nat} {x : Int} (h : Fits w x) : check w x = some x := if_pos h

theorem check_some {w : Nat} {x y : Int} : check w x = some y ↔ Fits w x ∧ x = y := by
  unfold check
  split
  · rename_i h
    rw [Option.some.injEq, and_iff_right h]
  · rename_i h
    exact ⟨nofun, fun hc => absurd hc.1 h⟩

end Signed

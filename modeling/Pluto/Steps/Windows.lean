import Mathlib.Tactic

/-!
# Runs of equal events in a list

`Below q m n t`: in `t`, behind `n` events that satisfy `q`, no `m` events one after the other
satisfy `q`. It is decided from the front (`below_iff` says what it means), and `streak` counts the
events that satisfy `q` at the end of a list.
-/

namespace Windows

section
variable {α : Type} (q : α → Bool)

/-- the number of events satisfying `q` behind the last one that does not, `n` at the start -/
def streak (n : Nat) (t : List α) : Nat := t.foldl (fun n c => if q c then n + 1 else 0) n

def Below (m : Nat) : Nat → List α → Prop
  | n, [] => n < m
  | n, c :: t => n < m ∧ Below m (if q c then n + 1 else 0) t

theorem Below.lt {q : α → Bool} {m n : Nat} {t : List α} (h : Below q m n t) : n < m := by
  cases t with
  | nil => exact h
  | cons c t => exact h.1

/-- only events that satisfy `q` -/
theorem below_all {q : α → Bool} {m n : Nat} {t : List α} (h : ∀ c ∈ t, q c = true) :
    Below q m n t ↔ n + t.length < m := by
  induction t generalizing n with
  | nil => rfl
  | cons c t ih =>
    rw [Below, if_pos (h c List.mem_cons_self), ih fun d hd => h d (List.mem_cons_of_mem c hd),
      List.length_cons]
    omega

/-- **What it means**: a window of such events at the front, or anywhere. -/
theorem below_iff {q : α → Bool} {m n : Nat} {t : List α} :
    Below q m n t ↔
      (∀ w z, t = w ++ z → (∀ c ∈ w, q c = true) → n + w.length < m) ∧
        ∀ a w z, t = a ++ w ++ z → (∀ c ∈ w, q c = true) → w.length < m := by
  induction t generalizing n with
  | nil =>
    constructor
    · intro h
      refine ⟨fun w z ht _ => ?_, fun a w z ht _ => ?_⟩
      · obtain ⟨rfl, -⟩ := List.append_eq_nil_iff.mp ht.symm
        exact h
      · obtain ⟨haw, -⟩ := List.append_eq_nil_iff.mp ht.symm
        obtain ⟨-, rfl⟩ := List.append_eq_nil_iff.mp haw
        exact lt_of_le_of_lt (Nat.zero_le n) h
    · intro h
      exact h.1 [] [] rfl nofun
  | cons c t ih =>
    rw [Below, ih]
    constructor
    · rintro ⟨hn, hfront, hany⟩
      have hhead : ∀ w z, c :: t = w ++ z → (∀ d ∈ w, q d = true) → n + w.length < m := by
        intro w z ht hw
        cases w with
        | nil => exact hn
        | cons d w =>
          obtain ⟨rfl, ht'⟩ := List.cons.inj ht
          have := hfront w z ht' fun e he => hw e (List.mem_cons_of_mem c he)
          rw [if_pos (hw c List.mem_cons_self)] at this
          rw [List.length_cons]
          omega
      refine ⟨hhead, fun a w z ht hw => ?_⟩
      cases a with
      | nil =>
        have := hhead w z ht hw
        omega
      | cons d a => exact hany a w z (List.cons.inj ht).2 hw
    · rintro ⟨hfront, hany⟩
      refine ⟨hfront [] (c :: t) rfl nofun, fun w z ht hw => ?_, fun a w z ht hw => ?_⟩
      · by_cases hc : q c = true
        · have := hfront (c :: w) z (by rw [ht]; rfl) (List.forall_mem_cons.mpr ⟨hc, hw⟩)
          rw [if_pos hc]
          rw [List.length_cons] at this
          omega
        · have := hany [c] w z (by rw [ht]; rfl) hw
          rw [if_neg hc]
          omega
      · exact hany (c :: a) w z (by rw [ht]; rfl) hw

end

end Windows

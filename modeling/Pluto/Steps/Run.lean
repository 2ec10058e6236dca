import Mathlib.Data.List.Basic

/-!
# Runs of a machine

A machine is a partial step function `step : σ → α → Option σ`; an action that is not enabled in a
state has no successor there.

* `Run step s₀ es s`   the events `es` lead from `s₀` to `s`;
* `Run.fold`           a ghost value that is computed along a run and a relation that every step
  keeps;
* `events`             the run of a list of actions;
* `Along`, `along_iff` a condition on every step of a total machine, where one step that breaks it
  is seen in all states behind it.
-/

namespace Steps

/-- one step: the action and the states around it -/
structure Event (σ α : Type) where
  before : σ
  action : α
  after : σ

section
variable {σ α β : Type} {step : σ → α → Option σ} {s₀ : σ}

inductive Run (step : σ → α → Option σ) (s₀ : σ) : List (Event σ α) → σ → Prop where
  | start : Run step s₀ [] s₀
  | next {es : List (Event σ α)} {s s' : σ} {a : α} :
      Run step s₀ es s → step s a = some s' → Run step s₀ (es ++ [⟨s, a, s'⟩]) s'

/-- what each step keeps of a ghost value and the state holds at the end of the run -/
theorem Run.fold {f : β → Event σ α → β} {R : β → σ → Prop} {b : β} (h0 : R b s₀)
    (hstep : ∀ b s a s', R b s → step s a = some s' → R (f b ⟨s, a, s'⟩) s') {es : List (Event σ α)}
    {s : σ} (h : Run step s₀ es s) : R (es.foldl f b) s := by
  induction h with
  | start => exact h0
  | next _ hs ih =>
    rw [List.foldl_append, List.foldl_cons, List.foldl_nil]
    exact hstep _ _ _ _ ih hs

/-- the events of a list of actions, where they are all enabled -/
def events (step : σ → α → Option σ) (s : σ) : List α → Option (List (Event σ α) × σ)
  | [] => some ([], s)
  | a :: as => (step s a).bind fun s' => (events step s' as).map fun p => (⟨s, a, s'⟩ :: p.1, p.2)

theorem Run.append_events (as : List α) {es₀ es : List (Event σ α)} {s s' : σ}
    (h : Run step s₀ es₀ s) (he : events step s as = some (es, s')) :
    Run step s₀ (es₀ ++ es) s' := by
  induction as generalizing es₀ es s with
  | nil =>
    cases he
    rwa [List.append_nil]
  | cons a as ih =>
    obtain ⟨s₁, hs, hrest⟩ := Option.bind_eq_some_iff.mp he
    obtain ⟨p, hp, hpe⟩ := Option.map_eq_some_iff.mp hrest
    cases hpe
    have hrun := ih (Run.next h hs) hp
    rwa [List.append_assoc] at hrun

theorem run_events (as : List α) {es : List (Event σ α)} {s : σ}
    (h : events step s₀ as = some (es, s)) :
    Run step s₀ es s :=
  Run.append_events as Run.start h

end

/-! ## total machines -/

section
variable {σ α : Type} (step : σ → α → σ)

/-- the condition holds of every action of a run, in the state before it -/
def Along (C : σ → α → Prop) : σ → List α → Prop
  | _, [] => True
  | s, a :: as => C s a ∧ Along C (step s a) as

variable {step} {C : σ → α → Prop} {P : α → Prop} {I G B : σ → Prop}

/-- a run whose steps all meet the condition ends in `G`, every other one in `B` -/
theorem along_cases (hI : ∀ s a, I s → P a → I (step s a))
    (hG : ∀ s a, I s → P a → C s a → G s → G (step s a))
    (hC : ∀ s a, I s → P a → ¬ C s a → B (step s a)) (hB : ∀ s a, I s → P a → B s → B (step s a))
    (as : List α) (hP : ∀ a ∈ as, P a) {s : σ} (h : I s) :
    I (as.foldl step s) ∧ (B s → B (as.foldl step s)) ∧
      (Along step C s as → G s → G (as.foldl step s)) ∧
      (¬ Along step C s as → B (as.foldl step s)) := by
  induction as generalizing s with
  | nil => exact ⟨h, id, fun _ => id, fun hn => absurd trivial hn⟩
  | cons a as ih =>
    have ha : P a := hP a List.mem_cons_self
    obtain ⟨hi, hb, hg, hn⟩ := ih (fun b hb => hP b (List.mem_cons_of_mem a hb)) (hI s a h ha)
    refine ⟨hi, fun h' => hb (hB s a h ha h'), fun hall h' => hg hall.2 (hG s a h ha hall.1 h'),
      fun hnot => ?_⟩
    by_cases hc : C s a
    · exact hn fun hall => hnot ⟨hc, hall⟩
    · exact hb (hC s a h ha hc)

/-- where no state is in both, the state at the end tells whether all steps met the condition -/
theorem along_iff (hI : ∀ s a, I s → P a → I (step s a))
    (hG : ∀ s a, I s → P a → C s a → G s → G (step s a))
    (hC : ∀ s a, I s → P a → ¬ C s a → B (step s a)) (hB : ∀ s a, I s → P a → B s → B (step s a))
    (hGB : ∀ s, I s → G s → ¬ B s) (as : List α) (hP : ∀ a ∈ as, P a) {s : σ} (h : I s) (h0 : G s) :
    G (as.foldl step s) ↔ Along step C s as := by
  obtain ⟨hi, -, hg, hn⟩ := along_cases hI hG hC hB as hP h
  refine ⟨fun hend => ?_, fun hall => hg hall h0⟩
  by_contra hnot
  exact hGB _ hi hend (hn hnot)

end

end Steps

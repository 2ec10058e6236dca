import Mathlib.Data.List.Basic

/-!
# Agents with one shared state

Each agent has a private state and works on the one shared state; other parties disturb the shared
state between its operations.

* `runAlone`, `runShared` the operations of one agent, and an interleaving of all agents with the
  others;
* `opsOf`, `resultsOf`      what of an interleaving belongs to one agent;
* `Isolated`                an operation whose result and private effect do not depend on the shared
  state;
* `Throughout`              every operation meets a condition on the private state in front of it;
* `run_isolated`            each agent then gets what it would have got alone;
* `throughout_of_run`       a run in which an operation misses the condition does not get to its
  end.
-/

namespace Steps

/-- one act of an interleaving: an operation of agent `i`, or a disturbance by others -/
inductive Act (ι ω ε : Type) where
  | own (i : ι) (op : ω)
  | others (e : ε)
deriving DecidableEq, Repr

section
variable {σ τ ι ω ε ρ : Type}

/-- the results of one agent that has the shared state to itself -/
def runAlone (exec : σ → τ → ω → Option (ρ × τ × σ)) : σ → τ → List ω → Option (List ρ × τ × σ)
  | s, t, [] => some ([], t, s)
  | s, t, op :: ops =>
    (exec s t op).bind fun p => (runAlone exec p.2.2 p.2.1 ops).map fun q => (p.1 :: q.1, q.2)

/-- the results of all agents, each with the agent it belongs to -/
def runShared [DecidableEq ι] (exec : σ → τ → ω → Option (ρ × τ × σ)) (disturb : σ → ε → σ) :
    σ → (ι → τ) → List (Act ι ω ε) → Option (List (ι × ρ) × (ι → τ) × σ)
  | s, agents, [] => some ([], agents, s)
  | s, agents, .own i op :: acts => (exec s (agents i) op).bind fun p =>
      (runShared exec disturb p.2.2 (Function.update agents i p.2.1) acts).map fun q =>
        ((i, p.1) :: q.1, q.2)
  | s, agents, .others e :: acts => runShared exec disturb (disturb s e) agents acts

def opsOf [DecidableEq ι] (i : ι) : List (Act ι ω ε) → List ω
  | [] => []
  | .own j op :: acts => if j = i then op :: opsOf i acts else opsOf i acts
  | .others _ :: acts => opsOf i acts

def resultsOf [DecidableEq ι] (i : ι) (out : List (ι × ρ)) : List ρ :=
  out.filterMap fun p => if p.1 = i then some p.2 else none

/-- From private states with `I`, the operation `op` has no result where `Ok` fails.  Where `Ok`
holds it succeeds on every shared state, with the same result and the same private effect, and keeps
`I`. -/
structure Isolated (exec : σ → τ → ω → Option (ρ × τ × σ)) (I : τ → Prop) (Ok : τ → ω → Prop)
    (op : ω) : Prop where
  runs : ∀ t, I t → Ok t op → ∃ r t', I t' ∧ ∀ s, ∃ s', exec s t op = some (r, t', s')
  stops : ∀ t, I t → ¬ Ok t op → ∀ s, exec s t op = none

/-- every operation of the interleaving meets `Ok` in the private state in front of it -/
def Throughout [DecidableEq ι] (exec : σ → τ → ω → Option (ρ × τ × σ)) (disturb : σ → ε → σ)
    (Ok : τ → ω → Prop) :
    σ → (ι → τ) → List (Act ι ω ε) → Prop
  | _, _, [] => True
  | s, agents, .own i op :: acts => Ok (agents i) op ∧ ∀ p, exec s (agents i) op = some p →
      Throughout exec disturb Ok p.2.2 (Function.update agents i p.2.1) acts
  | s, agents, .others e :: acts => Throughout exec disturb Ok (disturb s e) agents acts

end

section
variable {σ τ ι ω ε ρ : Type} [DecidableEq ι] {exec : σ → τ → ω → Option (ρ × τ × σ)}
  {I : ι → τ → Prop}

lemma resultsOf_cons_self (i : ι) (r : ρ) (out : List (ι × ρ)) :
    resultsOf i ((i, r) :: out) = r :: resultsOf i out := by
  simp [resultsOf]

lemma resultsOf_cons_ne {i j : ι} (h : j ≠ i) (r : ρ) (out : List (ι × ρ)) :
    resultsOf i ((j, r) :: out) = resultsOf i out := by
  simp [resultsOf, h]

lemma update_kept {agents : ι → τ} (hI : ∀ i, I i (agents i)) {j : ι} {t : τ} (ht : I j t) (i : ι) :
    I i (Function.update agents j t i) := by
  rcases eq_or_ne i j with rfl | hne
  · rwa [Function.update_self]
  · rw [Function.update_of_ne hne]
    exact hI i

/-- Where every operation of an agent is isolated and meets its condition, an interleaving runs to
its end, keeps what the agents keep, and gives each agent what its own operations give it alone,
from any shared state. -/
theorem run_isolated {disturb : σ → ε → σ} {Ok : τ → ω → Prop} {acts : List (Act ι ω ε)}
    (hiso : ∀ i op, Act.own i op ∈ acts → Isolated exec (I i) Ok op) {s : σ} {agents : ι → τ}
    (hI : ∀ i, I i (agents i)) (hok : Throughout exec disturb Ok s agents acts) :
    ∃ out agents' s', runShared exec disturb s agents acts = some (out, agents', s') ∧
      (∀ i, I i (agents' i)) ∧
      ∀ i s₀, ∃ s₁, runAlone exec s₀ (agents i) (opsOf i acts)
        = some (resultsOf i out, agents' i, s₁) := by
  induction acts generalizing s agents with
  | nil => exact ⟨[], agents, s, rfl, hI, fun i s₀ => ⟨s₀, rfl⟩⟩
  | cons act acts ih =>
    have hrest : ∀ i op, Act.own i op ∈ acts → Isolated exec (I i) Ok op := fun i op h =>
      hiso i op (List.mem_cons_of_mem _ h)
    cases act with
    | others e => exact ih hrest hI hok
    | own j op =>
      -- the operation is decided by the private state of `j`; the shared state only moves on
      obtain ⟨r, t', ht', hexec⟩ := (hiso j op List.mem_cons_self).runs (agents j) (hI j) hok.1
      obtain ⟨s', hs'⟩ := hexec s
      obtain ⟨out, agents', s'', hrun, hI', halone⟩ := ih hrest (update_kept hI ht') (hok.2 _ hs')
      refine ⟨(j, r) :: out, agents', s'', ?_, hI', ?_⟩
      · simp only [runShared, hs', Option.bind_some, hrun, Option.map_some]
      · intro i s₀
        rcases eq_or_ne j i with rfl | hne
        · obtain ⟨s₁, hs₁⟩ := hexec s₀
          obtain ⟨s₂, hs₂⟩ := halone j s₁
          rw [Function.update_self] at hs₂
          refine ⟨s₂, ?_⟩
          rw [opsOf, if_pos rfl, resultsOf_cons_self]
          simp only [runAlone, hs₁, Option.bind_some, hs₂, Option.map_some]
        · obtain ⟨s₂, hs₂⟩ := halone i s₀
          rw [Function.update_of_ne hne.symm] at hs₂
          refine ⟨s₂, ?_⟩
          rw [opsOf, if_neg hne, resultsOf_cons_ne hne]
          exact hs₂

theorem run_stopped {disturb : σ → ε → σ} {Ok : τ → ω → Prop} {acts : List (Act ι ω ε)}
    (hiso : ∀ i op, Act.own i op ∈ acts → Isolated exec (I i) Ok op) {s : σ} {agents : ι → τ}
    (hI : ∀ i, I i (agents i)) (hstop : ¬ Throughout exec disturb Ok s agents acts) :
    runShared exec disturb s agents acts = none := by
  induction acts generalizing s agents with
  | nil => exact absurd trivial hstop
  | cons act acts ih =>
    have hrest : ∀ i op, Act.own i op ∈ acts → Isolated exec (I i) Ok op := fun i op h =>
      hiso i op (List.mem_cons_of_mem _ h)
    cases act with
    | others e => exact ih hrest hI hstop
    | own j op =>
      by_cases hop : Ok (agents j) op
      · obtain ⟨r, t', ht', hexec⟩ := (hiso j op List.mem_cons_self).runs (agents j) (hI j) hop
        obtain ⟨s', hs'⟩ := hexec s
        have htail : ¬ Throughout exec disturb Ok s' (Function.update agents j t') acts := by
          refine fun h => hstop ⟨hop, fun p hp => ?_⟩
          rw [hs'] at hp
          cases hp
          exact h
        simp only [runShared, hs', Option.bind_some, ih hrest (update_kept hI ht') htail,
          Option.map_none]
      · rw [runShared, (hiso j op List.mem_cons_self).stops (agents j) (hI j) hop s,
          Option.bind_none]

theorem throughout_of_run {disturb : σ → ε → σ} {Ok : τ → ω → Prop} {acts : List (Act ι ω ε)}
    (hiso : ∀ i op, Act.own i op ∈ acts → Isolated exec (I i) Ok op) {s : σ} {agents : ι → τ}
    (hI : ∀ i, I i (agents i)) (hrun : (runShared exec disturb s agents acts).isSome) :
    Throughout exec disturb Ok s agents acts := by
  by_contra hno
  rw [run_stopped hiso hI hno] at hrun
  cases hrun

end

end Steps

import Mathlib.Tactic
import Pluto.Steps.Run

/-!
# `mm_semaphore`

`MmSem τ` is a `mm_sem_t` with the threads `τ` at its condition: `waiters` are blocked in
`pthread_cond_wait`, `woken` have been woken there and have not had the mutex since.  One `Action`
is the code between the points where the mutex is taken and given up; other threads may come
between a wake-up and the `resume` of the woken thread.

* `mmSemInit`, `mmSemDown`, `mmSemUp`, `mmSemUpUnique`, `mmSemReset`, `mmSemSignal` the functions of
  the source (`mm_sem_wait`, which tests no value, is left out);
* `signal`      `pthread_cond_signal`: one of the blocked threads is woken, none if none is blocked;
* `Ledger`      the value since the last initialisation or reset: base, ups, downs;
* `sem_run`     in every run the value is that of the ledger, and no wake-up is lost.
-/

set_option linter.unusedSectionVars false

namespace Pluto.Semaphore
open Steps

structure MmSem (τ : Type) where
  sem_val : Int
  waiters : List τ
  woken : List τ

/-- what `sem_val++` and `sem_val--` leave in an `int` -/
def toInt (v : Int) : Int := v.bmod (2 ^ 32)

/-- `wake` is the thread that the signal of a call wakes -/
inductive Action (τ : Type) where
  | mmSemDown (t : τ)
  | mmSemUp (t : τ) (wake : Option τ)
  | mmSemUpUnique (t : τ) (wake : Option τ)
  | mmSemReset (t : τ)
  | mmSemSignal (t : τ) (wake : Option τ)
  | spurious (t : τ)
  | resume (t : τ)

def mmSemInit {τ : Type} (val : Int) : MmSem τ := ⟨val, [], []⟩

section
variable {τ : Type} [DecidableEq τ]

def MmSem.wake (s : MmSem τ) (t : τ) : MmSem τ :=
  { s with waiters := s.waiters.erase t, woken := t :: s.woken }

def MmSem.signal (s : MmSem τ) : Option τ → Option (MmSem τ)
  | none => if s.waiters = [] then some s else none
  | some t => if t ∈ s.waiters then some (s.wake t) else none

/-- `mm_sem_down` from a test of `sem_val` on, up to its return or to the next wait -/
def mmSemDown (s : MmSem τ) (t : τ) : MmSem τ :=
  if s.sem_val = 0 then { s with waiters := s.waiters ++ [t] }
    else { s with sem_val := toInt (s.sem_val - 1) }

def mmSemUp (s : MmSem τ) (wake : Option τ) : Option (MmSem τ) :=
  ({ s with sem_val := toInt (s.sem_val + 1) } : MmSem τ).signal wake

def mmSemUpUnique (s : MmSem τ) (wake : Option τ) : Option (MmSem τ) :=
  if s.sem_val = 0 then mmSemUp s wake else if wake = none then some s else none

def mmSemReset (s : MmSem τ) : MmSem τ := { s with sem_val := 0 }

def mmSemSignal (s : MmSem τ) (wake : Option τ) : Option (MmSem τ) := s.signal wake

/-- the thread is in no call -/
def MmSem.Outside (s : MmSem τ) (t : τ) : Prop := t ∉ s.waiters ∧ t ∉ s.woken

instance (s : MmSem τ) (t : τ) : Decidable (s.Outside t) := inferInstanceAs (Decidable (_ ∧ _))

def MmSem.step (s : MmSem τ) : Action τ → Option (MmSem τ)
  | .mmSemDown t => if s.Outside t then some (mmSemDown s t) else none
  | .mmSemUp t wake => if s.Outside t then mmSemUp s wake else none
  | .mmSemUpUnique t wake => if s.Outside t then mmSemUpUnique s wake else none
  | .mmSemReset t => if s.Outside t then some (mmSemReset s) else none
  | .mmSemSignal t wake => if s.Outside t then mmSemSignal s wake else none
  | .spurious t => if t ∈ s.waiters then some (s.wake t) else none
  | .resume t =>
    if t ∈ s.woken then some (mmSemDown { s with woken := s.woken.erase t } t) else none

/-! ## the ledger -/

/-- the action increments the value -/
def Action.raises (s : MmSem τ) : Action τ → Bool
  | .mmSemUp _ _ => true
  | .mmSemUpUnique _ _ => s.sem_val = 0
  | _ => false

/-- the action completes a down -/
def Action.lowers (s : MmSem τ) : Action τ → Bool
  | .mmSemDown _ => s.sem_val ≠ 0
  | .resume _ => s.sem_val ≠ 0
  | _ => false

def Action.resets : Action τ → Bool
  | .mmSemReset _ => true
  | _ => false

theorem Action.not_raises_of_resets (a : Action τ) (h : a.resets = true) (s : MmSem τ) :
    ¬ a.raises s = true := by
  cases a with
  | mmSemReset t => exact Bool.false_ne_true
  | _ => cases h

theorem Action.ne_zero_of_lowers (a : Action τ) {s : MmSem τ} (h : a.lowers s = true) :
    s.sem_val ≠ 0 := by
  cases a with
  | mmSemDown t => exact of_decide_eq_true h
  | resume t => exact of_decide_eq_true h
  | _ => cases h

/-- since the last initialisation or reset: its value, the effective ups, the completed downs; and
the effective ups of the whole run -/
structure Ledger where
  base : Int
  ups : Nat
  downs : Nat
  allUps : Nat

def Ledger.add (l : Ledger) (e : Steps.Event (MmSem τ) (Action τ)) : Ledger :=
  if e.action.resets then { l with base := 0, ups := 0, downs := 0 }
  else
    { l with
      ups := l.ups + if e.action.raises e.before then 1 else 0
      downs := l.downs + if e.action.lowers e.before then 1 else 0
      allUps := l.allUps + if e.action.raises e.before then 1 else 0 }

def ledger (val : Int) (es : List (Steps.Event (MmSem τ) (Action τ))) : Ledger :=
  es.foldl Ledger.add ⟨val, 0, 0, 0⟩

/-! ## wake-ups -/

theorem toInt_of_range {v : Int} (h0 : -2 ^ 31 ≤ v) (h1 : v < 2 ^ 31) : toInt v = v := by
  unfold toInt
  rw [Int.bmod_def]
  omega

/-- a thread stays blocked only if the woken ones will use up the value -/
structure Served (s : MmSem τ) : Prop where
  nodup : (s.waiters ++ s.woken).Nodup
  served : s.waiters ≠ [] → s.sem_val ≤ s.woken.length

theorem wake_nodup {s : MmSem τ} (h : (s.waiters ++ s.woken).Nodup) {t : τ} (ht : t ∈ s.waiters) :
    ((s.wake t).waiters ++ (s.wake t).woken).Nodup := by
  have hperm : (s.waiters.erase t ++ t :: s.woken).Perm (s.waiters ++ s.woken) :=
    List.perm_middle.trans ((List.perm_cons_erase ht).symm.append_right s.woken)
  exact hperm.nodup_iff.mpr h

/-- a signal makes up for a value that is one larger than before -/
theorem signal_served {s s' : MmSem τ} (hnodup : (s.waiters ++ s.woken).Nodup)
    (h : s.waiters ≠ [] → s.sem_val ≤ s.woken.length + 1) {wake : Option τ}
    (hs : s.signal wake = some s') :
    Served s' ∧ s'.sem_val = s.sem_val := by
  cases wake with
  | none =>
    have hs : (if s.waiters = [] then some s else none) = some s' := hs
    by_cases hnil : s.waiters = []
    · rw [if_pos hnil] at hs
      cases hs
      exact ⟨⟨hnodup, fun hne => absurd hnil hne⟩, rfl⟩
    · rw [if_neg hnil] at hs
      cases hs
  | some t =>
    have hs : (if t ∈ s.waiters then some (s.wake t) else none) = some s' := hs
    by_cases ht : t ∈ s.waiters
    · rw [if_pos ht] at hs
      cases hs
      refine ⟨⟨wake_nodup hnodup ht, fun _ => ?_⟩, rfl⟩
      have hle := h (List.ne_nil_of_mem ht)
      show s.sem_val ≤ ((t :: s.woken).length : Int)
      rw [List.length_cons]
      push_cast
      exact hle
    · rw [if_neg ht] at hs
      cases hs

/-- a down takes one from the value, or waits at value `0` -/
theorem down_served {s : MmSem τ} (hnodup : (s.waiters ++ s.woken).Nodup) {t : τ} (ht : s.Outside t)
    (h0 : 0 ≤ s.sem_val) (h1 : s.sem_val < 2 ^ 31)
    (h : s.waiters ≠ [] → s.sem_val ≤ s.woken.length + 1) :
    Served (mmSemDown s t) ∧ (mmSemDown s t).sem_val
      = s.sem_val - (if s.sem_val ≠ 0 then 1 else 0) := by
  unfold mmSemDown
  by_cases hv : s.sem_val = 0
  · rw [if_pos hv, if_neg (not_not.mpr hv)]
    refine ⟨⟨?_, fun _ => ?_⟩, (sub_zero _).symm⟩
    · show (s.waiters ++ [t] ++ s.woken).Nodup
      have hperm : (s.waiters ++ [t] ++ s.woken).Perm (t :: (s.waiters ++ s.woken)) := by
        rw [List.append_assoc, List.singleton_append]
        exact List.perm_middle
      refine hperm.nodup_iff.mpr (List.nodup_cons.mpr ⟨fun hm => ?_, hnodup⟩)
      rcases List.mem_append.mp hm with hm | hm
      · exact ht.1 hm
      · exact ht.2 hm
    · show s.sem_val ≤ _
      rw [hv]
      exact Int.natCast_nonneg _
  · have hval : toInt (s.sem_val - 1) = s.sem_val - 1 := toInt_of_range (by omega) (by omega)
    rw [if_neg hv, if_pos hv, hval]
    refine ⟨⟨hnodup, fun hne => ?_⟩, rfl⟩
    have hle := h hne
    show s.sem_val - 1 ≤ (s.woken.length : Int)
    omega

/-! ## every run -/

/-- what holds behind a ledger as long as the value fits -/
structure Booked (val : Int) (l : Ledger) (s : MmSem τ) : Prop where
  served : Served s
  nonneg : 0 ≤ s.sem_val
  value : s.sem_val = l.base + l.ups - l.downs
  bound : s.sem_val ≤ val + l.allUps

/-- `mm_sem_up`, where the value does not overflow -/
theorem up_served {s s' : MmSem τ} {wake : Option τ} (h : Served s) (h0 : 0 ≤ s.sem_val)
    (hfits : s.sem_val + 1 < 2 ^ 31) (hup : mmSemUp s wake = some s') :
    Served s' ∧ s'.sem_val = s.sem_val + 1 := by
  have hval : toInt (s.sem_val + 1) = s.sem_val + 1 := toInt_of_range (by omega) hfits
  unfold mmSemUp at hup
  rw [hval] at hup
  exact signal_served (s := { s with sem_val := s.sem_val + 1 }) h.nodup
    (fun hne => add_le_add_left (h.served hne) 1) hup

/-- a woken thread tests the value again -/
theorem resume_served {s : MmSem τ} {t : τ} (h : Served s) (h0 : 0 ≤ s.sem_val)
    (h1 : s.sem_val < 2 ^ 31) (ht : t ∈ s.woken) :
    Served (mmSemDown { s with woken := s.woken.erase t } t) ∧
      (mmSemDown { s with woken := s.woken.erase t } t).sem_val
          = s.sem_val - if s.sem_val ≠ 0 then 1 else 0 := by
  have hperm : (s.waiters ++ s.woken).Perm (t :: (s.waiters ++ s.woken.erase t)) :=
    ((List.perm_cons_erase ht).append_left s.waiters).trans List.perm_middle
  obtain ⟨hout, hnodup⟩ := List.nodup_cons.mp (hperm.nodup_iff.mp h.nodup)
  have houtside : ({ s with woken := s.woken.erase t } : MmSem τ).Outside t :=
    ⟨fun hm => hout (List.mem_append_left _ hm), fun hm => hout (List.mem_append_right _ hm)⟩
  have hlen : s.woken.length = (s.woken.erase t).length + 1 := by
    rw [List.length_erase_of_mem ht]
    have := List.length_pos_of_mem ht
    omega
  refine down_served hnodup houtside h0 h1 fun hne => ?_
  have hwoken := h.served hne
  rw [hlen] at hwoken
  exact_mod_cast hwoken

/-- one step changes the value by what the ledger notes -/
theorem step_served {s s' : MmSem τ} {a : Action τ} (h : Served s) (h0 : 0 ≤ s.sem_val)
    (h1 : s.sem_val < 2 ^ 31) (hup : a.raises s = true → s.sem_val + 1 < 2 ^ 31)
    (hs : s.step a = some s') :
    Served s' ∧ s'.sem_val = if a.resets then 0 else
      s.sem_val + (if a.raises s then 1 else 0) - (if a.lowers s then 1 else 0) := by
  have hle : s.waiters ≠ [] → s.sem_val ≤ s.woken.length + 1 := fun hne => by
    have := h.served hne; omega
  cases a with
  | mmSemDown t =>
    obtain ⟨ht, hs⟩ := Option.ite_none_right_eq_some.mp hs
    cases hs
    obtain ⟨hserved, hval⟩ := down_served h.nodup ht h0 h1 hle
    refine ⟨hserved, hval.trans ?_⟩
    simp [Action.resets, Action.raises, Action.lowers]
  | mmSemUp t wake =>
    obtain ⟨-, hs⟩ := Option.ite_none_right_eq_some.mp hs
    obtain ⟨hserved, hval⟩ := up_served h h0 (hup rfl) hs
    refine ⟨hserved, hval.trans ?_⟩
    simp [Action.resets, Action.raises, Action.lowers]
  | mmSemUpUnique t wake =>
    obtain ⟨-, hs⟩ := Option.ite_none_right_eq_some.mp hs
    unfold mmSemUpUnique at hs
    by_cases hv : s.sem_val = 0
    · rw [if_pos hv] at hs
      obtain ⟨hserved, hval⟩ := up_served h h0 (by omega) hs
      refine ⟨hserved, hval.trans ?_⟩
      simp [Action.resets, Action.raises, Action.lowers, hv]
    · rw [if_neg hv] at hs
      obtain ⟨-, hs⟩ := Option.ite_none_right_eq_some.mp hs
      cases hs
      refine ⟨h, ?_⟩
      simp [Action.resets, Action.raises, Action.lowers, hv]
  | mmSemReset t =>
    obtain ⟨-, hs⟩ := Option.ite_none_right_eq_some.mp hs
    cases hs
    exact ⟨⟨h.nodup, fun _ => Int.natCast_nonneg _⟩, rfl⟩
  | mmSemSignal t wake =>
    obtain ⟨-, hs⟩ := Option.ite_none_right_eq_some.mp hs
    obtain ⟨hserved, hval⟩ := signal_served h.nodup hle hs
    refine ⟨hserved, hval.trans ?_⟩
    simp [Action.resets, Action.raises, Action.lowers]
  | spurious t =>
    obtain ⟨ht, hs⟩ := Option.ite_none_right_eq_some.mp hs
    have hsignal : s.signal (some t) = some s' := by
      show (if t ∈ s.waiters then some (s.wake t) else none) = some s'
      rw [if_pos ht, hs]
    obtain ⟨hserved, hval⟩ := signal_served h.nodup hle hsignal
    refine ⟨hserved, hval.trans ?_⟩
    simp [Action.resets, Action.raises, Action.lowers]
  | resume t =>
    obtain ⟨ht, hs⟩ := Option.ite_none_right_eq_some.mp hs
    cases hs
    obtain ⟨hserved, hval⟩ := resume_served h h0 h1 ht
    refine ⟨hserved, hval.trans ?_⟩
    simp [Action.resets, Action.raises, Action.lowers]

theorem booked_step {val : Int} (hval : 0 ≤ val) {l : Ledger} {s s' : MmSem τ} {a : Action τ}
    (h : val + l.allUps < 2 ^ 31 → Booked val l s) (hs : s.step a = some s')
    (hfits : val + (l.add ⟨s, a, s'⟩).allUps < 2 ^ 31) : Booked val (l.add ⟨s, a, s'⟩) s' := by
  by_cases hreset : a.resets = true
  · have hadd : l.add ⟨s, a, s'⟩ = { l with base := 0, ups := 0, downs := 0 } := if_pos hreset
    rw [hadd] at hfits ⊢
    obtain ⟨hserved, hnonneg, -, hbound⟩ := h hfits
    obtain ⟨hserved, hv⟩ := step_served hserved hnonneg (hbound.trans_lt hfits)
      (fun hr => absurd hr (a.not_raises_of_resets hreset s)) hs
    rw [if_pos hreset] at hv
    refine ⟨hserved, hv.ge, hv, ?_⟩
    rw [hv]
    exact add_nonneg hval (Int.natCast_nonneg _)
  · have hadd : l.add ⟨s, a, s'⟩ = { l with
        ups := l.ups + if a.raises s then 1 else 0
        downs := l.downs + if a.lowers s then 1 else 0
        allUps := l.allUps + if a.raises s then 1 else 0 } := if_neg hreset
    rw [hadd] at hfits ⊢
    dsimp only at hfits
    push_cast at hfits
    have hfits' : val + l.allUps < 2 ^ 31 := by
      split at hfits
      · omega
      · omega
    obtain ⟨hserved, hnonneg, hvalue, hbound⟩ := h hfits'
    obtain ⟨hserved, hv⟩ := step_served hserved hnonneg (hbound.trans_lt hfits') (fun hr => by
      rw [if_pos hr] at hfits
      omega) hs
    rw [if_neg hreset] at hv
    refine ⟨hserved, ?_, ?_, ?_⟩
    · rw [hv]
      by_cases hl : a.lowers s = true
      · have := a.ne_zero_of_lowers hl
        rw [if_pos hl]
        split <;> omega
      · rw [if_neg hl]
        split <;> omega
    · rw [hv, hvalue]
      push_cast
      ring
    · rw [hv]
      push_cast
      have hnn : (0 : Int) ≤ if a.lowers s = true then 1 else 0 := by
        split <;> decide
      omega

/-- **No wake-up is lost.**  From a value `val ≥ 0`, as long as `val` and the effective ups of the
run fit into an `int`: the value is never negative, it is the base value since the last
initialisation or reset with the effective ups and without the completed downs, and while a thread
is blocked there are at least as many woken threads that have not tested the value again. -/
theorem sem_run {val : Int} (hval : 0 ≤ val) {es : List (Steps.Event (MmSem τ) (Action τ))}
    {s : MmSem τ} (h : Steps.Run MmSem.step (mmSemInit val) es s)
    (hups : val + (ledger val es).allUps < 2 ^ 31) :
    0 ≤ s.sem_val ∧ s.sem_val = (ledger val es).base + (ledger val es).ups - (ledger val es).downs ∧
      s.woken.Nodup ∧ ∀ t ∈ s.waiters, s.sem_val ≤ s.woken.length := by
  have hbooked : val + (ledger val es).allUps < 2 ^ 31 → Booked val (ledger val es) s := by
    refine Steps.Run.fold (R := fun l s => val + l.allUps < 2 ^ 31 → Booked val l s) ?_ ?_ h
    · intro _
      exact ⟨⟨List.nodup_nil, fun hne => absurd rfl hne⟩,
        hval, by simp [mmSemInit], by simp [mmSemInit]⟩
    · exact fun l s a s' ih hs hfits => booked_step hval ih hs hfits
  obtain ⟨hserved, hnonneg, hvalue, -⟩ := hbooked hups
  exact ⟨hnonneg, hvalue, hserved.nodup.of_append_right,
    fun t ht => hserved.served (List.ne_nil_of_mem ht)⟩

end

/-- two threads wait, an up wakes one of them, and a third thread takes the value first -/
def bargingDown : List (Action (Fin 4)) :=
  [.mmSemDown 1, .mmSemDown 2, .mmSemUp 0 (some 1), .mmSemDown 3, .resume 1,
    .mmSemUpUnique 0 (some 2)]

theorem sem_run_barging :
    ∃ es s, events MmSem.step (mmSemInit 0) bargingDown = some (es, s) ∧ s.waiters = [1] ∧
      s.woken = [2] ∧
      ∀ t ∈ s.waiters, s.sem_val ≤ s.woken.length :=
  ⟨_, _, rfl, rfl, rfl, (sem_run le_rfl (Steps.run_events bargingDown rfl) (by decide)).2.2.2⟩

/-- an up at the largest `int` -/
theorem sem_overflow :
    ∃ es s, Steps.Run MmSem.step (mmSemInit (2 ^ 31 - 1) : MmSem (Fin 1)) es s ∧
      (ledger (2 ^ 31 - 1) es).allUps = 1 ∧
      s.sem_val = -2 ^ 31 :=
  ⟨_, _, Steps.run_events [.mmSemUp 0 none] rfl, rfl, rfl⟩

end Pluto.Semaphore

import Pluto.Message.Wait

/-!
# Any number of waiting threads

Two facts about every interleaving of producers and consumers, and exactly where they end:

* `Flagged`    a blocked thread is announced by `mWaitingFlag`, so that the next put signals; lost
               in the steps of `Action.forgets` and in no others (`flagged_step`, `flagged_iff`);
* `Counted`    `mMsgCnt` is the length of the ready list, and nothing was taken from an empty one;
               lost in the steps of `Action.wokenEmpty` and in no others (`counted_step`,
               `counted_iff`).
-/

namespace Pluto

set_option linter.unusedSectionVars false

section
variable {τ : Type} [DecidableEq τ]

/-! ## blocked threads and the flag -/

def Pc.isBlocked : Pc → Bool
  | .blocked _ => true
  | _ => false

theorem Pc.isBlocked_iff (p : Pc) : p.isBlocked = true ↔ ∃ c, p = .blocked c := by
  cases p with
  | blocked c => exact iff_of_true rfl ⟨c, rfl⟩
  | outside => exact iff_of_false nofun nofun
  | woken c ret => exact iff_of_false nofun nofun

/-- a thread is blocked: neither a signal nor its timeout has reached it -/
def System.Sleeper (s : System τ) : Prop := ∃ t c, s.pc t = .blocked c

def System.Flagged (s : System τ) : Prop := ∀ t c, s.pc t = .blocked c → s.q.mWaitingFlag = true

/-- a call that finds these messages stores `false` into the flag before it returns -/
def WaitCall.clearsCalled (ready : List Nat) : WaitCall → Prop
  | .waitMessageQueueNotEmpty timeout => ready ≠ [] ∧ timeout ≤ 0
  | .dryWaitMessageQueue _ => ready ≠ []

/-- the same of a call whose wait returned `ret` -/
def WaitCall.clearsWoken (ready : List Nat) (ret : Int) : WaitCall → Prop
  | .waitMessageQueueNotEmpty timeout => timeout ≤ 0 ∧ ready ≠ [] ∨ 0 < timeout ∧ ret = 0
  | .dryWaitMessageQueue timeout => ready ≠ [] ∨ 0 < timeout

/-- the flag is cleared while another thread is blocked, or a woken thread goes back to its wait
behind a flag that was cleared meanwhile -/
def Action.forgets (s : System τ) : Action τ → Prop
  | .call _ c => c.clearsCalled s.q.mReadyMessageList ∧ s.Sleeper
  | .resume t =>
    match s.pc t with
    | .woken c ret => c.clearsWoken s.q.mReadyMessageList ret ∧ s.Sleeper ∨
        c.timeout ≤ 0 ∧ s.q.mReadyMessageList = [] ∧ s.q.mWaitingFlag = false
    | _ => False
  | _ => False

instance (ready : List Nat) (c : WaitCall) : Decidable (c.clearsCalled ready) := by
  unfold WaitCall.clearsCalled
  split <;> infer_instance

instance (ready : List Nat) (ret : Int) (c : WaitCall) : Decidable (c.clearsWoken ready ret) := by
  unfold WaitCall.clearsWoken
  split <;> infer_instance

instance [Fintype τ] (s : System τ) : Decidable s.Sleeper :=
  decidable_of_iff (∃ t, (s.pc t).isBlocked = true) (exists_congr fun t => (s.pc t).isBlocked_iff)

instance [Fintype τ] (s : System τ) (a : Action τ) : Decidable (a.forgets s) := by
  unfold Action.forgets
  split
  · infer_instance
  · split <;> infer_instance
  · infer_instance

theorem flagged_of_flag {s : System τ} (h : s.q.mWaitingFlag = true) : s.Flagged := fun _ _ _ => h

/-- the flag stays and no thread blocks -/
theorem Flagged.mono {s s' : System τ} (h : s.Flagged) (hq : s'.q.mWaitingFlag = s.q.mWaitingFlag)
    (hpc : ∀ t c, s'.pc t = .blocked c → s.pc t = .blocked c) : s'.Flagged := by
  intro t c ht
  rw [hq]
  exact h t c (hpc t c ht)

theorem blocked_of_goto {s : System τ} {t u : τ} {p : Pc} {c : WaitCall}
    (h : (s.goto t p).pc u = .blocked c) (hp : ∀ c, p ≠ .blocked c) : s.pc u = .blocked c := by
  by_cases e : u = t
  · subst e
    rw [goto_self] at h
    exact absurd h (hp c)
  · rwa [goto_of_ne s e] at h

/-- a thread that returns and clears the flag leaves nobody behind -/
theorem flagged_cleared {s s' : System τ} {t : τ} (ht : ∀ c, s.pc t ≠ .blocked c)
    (hq : s'.q.mWaitingFlag = false) (hpc : s'.pc = (s.goto t .outside).pc) :
    s'.Flagged ↔ ¬ s.Sleeper := by
  constructor
  · rintro h ⟨u, c, hu⟩
    have hne : u ≠ t := fun e => ht c (e ▸ hu)
    have hflag := h u c (by rw [hpc, goto_of_ne s hne, hu])
    rw [hq] at hflag
    cases hflag
  · intro h u c hu
    rw [hpc] at hu
    exact absurd ⟨u, c, blocked_of_goto hu nofun⟩ h

theorem enter_cleared (s : System τ) (t : τ) {c : WaitCall}
    (h : c.clearsCalled s.q.mReadyMessageList) :
    (s.enter t c).1.q.mWaitingFlag = false ∧ (s.enter t c).1.pc = (s.goto t .outside).pc := by
  unfold System.enter
  cases c with
  | waitMessageQueueNotEmpty timeout =>
    have hready : (s.setFlag true).q.mReadyMessageList ≠ [] := h.1
    dsimp only
    rw [if_neg hready, if_pos h.2, deliver_flag, deliver_pc]
    exact ⟨rfl, rfl⟩
  | dryWaitMessageQueue timeout =>
    have hready : (s.setFlag true).q.mReadyMessageList ≠ [] := h
    dsimp only
    rw [if_neg hready]
    exact ⟨rfl, rfl⟩

theorem enter_kept (s : System τ) (t : τ) {c : WaitCall}
    (h : ¬ c.clearsCalled s.q.mReadyMessageList) :
    (s.enter t c).1.q.mWaitingFlag = true := by
  unfold System.enter
  dsimp only
  by_cases hready : (s.setFlag true).q.mReadyMessageList = []
  · rw [if_pos hready]
    rfl
  · rw [if_neg hready]
    cases c with
    | waitMessageQueueNotEmpty timeout =>
      have htimed : ¬ timeout ≤ 0 := fun ht => h ⟨hready, ht⟩
      dsimp only
      rw [if_neg htimed]
      rfl
    | dryWaitMessageQueue timeout => exact absurd hready h

theorem continue_cleared (s : System τ) (t : τ) {c : WaitCall} {ret : Int}
    (h : c.clearsWoken s.q.mReadyMessageList ret) :
    (s.continue t c ret).1.q.mWaitingFlag = false ∧
      (s.continue t c ret).1.pc = (s.goto t .outside).pc := by
  unfold System.continue
  cases c with
  | waitMessageQueueNotEmpty timeout =>
    dsimp only
    rcases h with ⟨ht, hready⟩ | ⟨ht, hret⟩
    · rw [if_pos ht, if_neg hready, deliver_flag, deliver_pc]
      exact ⟨rfl, rfl⟩
    · rw [if_neg (not_le.mpr ht), if_pos hret, deliver_flag, deliver_pc]
      exact ⟨rfl, rfl⟩
  | dryWaitMessageQueue timeout =>
    dsimp only
    have hleaves : ¬ (timeout ≤ 0 ∧ s.q.mReadyMessageList = []) := by
      rintro ⟨ht, hready⟩
      rcases h with h | h
      · exact h hready
      · exact absurd h (not_lt.mpr ht)
    rw [if_neg hleaves]
    exact ⟨rfl, rfl⟩

/-- a woken call that does not clear the flag has timed out, or waits again -/
theorem continue_kept (s : System τ) (t : τ) {c : WaitCall} {ret : Int}
    (h : ¬ c.clearsWoken s.q.mReadyMessageList ret) :
    (s.continue t c ret).1.q.mWaitingFlag = s.q.mWaitingFlag ∧
      ((s.continue t c ret).1.pc = (s.goto t .outside).pc ∧ 0 < c.timeout ∨
        (s.continue t c ret).1.pc = (s.goto t (.blocked c)).pc ∧ c.timeout ≤ 0 ∧
          s.q.mReadyMessageList = []) := by
  unfold System.continue
  cases c with
  | waitMessageQueueNotEmpty timeout =>
    dsimp only
    by_cases ht : timeout ≤ 0
    · have hready : s.q.mReadyMessageList = [] := by
        by_contra hne
        exact h (Or.inl ⟨ht, hne⟩)
      rw [if_pos ht, if_pos hready]
      exact ⟨rfl, Or.inr ⟨rfl, ht, hready⟩⟩
    · have hret : ret ≠ 0 := fun h0 => h (Or.inr ⟨not_le.mp ht, h0⟩)
      rw [if_neg ht, if_neg hret]
      exact ⟨rfl, Or.inl ⟨rfl, not_le.mp ht⟩⟩
  | dryWaitMessageQueue timeout =>
    dsimp only
    have ht : timeout ≤ 0 := not_lt.mp fun hlt => h (Or.inr hlt)
    have hready : s.q.mReadyMessageList = [] := by
      by_contra hne
      exact h (Or.inl hne)
    rw [if_pos ⟨ht, hready⟩]
    exact ⟨rfl, Or.inr ⟨rfl, ht, hready⟩⟩

theorem flagged_afterPut {s s' : System τ} (h : s.Flagged) {m : Mallocs} {msg : MsgIn}
    {wake : Option τ} {r : Option Returned}
    (hs : s.afterPut (putMessageWithData m s.q msg) wake = some (s', r)) : s'.Flagged := by
  obtain ⟨hq, -, hpc⟩ := afterPut_cases hs
  refine Flagged.mono h (by rw [hq, (put_effect m s.q msg).flag]) fun u c hu => ?_
  rcases hpc with hpc | ⟨-, t, w, -, hpc⟩
  · rwa [hpc] at hu
  · rw [hpc] at hu
    exact blocked_of_goto hu nofun

theorem flagged_continue {s s' : System τ} {t : τ} {c : WaitCall} {ret : Int} {r : Option Returned}
    (h : s.Flagged) (hpc : s.pc t = .woken c ret) (hs : s.continue t c ret = (s', r)) :
    s'.Flagged ↔ ¬ (c.clearsWoken s.q.mReadyMessageList ret ∧ s.Sleeper ∨
      c.timeout ≤ 0 ∧ s.q.mReadyMessageList = [] ∧ s.q.mWaitingFlag = false) := by
  have houtside : ∀ c', s.pc t ≠ .blocked c' := fun c' hc => nomatch hpc.symm.trans hc
  by_cases hclear : c.clearsWoken s.q.mReadyMessageList ret
  · obtain ⟨hflag, hout⟩ := continue_cleared s t hclear
    rw [hs] at hflag hout
    rw [flagged_cleared houtside hflag hout]
    constructor
    · rintro hsleep (⟨-, h'⟩ | ⟨ht, hready, -⟩)
      · exact hsleep h'
      · -- a call that clears the flag does not wait again
        cases c with
        | waitMessageQueueNotEmpty timeout =>
          rcases hclear with ⟨-, hne⟩ | ⟨hlt, -⟩
          · exact hne hready
          · exact absurd ht (not_le.mpr hlt)
        | dryWaitMessageQueue timeout =>
          rcases hclear with hne | hlt
          · exact hne hready
          · exact absurd ht (not_le.mpr hlt)
    · exact fun hn hsleep => hn (Or.inl ⟨hclear, hsleep⟩)
  · obtain ⟨hflag, hout⟩ := continue_kept s t hclear
    rw [hs] at hflag hout
    rcases hout with ⟨hout, ht⟩ | ⟨hout, ht, hready⟩
    · refine iff_of_true (Flagged.mono h hflag fun u c' hu => ?_) ?_
      · rw [hout] at hu
        exact blocked_of_goto hu nofun
      · rintro (⟨h', -⟩ | ⟨h', -⟩)
        · exact hclear h'
        · exact absurd h' (not_le.mpr ht)
    · constructor
      · rintro hf (⟨h', -⟩ | ⟨-, -, h'⟩)
        · exact hclear h'
        · have hset := hf t c (by rw [hout, goto_self])
          rw [hflag, h'] at hset
          cases hset
      · intro hn
        apply flagged_of_flag
        rw [hflag]
        by_contra hf
        exact hn (Or.inr ⟨ht, hready, Bool.eq_false_of_not_eq_true hf⟩)

/-- one step keeps the flag in front of the blocked threads unless it forgets one -/
theorem flagged_step {s s' : System τ} {a : Action τ} {r : Option Returned} (h : s.Flagged)
    (hs : s.step a = some (s', r)) : s'.Flagged ↔ ¬ a.forgets s := by
  obtain ⟨-, hdid⟩ := step_did hs
  cases a with
  | putMessage t m msg wake => exact iff_of_true (flagged_afterPut h hdid) not_false
  | putMessageWithData t m msg wake => exact iff_of_true (flagged_afterPut h hdid) not_false
  | getMessage t =>
    obtain ⟨-, rfl⟩ := hdid
    refine iff_of_true (Flagged.mono h ?_ fun _ _ hu => hu) not_false
    show (getMessage s.q).2.2.mWaitingFlag = s.q.mWaitingFlag
    unfold getMessage
    split <;> rfl
  | getMessageCount t =>
    obtain rfl : s' = s := hdid
    exact iff_of_true h not_false
  | call t c =>
    obtain ⟨hpc, henter⟩ := hdid
    by_cases hclear : c.clearsCalled s.q.mReadyMessageList
    · obtain ⟨hflag, hout⟩ := enter_cleared s t hclear
      rw [henter] at hflag hout
      rw [flagged_cleared (fun c' hc => nomatch hpc.symm.trans hc) hflag hout]
      exact not_congr ⟨fun hsleep => ⟨hclear, hsleep⟩, fun hn => hn.2⟩
    · have hflag := enter_kept s t hclear
      rw [henter] at hflag
      exact iff_of_true (flagged_of_flag hflag) fun hn => hclear hn.1
  | expire t err =>
    obtain ⟨c, -, -, rfl⟩ := hdid
    exact iff_of_true (Flagged.mono h rfl fun _ _ hu => blocked_of_goto hu nofun) not_false
  | spurious t =>
    obtain ⟨c, -, rfl⟩ := hdid
    exact iff_of_true (Flagged.mono h rfl fun _ _ hu => blocked_of_goto hu nofun) not_false
  | resume t =>
    obtain ⟨c, ret, hpc, hcont⟩ := hdid
    simp only [Action.forgets, hpc]
    exact flagged_continue h hpc hcont

/-! ## the ready list and its counter -/

/-- the counter is the length of the ready list, and every entry taken was a message -/
structure System.Counted (s : System τ) : Prop where
  tookHead : s.tookHead = false
  cnt : s.q.mMsgCnt = s.q.mReadyMessageList.length

/-- a timed wait for a message returned `0`, and the ready list is empty -/
def WaitCall.wokenEmpty (ready : List Nat) (ret : Int) : WaitCall → Prop
  | .waitMessageQueueNotEmpty timeout => 0 < timeout ∧ ret = 0 ∧ ready = []
  | .dryWaitMessageQueue _ => False

def Action.wokenEmpty (s : System τ) : Action τ → Prop
  | .resume t =>
    match s.pc t with
    | .woken c ret => c.wokenEmpty s.q.mReadyMessageList ret
    | _ => False
  | _ => False

instance (ready : List Nat) (ret : Int) (c : WaitCall) : Decidable (c.wokenEmpty ready ret) := by
  unfold WaitCall.wokenEmpty
  split <;> infer_instance

instance (s : System τ) (a : Action τ) : Decidable (a.wokenEmpty s) := by
  unfold Action.wokenEmpty
  split
  · split <;> infer_instance
  · infer_instance

theorem Counted.nonneg {s : System τ} (h : s.Counted) : 0 ≤ s.q.mMsgCnt := by
  rw [h.cnt]
  exact Int.natCast_nonneg _

theorem counted_afterPut {s s' : System τ} (h : s.Counted) {m : Mallocs} {msg : MsgIn}
    {wake : Option τ} {r : Option Returned}
    (hs : s.afterPut (putMessageWithData m s.q msg) wake = some (s', r)) : s'.Counted := by
  obtain ⟨hq, hhead, -⟩ := afterPut_cases hs
  refine ⟨hhead.trans h.tookHead, ?_⟩
  rw [hq]
  obtain ⟨-, ⟨n, hready⟩, hcnt⟩ | ⟨-, hready, hcnt⟩ := (put_effect m s.q msg).ready
  · rw [hcnt, hready, List.length_append, h.cnt]
    rfl
  · rw [hcnt, hready, h.cnt]

theorem counted_getMessage {q : MessageQueueT} (h : q.mMsgCnt = q.mReadyMessageList.length) :
    (getMessage q).2.2.mMsgCnt = (getMessage q).2.2.mReadyMessageList.length := by
  unfold getMessage
  split
  · exact h
  · next n ready hready =>
    show q.mMsgCnt - 1 = (ready.length : Int)
    rw [h, hready, List.length_cons]
    push_cast
    ring

theorem counted_deliver {s : System τ} (h : s.Counted) (t : τ) (ret : Int) :
    (s.deliver t ret).1.Counted ↔ s.q.mReadyMessageList ≠ [] := by
  constructor
  · rintro ⟨hhead, -⟩ hready
    rw [deliver_tookHead, hready, List.isEmpty_nil, Bool.or_true] at hhead
    cases hhead
  · intro hready
    obtain ⟨n, ready, hl⟩ := List.exists_cons_of_ne_nil hready
    refine ⟨?_, ?_⟩
    · rw [deliver_tookHead, h.tookHead, hl]
      rfl
    · rw [deliver_cnt, deliver_ready, h.cnt, hl, List.length_cons, List.tail_cons]
      push_cast
      ring

theorem counted_enter {s : System τ} (h : s.Counted) (t : τ) (c : WaitCall) :
    (s.enter t c).1.Counted := by
  have hset : (s.setFlag true).Counted := ⟨h.tookHead, h.cnt⟩
  unfold System.enter
  dsimp only
  by_cases hready : (s.setFlag true).q.mReadyMessageList = []
  · rw [if_pos hready]
    exact ⟨h.tookHead, h.cnt⟩
  · rw [if_neg hready]
    cases c with
    | waitMessageQueueNotEmpty timeout =>
      dsimp only
      split
      · exact (counted_deliver hset t 0).mpr hready
      · exact hset
    | dryWaitMessageQueue timeout => exact ⟨h.tookHead, h.cnt⟩

/-- the untimed wait looks at the list again, the timed one does not -/
theorem counted_continue {s : System τ} (h : s.Counted) (t : τ) (c : WaitCall) (ret : Int) :
    (s.continue t c ret).1.Counted ↔ ¬ c.wokenEmpty s.q.mReadyMessageList ret := by
  unfold System.continue
  cases c with
  | waitMessageQueueNotEmpty timeout =>
    show _ ↔ ¬ (0 < timeout ∧ ret = 0 ∧ s.q.mReadyMessageList = [])
    dsimp only
    by_cases ht : timeout ≤ 0
    · rw [if_pos ht]
      refine iff_of_true ?_ fun hn => absurd hn.1 (not_lt.mpr ht)
      by_cases hready : s.q.mReadyMessageList = []
      · rw [if_pos hready]
        exact ⟨h.tookHead, h.cnt⟩
      · rw [if_neg hready]
        exact (counted_deliver h t ret).mpr hready
    · rw [if_neg ht]
      by_cases hret : ret = 0
      · rw [if_pos hret, counted_deliver h t ret]
        exact not_congr ⟨fun hready => ⟨not_le.mp ht, hret, hready⟩, fun hn => hn.2.2⟩
      · rw [if_neg hret]
        exact iff_of_true ⟨h.tookHead, h.cnt⟩ fun hn => hret hn.2.1
  | dryWaitMessageQueue timeout =>
    dsimp only
    refine iff_of_true ?_ not_false
    split
    · exact ⟨h.tookHead, h.cnt⟩
    · exact ⟨h.tookHead, h.cnt⟩

/-- one step takes a message or nothing unless a timed wait was woken for a message that is gone -/
theorem counted_step {s s' : System τ} {a : Action τ} {r : Option Returned} (h : s.Counted)
    (hs : s.step a = some (s', r)) : s'.Counted ↔ ¬ a.wokenEmpty s := by
  obtain ⟨-, hdid⟩ := step_did hs
  cases a with
  | putMessage t m msg wake => exact iff_of_true (counted_afterPut h hdid) not_false
  | putMessageWithData t m msg wake => exact iff_of_true (counted_afterPut h hdid) not_false
  | getMessage t =>
    obtain ⟨-, rfl⟩ := hdid
    exact iff_of_true ⟨h.tookHead, counted_getMessage h.cnt⟩ not_false
  | getMessageCount t =>
    obtain rfl : s' = s := hdid
    exact iff_of_true h not_false
  | call t c =>
    have henter := counted_enter h t c
    rw [hdid.2] at henter
    exact iff_of_true henter not_false
  | expire t err =>
    obtain ⟨c, -, -, rfl⟩ := hdid
    exact iff_of_true ⟨h.tookHead, h.cnt⟩ not_false
  | spurious t =>
    obtain ⟨c, -, rfl⟩ := hdid
    exact iff_of_true ⟨h.tookHead, h.cnt⟩ not_false
  | resume t =>
    obtain ⟨c, ret, hpc, hcont⟩ := hdid
    have hiff := counted_continue h t c ret
    rw [hcont] at hiff
    simp only [Action.wokenEmpty, hpc]
    exact hiff

/-! ## runs -/

/-- an invariant that each step keeps unless it is a bad one holds in all states of a run if and
only if no step of the run is bad -/
theorem run_iff {P : System τ → Prop} {B : System τ → Action τ → Prop}
    (hstart : ∀ m headEntry, P (System.start m headEntry))
    (hstep : ∀ s a s' r, P s → s.step a = some (s', r) → (P s' ↔ ¬ B s a))
    {allowed : Action τ → Prop} {es : List (Event τ)} {s : System τ} (h : Run allowed es s) :
    ((∀ e ∈ es, P e.after) ↔ ∀ e ∈ es, ¬ B e.before e.action) ∧ ((∀ e ∈ es, P e.after) → P s) := by
  induction h with
  | start _ =>
    exact ⟨iff_of_true (List.forall_mem_nil _) (List.forall_mem_nil _), fun _ => hstart _ _⟩
  | next _ _ hs ih =>
    simp only [List.forall_mem_append, List.forall_mem_singleton]
    obtain ⟨hiff, hlast⟩ := ih
    refine ⟨?_, fun hall => hall.2⟩
    rw [← hiff]
    exact and_congr_right fun hall => hstep _ _ _ _ (hlast hall) hs

/-- the run of a list of actions of three threads on a new queue -/
theorem events_run (as : List (Action (Fin 3))) {es : List (Event (Fin 3))} {s : System (Fin 3)}
    (h : (System.start Mallocs.allOk fun _ => .zero).events as = some (es, s)) :
    Run (fun _ => True) es s :=
  run_events as (.start rfl) (fun _ _ => trivial) h

def emptyMessage : MsgIn := ⟨7, 0, 0, 0, none, 0⟩

/-- a consumer blocks, is woken and takes the message -/
def oneWaiter (timeout : Int) : List (Action (Fin 3)) :=
  [.call 1 (.waitMessageQueueNotEmpty timeout), .putMessageWithData 0 .allOk emptyMessage (some 1),
    .resume 1]

/-- **When a sleeper is announced.**  In every state of a run the flag is set while a thread is
blocked if and only if no step of the run clears it in front of one, and none waits again behind a
cleared flag. -/
theorem flagged_iff {es : List (Event τ)} {s : System τ} (h : Run (fun _ => True) es s) :
    (∀ e ∈ es, e.after.Flagged) ↔ ∀ e ∈ es, ¬ e.action.forgets e.before :=
  (run_iff (B := fun s a => a.forgets s) (fun _ _ _ _ => nofun) (fun _ _ _ _ => flagged_step) h).1

theorem flagged_iff_one :
    ∃ es s, (System.start Mallocs.allOk fun _ => .zero).events (oneWaiter 0) = some (es, s) ∧
      ∀ e ∈ es, e.after.Flagged :=
  ⟨_, _, rfl, (flagged_iff (events_run (oneWaiter 0) rfl)).mpr (by decide)⟩

/-- two consumers block; the one that takes the first message clears the flag, and the second
message wakes nobody -/
def twoWaiters : List (Action (Fin 3)) :=
  [.call 1 (.waitMessageQueueNotEmpty 0), .call 2 (.waitMessageQueueNotEmpty 0),
    .putMessageWithData 0 .allOk emptyMessage (some 1), .resume 1,
    .putMessageWithData 0 .allOk emptyMessage none]

theorem twoWaiters_forgets :
    ∃ es s, (System.start Mallocs.allOk fun _ => .zero).events twoWaiters = some (es, s) ∧
      Run (fun _ => True) es s ∧
      s.pc 2 = .blocked (.waitMessageQueueNotEmpty 0) ∧ s.q.mWaitingFlag = false ∧
      s.q.mReadyMessageList ≠ [] ∧
      ¬ s.Flagged :=
  ⟨_, _, rfl, events_run twoWaiters rfl, rfl, rfl, by decide, fun h => nomatch h 2 _ rfl⟩

theorem counted_start (m : Mallocs) (headEntry : MessageQueueT → MessageT) :
    (System.start m headEntry : System τ).Counted := by
  obtain ⟨-, hready, hcnt⟩ := increase_effect m MessageQueueT.init
  have hq : (System.start m headEntry : System τ).q
      = (messageIncreaseIdleMessageList m MessageQueueT.init).2 := by
    unfold System.start messageCreate
    dsimp only
    split <;> rfl
  refine ⟨rfl, ?_⟩
  rw [hq, hready, hcnt]
  rfl

/-- **When only messages are taken.**  In every state of a run no entry was taken from an empty
ready list, and the counter is the length of the list and not negative, if and only if no timed wait
of the run that was woken with `0` found the list empty. -/
theorem counted_iff {es : List (Event τ)} {s : System τ} (h : Run (fun _ => True) es s) :
    (∀ e ∈ es, e.after.Counted ∧ 0 ≤ e.after.q.mMsgCnt) ↔
      ∀ e ∈ es, ¬ e.action.wokenEmpty e.before := by
  rw [← (run_iff (B := fun s a => a.wokenEmpty s) counted_start (fun _ _ _ _ => counted_step) h).1]
  exact forall₂_congr fun e _ => and_iff_left_of_imp Counted.nonneg

theorem counted_iff_one :
    ∃ es s, (System.start Mallocs.allOk fun _ => .zero).events (oneWaiter 1000) = some (es, s) ∧
      ∀ e ∈ es, e.after.Counted ∧ 0 ≤ e.after.q.mMsgCnt :=
  ⟨_, _, rfl, (counted_iff (events_run (oneWaiter 1000) rfl)).mpr (by decide)⟩

/-- a consumer blocks with a timeout and is woken, but another one gets the message -/
def barging : List (Action (Fin 3)) :=
  [.call 1 (.waitMessageQueueNotEmpty 1000), .putMessageWithData 0 .allOk emptyMessage (some 1),
    .getMessage 2, .resume 1]

theorem barging_takes_head :
    ∃ es s, (System.start Mallocs.allOk fun _ => .zero).events barging = some (es, s) ∧
      Run (fun _ => True) es s ∧
      s.tookHead = true ∧ s.q.mMsgCnt = -1 ∧ ¬ s.Counted :=
  ⟨_, _, rfl, events_run barging rfl, rfl, rfl, fun h => nomatch h.tookHead⟩

/-- with one consumer and no spurious wake-ups a woken consumer always finds its message -/
theorem single_consumer_counted {c : τ} {es : List (Event τ)} {s : System τ}
    (h : Run (SingleConsumer c) es s) :
    s.Counted := by
  induction h with
  | start _ => exact counted_start _ _
  | @next es s s' a r hrun ha hs ih =>
    refine (counted_step ih hs).mpr fun hbad => ?_
    cases a with
    | resume t =>
      obtain rfl : t = c := ha
      simp only [Action.wokenEmpty] at hbad
      split at hbad
      · next w ret hpc =>
        cases w with
        | waitMessageQueueNotEmpty timeout =>
          obtain ⟨-, rfl, hready⟩ := hbad
          exact (wokenFinds_run hrun).finds _ hpc hready
        | dryWaitMessageQueue timeout => exact hbad
      · exact hbad
    | _ => exact hbad

end

end Pluto

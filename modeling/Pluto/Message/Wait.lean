import Pluto.Message.Threads

/-!
# One consumer waits for messages

With one consumer thread and no spurious wake-ups, a consumer woken with the value `0` finds a
message: only a successful put wakes it, and nobody else takes messages (`WokenFinds`).  So a
`wait_message_queue_not_empty` that returns `0` has delivered the oldest message, with one
exception: called with a positive timeout while a message is ready, it returns `0` and delivers
nothing (`wait_delivers_iff`).
-/

namespace Pluto

/-- what the return of a call delivered: `msg_out` holds the oldest ready message, which and no
other left the ready list, and the counter went down by one -/
def Delivered {τ : Type} (s s' : System τ) (r : Returned) : Prop :=
  ∃ n ready, s.q.mReadyMessageList = n :: ready ∧ r.msgOut = some (s.q.node n) ∧
    s'.q.mReadyMessageList = ready ∧ s'.q.mMsgCnt = s.q.mMsgCnt - 1

set_option linter.unusedSectionVars false

section
variable {τ : Type} [DecidableEq τ]

/-- puts by any thread, everything else by the consumer `c`; no spurious wake-ups -/
def SingleConsumer (c : τ) : Action τ → Prop
  | .putMessage _ _ _ _ => True
  | .putMessageWithData _ _ _ _ => True
  | .getMessage t => t = c
  | .getMessageCount t => t = c
  | .call t _ => t = c
  | .expire t _ => t = c
  | .spurious _ => False
  | .resume t => t = c

/-! ## the invariant -/

/-- only the consumer is ever in a blocking call, and it finds a message when a signal woke it -/
structure WokenFinds (c : τ) (s : System τ) : Prop where
  only : ∀ t, s.pc t ≠ .outside → t = c
  finds : ∀ w, s.pc c = .woken w 0 → s.q.mReadyMessageList ≠ []

theorem wokenFinds_goto {c : τ} {s : System τ} (h : ∀ t, s.pc t ≠ .outside → t = c) (p : Pc)
    (hp : ∀ w, p = .woken w 0 → s.q.mReadyMessageList ≠ []) : WokenFinds c (s.goto c p) := by
  refine ⟨fun t ht => ?_, fun w hw => ?_⟩
  · by_cases e : t = c
    · exact e
    · exact h t (by simpa [System.goto, Function.update_of_ne e] using ht)
  · exact hp w (by simpa [System.goto] using hw)

theorem wokenFinds_afterPut {c : τ} {s s' : System τ} (h : WokenFinds c s) (m : Mallocs)
    (msg : MsgIn) (wake : Option τ) (r : Option Returned)
    (hs : s.afterPut (putMessageWithData m s.q msg) wake = some (s', r)) : WokenFinds c s' := by
  have hput := put_effect m s.q msg
  obtain ⟨hq, -, hpc | ⟨h0, t, w, hblocked, hpc⟩⟩ := afterPut_cases hs
  · refine ⟨fun t ht => h.only t (hpc ▸ ht), fun w hw => ?_⟩
    rw [hq]
    exact hput.ready_ne_nil (h.finds w (hpc ▸ hw))
  · -- the signal goes out: the message just put is ready
    have hne := hput.ready_of_put h0
    obtain rfl : t = c := h.only t (by rw [hblocked]; exact nofun)
    have hg :=
      wokenFinds_goto (s := { s with q := (putMessageWithData m s.q msg).2 }) h.only (.woken w 0)
        fun _ _ => hne
    refine ⟨fun u hu => hg.only u (hpc ▸ hu), fun w' hw => ?_⟩
    rw [hq]
    exact hne

theorem wokenFinds_block {c : τ} {s : System τ} (h : ∀ t, s.pc t ≠ .outside → t = c)
    (w : WaitCall) :
    WokenFinds c (s.block c w).1 := by
  have hg := wokenFinds_goto h (.blocked w) (by simp)
  exact ⟨hg.only, hg.finds⟩

theorem wokenFinds_deliver {c : τ} {s : System τ} (h : ∀ t, s.pc t ≠ .outside → t = c) (ret : Int) :
    WokenFinds c (s.deliver c ret).1 := by
  have hg := wokenFinds_goto h .outside (by simp)
  refine ⟨fun t ht => hg.only t (deliver_pc s c ret ▸ ht), fun w hw => ?_⟩
  rw [deliver_pc, goto_self] at hw
  cases hw

theorem wokenFinds_dryReturn {c : τ} {s : System τ} (h : ∀ t, s.pc t ≠ .outside → t = c) :
    WokenFinds c (s.dryReturn c).1 :=
  wokenFinds_goto (s := s.setFlag false) h .outside (by simp)

theorem wokenFinds_enter {c : τ} {s : System τ} (h : WokenFinds c s) (w : WaitCall) :
    WokenFinds c (s.enter c w).1 := by
  have hf : WokenFinds c (s.setFlag true) := ⟨h.only, h.finds⟩
  unfold System.enter
  dsimp only
  split
  · exact wokenFinds_block hf.only w
  · cases w with
    | waitMessageQueueNotEmpty timeout =>
      dsimp only
      split
      · exact wokenFinds_deliver hf.only 0
      · exact hf
    | dryWaitMessageQueue timeout => exact wokenFinds_dryReturn hf.only

theorem wokenFinds_continue {c : τ} {s : System τ} (h : WokenFinds c s) (w : WaitCall) (ret : Int) :
    WokenFinds c (s.continue c w ret).1 := by
  unfold System.continue
  cases w with
  | waitMessageQueueNotEmpty timeout =>
    dsimp only
    split
    · split
      · exact wokenFinds_block h.only _
      · exact wokenFinds_deliver h.only ret
    · split
      · exact wokenFinds_deliver h.only ret
      · exact wokenFinds_goto h.only .outside (by simp)
  | dryWaitMessageQueue timeout =>
    dsimp only
    split
    · exact wokenFinds_block h.only _
    · exact wokenFinds_dryReturn h.only

theorem wokenFinds_step {c : τ} {s s' : System τ} {a : Action τ} {r : Option Returned}
    (h : WokenFinds c s) (ha : SingleConsumer c a) (hs : s.step a = some (s', r)) :
    WokenFinds c s' := by
  obtain ⟨-, hdid⟩ := step_did hs
  cases a with
  | putMessage t m msg wake => exact wokenFinds_afterPut h m msg.withoutData wake r hdid
  | putMessageWithData t m msg wake => exact wokenFinds_afterPut h m msg wake r hdid
  | getMessage t =>
    obtain rfl : t = c := ha
    obtain ⟨hpc, rfl⟩ := hdid
    exact ⟨h.only, fun w hw => nomatch hpc.symm.trans hw⟩
  | getMessageCount t =>
    obtain rfl : s' = s := hdid
    exact h
  | call t w =>
    obtain rfl : t = c := ha
    have := wokenFinds_enter h w
    rwa [hdid.2] at this
  | expire t err =>
    obtain rfl : t = c := ha
    obtain ⟨w, -, herr, rfl⟩ := hdid
    have hg := wokenFinds_goto h.only (.woken w err) fun w' hw => by
      cases hw
      exact absurd rfl herr
    exact ⟨hg.only, hg.finds⟩
  | spurious t => exact False.elim ha
  | resume t =>
    obtain rfl : t = c := ha
    obtain ⟨w, ret, -, hcont⟩ := hdid
    have := wokenFinds_continue h w ret
    rwa [hcont] at this

theorem wokenFinds_run {c : τ} {es : List (Event τ)} {s : System τ}
    (h : Run (SingleConsumer c) es s) : WokenFinds c s := by
  induction h with
  | start _ => exact ⟨fun t ht => absurd rfl ht, nofun⟩
  | next _ ha hs ih => exact wokenFinds_step ih ha hs

/-! ## what a return of `0` delivers -/

theorem deliver_delivers {s s' : System τ} {t : τ} {ret : Int} {r : Returned}
    (hne : s.q.mReadyMessageList ≠ []) (h : s.deliver t ret = (s', some r)) : Delivered s s' r := by
  unfold System.deliver at h
  split at h
  · next hl => exact absurd hl hne
  · next n ready hl =>
    cases h
    exact ⟨n, ready, hl, rfl, rfl, rfl⟩

/-- the action is a step of a `wait_message_queue_not_empty` call -/
def Action.inWait (s : System τ) : Action τ → Prop
  | .call _ (.waitMessageQueueNotEmpty _) => True
  | .resume t => ∃ timeout ret, s.pc t = .woken (.waitMessageQueueNotEmpty timeout) ret
  | _ => False

/-- the branch of the source that takes no message: a positive timeout and a message ready -/
def Action.timedNotEmpty (s : System τ) : Action τ → Prop
  | .call _ (.waitMessageQueueNotEmpty timeout) => 0 < timeout ∧ s.q.mReadyMessageList ≠ []
  | _ => False

/-- a call that returns at once takes the message, but with a positive timeout it leaves it -/
theorem enter_delivers {s s' : System τ} {t : τ} {timeout : Int} {r : Returned}
    (h : s.enter t (.waitMessageQueueNotEmpty timeout) = (s', some r)) :
    Delivered s s' r ↔ ¬ (0 < timeout ∧ s.q.mReadyMessageList ≠ []) := by
  unfold System.enter at h
  dsimp only at h
  by_cases hr : (s.setFlag true).q.mReadyMessageList = []
  · rw [if_pos hr] at h
    cases h
  · rw [if_neg hr] at h
    by_cases ht : timeout ≤ 0
    · rw [if_pos ht] at h
      obtain ⟨n, ready, h1, h2, h3, h4⟩ := deliver_delivers hr h
      exact ⟨fun _ h => absurd h.1 (not_lt.mpr ht), fun _ => ⟨n, ready, h1, h2, h3, h4⟩⟩
    · rw [if_neg ht] at h
      cases h
      refine ⟨fun ⟨_, _, _, hout, _⟩ => (by cases hout), fun h => ?_⟩
      exact absurd ⟨not_le.mp ht, hr⟩ h

/-- a woken call that returns `0` takes the message, with a timeout or without, where there is
one -/
theorem continue_delivers {s s' : System τ} {t : τ} {timeout ret : Int} {r : Returned}
    (hfinds : ret = 0 → s.q.mReadyMessageList ≠ [])
    (h : s.continue t (.waitMessageQueueNotEmpty timeout) ret = (s', some r)) (hret : r.ret = 0) :
    Delivered s s' r := by
  unfold System.continue at h
  dsimp only at h
  by_cases ht : timeout ≤ 0
  · rw [if_pos ht] at h
    split at h
    · cases h
    · next hne => exact deliver_delivers hne h
  · rw [if_neg ht] at h
    by_cases h0 : ret = 0
    · rw [if_pos h0] at h
      exact deliver_delivers (hfinds h0) h
    · rw [if_neg h0] at h
      cases h
      exact absurd hret h0

theorem deliver_iff {c : τ} {s s' : System τ} {a : Action τ} {r : Returned}
    (hfinds : WokenFinds c s) (ha : SingleConsumer c a) (hwait : a.inWait s)
    (hs : s.step a = some (s', some r)) (hret : r.ret = 0) :
    Delivered s s' r ↔ ¬ a.timedNotEmpty s := by
  obtain ⟨-, hdid⟩ := step_did hs
  cases a with
  | call t w =>
    cases w with
    | dryWaitMessageQueue timeout => exact False.elim hwait
    | waitMessageQueueNotEmpty timeout => exact enter_delivers hdid.2
  | resume t =>
    obtain rfl : t = c := ha
    obtain ⟨timeout, ret, hpc⟩ := hwait
    obtain ⟨w, ret', hpc', hcont⟩ := hdid
    cases hpc.symm.trans hpc'
    refine ⟨fun _ h => h, fun _ =>
      continue_delivers (fun h0 => hfinds.finds (.waitMessageQueueNotEmpty timeout) ?_) hcont hret⟩
    rw [hpc', h0]
  | putMessage t m msg wake => exact False.elim hwait
  | putMessageWithData t m msg wake => exact False.elim hwait
  | getMessage t => exact False.elim hwait
  | getMessageCount t => exact False.elim hwait
  | expire t err => exact False.elim hwait
  | spurious t => exact False.elim hwait

/-- the timed call on a queue with a message returns `0` at once -/
theorem timedNotEmpty_returns {s s' : System τ} {a : Action τ} {r : Option Returned}
    (h : a.timedNotEmpty s) (hs : s.step a = some (s', r)) : a.inWait s ∧ r = some ⟨0, none⟩ := by
  cases a with
  | call t w =>
    cases w with
    | dryWaitMessageQueue timeout => exact False.elim h
    | waitMessageQueueNotEmpty timeout =>
      refine ⟨trivial, ?_⟩
      obtain ⟨-, -, henter⟩ := step_did hs
      have hr : (s.setFlag true).q.mReadyMessageList ≠ [] := h.2
      unfold System.enter at henter
      dsimp only at henter
      rw [if_neg hr, if_neg (not_le.mpr h.1)] at henter
      cases henter
      rfl
  | _ => exact False.elim h

/-- what the caller of `wait_message_queue_not_empty` relies on -/
def Event.Delivers (e : Event τ) : Prop :=
  e.action.inWait e.before → ∀ r, e.returned = some r → r.ret = 0 → Delivered e.before e.after r

theorem event_delivers_iff {c : τ} {e : Event τ} (hfinds : WokenFinds c e.before)
    (ha : SingleConsumer c e.action) (hs : e.before.step e.action = some (e.after, e.returned)) :
    e.Delivers ↔ ¬ e.action.timedNotEmpty e.before := by
  constructor
  · intro h ht
    obtain ⟨hwait, hr⟩ := timedNotEmpty_returns ht hs
    rw [hr] at hs
    exact (deliver_iff hfinds ha hwait hs rfl).mp (h hwait _ hr rfl) ht
  · intro h hwait r hr hret
    rw [hr] at hs
    exact (deliver_iff hfinds ha hwait hs hret).mpr h

instance (a : Action τ) (s : System τ) : Decidable (a.timedNotEmpty s) :=
  match a with
  | .call _ (.waitMessageQueueNotEmpty timeout) =>
    inferInstanceAs (Decidable (0 < timeout ∧ s.q.mReadyMessageList ≠ []))
  | .call _ (.dryWaitMessageQueue _) | .putMessage _ _ _ _ | .putMessageWithData _ _ _ _
  | .getMessage _ | .getMessageCount _ | .expire _ _ | .spurious _ | .resume _ =>
    inferInstanceAs (Decidable False)

/-- **What a return value of `0` means.**  In a run with one consumer, every
`wait_message_queue_not_empty` that returns `0` has delivered the oldest message if and only if
none was called with a positive timeout while a message was ready. -/
theorem wait_delivers_iff {c : τ} {es : List (Event τ)} {s : System τ}
    (h : Run (SingleConsumer c) es s) :
    (∀ e ∈ es, e.Delivers) ↔ ∀ e ∈ es, ¬ e.action.timedNotEmpty e.before := by
  induction h with
  | start _ => simp
  | next hrun ha hs ih =>
    rw [List.forall_mem_append, List.forall_mem_append, List.forall_mem_singleton,
      List.forall_mem_singleton, ih, event_delivers_iff (wokenFinds_run hrun) ha hs]

end

/-! ## a late consumer -/

/-- a producer `false` puts `msg`; then the consumer `true` waits with a timeout -/
def putThenWait (timeout : Int) : List (Action Bool) :=
  [.putMessageWithData false Mallocs.allOk ⟨7, 0, 0, 0, none, 0⟩ none,
    .call true (.waitMessageQueueNotEmpty timeout)]

/-- the events of a list of actions, where they are all enabled -/
def System.events {τ : Type} [DecidableEq τ] (s : System τ) :
    List (Action τ) → Option (List (Event τ) × System τ)
  | [] => some ([], s)
  | a :: as =>
    match s.step a with
    | none => none
    | some (s', r) => (s'.events as).map fun p => (⟨s, a, s', r⟩ :: p.1, p.2)

theorem run_events {τ : Type} [DecidableEq τ] {allowed : Action τ → Prop} (as : List (Action τ)) :
    ∀ {es₀ es : List (Event τ)} {s s' : System τ}, Run allowed es₀ s → (∀ a ∈ as, allowed a) →
      s.events as = some (es, s') → Run allowed (es₀ ++ es) s' := by
  induction as with
  | nil =>
    intro es₀ es s s' h _ he
    cases he
    rwa [List.append_nil]
  | cons a as ih =>
    intro es₀ es s s' h ha he
    unfold System.events at he
    cases hs : s.step a with
    | none => rw [hs] at he; cases he
    | some p =>
      rw [hs] at he
      obtain ⟨q, hq, hqe⟩ := Option.map_eq_some_iff.mp he
      cases hqe
      have h1 := Run.next h (ha a (List.mem_cons_self)) hs
      have h2 := ih h1 (fun b hb => ha b (List.mem_cons_of_mem _ hb)) hq
      rwa [List.append_assoc] at h2

theorem putThenWait_single (timeout : Int) : ∀ a ∈ putThenWait timeout, SingleConsumer true a := by
  intro a ha
  simp only [putThenWait, List.mem_cons, List.not_mem_nil, or_false] at ha
  rcases ha with rfl | rfl
  · exact trivial
  · exact rfl

theorem putThenWait_enabled (timeout : Int) :
    ((System.start Mallocs.allOk fun _ => .zero).events (putThenWait timeout)).isSome = true :=
  rfl

def putThenWaitRun (timeout : Int) : List (Event Bool) × System Bool :=
  ((System.start Mallocs.allOk fun _ => .zero).events (putThenWait timeout)).get
    (putThenWait_enabled timeout)

theorem putThenWait_run (timeout : Int) :
    Run (SingleConsumer true) (putThenWaitRun timeout).1 (putThenWaitRun timeout).2 :=
  run_events (putThenWait timeout) (.start rfl) (putThenWait_single timeout)
    (Option.some_get (putThenWait_enabled timeout)).symm

/-- the consumer that waits without a timeout gets the message -/
theorem wait_delivers_iff_untimed :
    Run (SingleConsumer true) (putThenWaitRun 0).1 (putThenWaitRun 0).2 ∧
      ∀ e ∈ (putThenWaitRun 0).1, e.Delivers :=
  ⟨putThenWait_run 0, (wait_delivers_iff (putThenWait_run 0)).mpr (by decide)⟩

/-- the consumer that waits for two seconds, as `msg_thread` of `foundations_test` does, is told `0`
and gets nothing: the message stays in the ready list -/
theorem timed_wait_delivers_nothing :
    Run (SingleConsumer true) (putThenWaitRun 2000).1 (putThenWaitRun 2000).2 ∧
      (putThenWaitRun 2000).2.q.mReadyMessageList = [0] ∧ (putThenWaitRun 2000).2.q.mMsgCnt = 1 ∧
      ¬ ∀ e ∈ (putThenWaitRun 2000).1, e.Delivers := by
  refine ⟨putThenWait_run 2000, rfl, rfl, fun h => ?_⟩
  obtain ⟨_, _, _, hout, _⟩ := h _ (List.mem_cons_of_mem _ (List.mem_cons_self)) trivial _ rfl rfl
  cases hout

end Pluto

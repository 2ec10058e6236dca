import Pluto.Message.Queue

/-!
# Threads on one message queue

`System τ` is a queue with the threads `τ` that use it.  A thread holds the mutex from the lock of
a call to its unlock, so one `Action` is the code between the points where the mutex is taken and
given up: a whole `put_message`, `put_message_with_data`, `get_message` or `get_message_count`, a
blocking call up to its return or to its `pthread_cond_wait`, or the code behind that wait once the
thread has the mutex again.

* `Pc`      where a thread is: outside, blocked in the condition, or woken with the value that
            the wait will return;
* `signal`  `pthread_cond_signal`: one of the blocked threads is woken, none if none is blocked;
* `step`    one action; it fails when the action is not enabled;
* `Run`     the runs of allowed actions from a new queue, with what each action returned.
-/

namespace Pluto

/-- a call that may block, with its timeout in milliseconds -/
inductive WaitCall where
  | waitMessageQueueNotEmpty (timeout : Int)
  | dryWaitMessageQueue (timeout : Int)
deriving DecidableEq, Repr

def WaitCall.timeout : WaitCall → Int
  | .waitMessageQueueNotEmpty t => t
  | .dryWaitMessageQueue t => t

inductive Pc where
  | outside
  | blocked (c : WaitCall)
  | woken (c : WaitCall) (ret : Int)
deriving DecidableEq, Repr

/-- `tookHead`: `list_first_entry` was taken from an empty ready list, so the list head went to the
idle list as if it were a message; nothing is said about what the program does after that.
`headEntry`: what the memory around the list head reads as, as a message -/
structure System (τ : Type) where
  q : MessageQueueT
  pc : τ → Pc
  waiters : List τ
  tookHead : Bool
  headEntry : MessageQueueT → MessageT

/-- the return value of a call, and `msg_out` where the call wrote it -/
structure Returned where
  ret : Int
  msgOut : Option MessageT
deriving DecidableEq, Repr

/-- `wake` is the thread that the signal of a put wakes -/
inductive Action (τ : Type) where
  | putMessage (t : τ) (m : Mallocs) (msg : MsgIn) (wake : Option τ)
  | putMessageWithData (t : τ) (m : Mallocs) (msg : MsgIn) (wake : Option τ)
  | getMessage (t : τ)
  | getMessageCount (t : τ)
  | call (t : τ) (c : WaitCall)
  | expire (t : τ) (err : Int)
  | spurious (t : τ)
  | resume (t : τ)

section
variable {τ : Type} [DecidableEq τ]

def System.goto (s : System τ) (t : τ) (p : Pc) : System τ :=
  { s with pc := Function.update s.pc t p }

def System.setFlag (s : System τ) (b : Bool) : System τ :=
  { s with q := { s.q with mWaitingFlag := b } }

def System.signal (s : System τ) : Option τ → Option (System τ)
  | none => if s.waiters = [] then some s else none
  | some t =>
    match s.pc t with
    | .blocked c => if t ∈ s.waiters then
        some { s.goto t (.woken c 0) with waiters := s.waiters.erase t }
      else none
    | _ => none

/-- the end of a put: the signal goes out if the put succeeded and the flag is set -/
def System.afterPut (s : System τ) (r : Int × MessageQueueT) (wake : Option τ) :
    Option (System τ × Option Returned) :=
  let s := { s with q := r.2 }
  if r.1 = 0 ∧ r.2.mWaitingFlag = true then (s.signal wake).map fun s => (s, some ⟨r.1, none⟩)
  else if wake = none then some (s, some ⟨r.1, none⟩) else none

/-- `pthread_cond_wait`, `pthread_cond_timedwait` -/
def System.block (s : System τ) (t : τ) (c : WaitCall) : System τ × Option Returned :=
  ({ s.goto t (.blocked c) with waiters := s.waiters ++ [t] }, none)

/-- the dequeue of `wait_message_queue_not_empty` and its return -/
def System.deliver (s : System τ) (t : τ) (ret : Int) : System τ × Option Returned :=
  match s.q.mReadyMessageList with
  | [] =>
    -- `msg_out`, the counter and the flag are stored as for a message
    let q := { s.q with mMsgCnt := s.q.mMsgCnt - 1 }
    ((({ s with q := q, tookHead := true } : System τ).setFlag false).goto t .outside,
      some ⟨ret, some (s.headEntry s.q)⟩)
  | n :: ready =>
    let r := takeFirstReady s.q n ready
    ((({ s with q := r.2 } : System τ).setFlag false).goto t .outside, some ⟨ret, some r.1⟩)

/-- the return of `dry_wait_message_queue` -/
def System.dryReturn (s : System τ) (t : τ) : System τ × Option Returned :=
  ((s.setFlag false).goto t .outside, some ⟨s.q.mMsgCnt, none⟩)

/-- a blocking call, from its lock on -/
def System.enter (s : System τ) (t : τ) (c : WaitCall) : System τ × Option Returned :=
  let s := s.setFlag true
  if s.q.mReadyMessageList = [] then s.block t c
  else
    match c with
    | .waitMessageQueueNotEmpty timeout =>
      if timeout ≤ 0 then s.deliver t 0 else (s, some ⟨0, none⟩)
    | .dryWaitMessageQueue _ => s.dryReturn t

/-- a blocking call, from the return of its wait on -/
def System.continue (s : System τ) (t : τ) (c : WaitCall) (ret : Int) :
    System τ × Option Returned :=
  match c with
  | .waitMessageQueueNotEmpty timeout =>
    if timeout ≤ 0 then
      if s.q.mReadyMessageList = [] then s.block t c else s.deliver t ret
    else if ret = 0 then s.deliver t ret
    else (s.goto t .outside, some ⟨ret, none⟩)
  | .dryWaitMessageQueue timeout =>
    if timeout ≤ 0 ∧ s.q.mReadyMessageList = [] then s.block t c else s.dryReturn t

def System.step (s : System τ) (a : Action τ) : Option (System τ × Option Returned) :=
  if s.tookHead then none
  else
    match a with
    | .putMessage t m msg wake =>
      if s.pc t = .outside then s.afterPut (Pluto.putMessage m s.q msg) wake else none
    | .putMessageWithData t m msg wake =>
      if s.pc t = .outside then s.afterPut (Pluto.putMessageWithData m s.q msg) wake else none
    | .getMessage t =>
      if s.pc t = .outside then
        let r := Pluto.getMessage s.q
        some ({ s with q := r.2.2 }, some ⟨r.1, r.2.1⟩)
      else none
    | .getMessageCount t =>
      if s.pc t = .outside then some (s, some ⟨Pluto.getMessageCount s.q, none⟩) else none
    | .call t c => if s.pc t = .outside then some (s.enter t c) else none
    | .expire t err =>
      match s.pc t with
      | .blocked c =>
        if 0 < c.timeout ∧ err ≠ 0 then
          some ({ s.goto t (.woken c err) with waiters := s.waiters.erase t }, none)
        else none
      | _ => none
    | .spurious t =>
      match s.pc t with
      | .blocked c => some ({ s.goto t (.woken c 0) with waiters := s.waiters.erase t }, none)
      | _ => none
    | .resume t =>
      match s.pc t with
      | .woken c ret => some (s.continue t c ret)
      | _ => none

/-- a queue that `message_create` has just returned, and no thread in a call -/
def System.start (m : Mallocs) (headEntry : MessageQueueT → MessageT) : System τ where
  q := (messageCreate m).2
  pc := fun _ => .outside
  waiters := []
  tookHead := false
  headEntry := headEntry

/-- one step of a run: the action, the systems around it and what a call returned in it -/
structure Event (τ : Type) where
  before : System τ
  action : Action τ
  after : System τ
  returned : Option Returned

/-! ## what the parts of a step do -/

@[simp] theorem goto_self (s : System τ) (t : τ) (p : Pc) : (s.goto t p).pc t = p := by
  unfold System.goto
  exact Function.update_self ..

theorem goto_of_ne (s : System τ) {t u : τ} (h : u ≠ t) (p : Pc) : (s.goto t p).pc u = s.pc u := by
  unfold System.goto
  exact Function.update_of_ne h ..

/-- the end of a put wakes at most one thread, a blocked one, and only if the put succeeded -/
theorem afterPut_cases {s s' : System τ} {r : Int × MessageQueueT} {wake : Option τ}
    {ret : Option Returned} (h : s.afterPut r wake = some (s', ret)) :
    s'.q = r.2 ∧ s'.tookHead = s.tookHead ∧
      (s'.pc = s.pc ∨ r.1 = 0 ∧ ∃ t c, s.pc t = .blocked c ∧
      s'.pc = (s.goto t (.woken c 0)).pc) := by
  unfold System.afterPut at h
  dsimp only at h
  split at h
  · next h0 =>
    obtain ⟨s₁, hs₁, he⟩ := Option.map_eq_some_iff.mp h
    cases he
    unfold System.signal at hs₁
    cases wake with
    | none =>
      dsimp only at hs₁
      split at hs₁
      · cases hs₁
        exact ⟨rfl, rfl, Or.inl rfl⟩
      · cases hs₁
    | some t =>
      dsimp only at hs₁
      split at hs₁
      · next c hc =>
        split at hs₁
        · cases hs₁
          exact ⟨rfl, rfl, Or.inr ⟨h0.1, t, c, hc, rfl⟩⟩
        · cases hs₁
      · cases hs₁
  · split at h
    · cases h
      exact ⟨rfl, rfl, Or.inl rfl⟩
    · cases h

@[simp] theorem deliver_pc (s : System τ) (t : τ) (ret : Int) :
    (s.deliver t ret).1.pc = (s.goto t .outside).pc := by
  unfold System.deliver
  split <;> rfl

@[simp] theorem deliver_flag (s : System τ) (t : τ) (ret : Int) :
    (s.deliver t ret).1.q.mWaitingFlag = false := by
  unfold System.deliver
  split <;> rfl

theorem deliver_cnt (s : System τ) (t : τ) (ret : Int) :
    (s.deliver t ret).1.q.mMsgCnt = s.q.mMsgCnt - 1 := by
  unfold System.deliver
  split <;> rfl

theorem deliver_ready (s : System τ) (t : τ) (ret : Int) :
    (s.deliver t ret).1.q.mReadyMessageList = s.q.mReadyMessageList.tail := by
  unfold System.deliver
  split
  · next h =>
    show s.q.mReadyMessageList = _
    rw [h]
    rfl
  · next h =>
    rw [h]
    rfl

/-- the dequeue takes the list head exactly where there is no message -/
theorem deliver_tookHead (s : System τ) (t : τ) (ret : Int) :
    (s.deliver t ret).1.tookHead = (s.tookHead || s.q.mReadyMessageList.isEmpty) := by
  unfold System.deliver
  split
  · next h =>
    rw [h]
    exact (Bool.or_true _).symm
  · next h =>
    rw [h]
    exact (Bool.or_false _).symm

/-- the guards that an action passed, and what it did -/
def Action.Did (s s' : System τ) (r : Option Returned) : Action τ → Prop
  | .putMessage _ m msg wake =>
    s.afterPut (Pluto.putMessageWithData m s.q msg.withoutData) wake = some (s', r)
  | .putMessageWithData _ m msg wake =>
    s.afterPut (Pluto.putMessageWithData m s.q msg) wake = some (s', r)
  | .getMessage t => s.pc t = .outside ∧ s' = { s with q := (Pluto.getMessage s.q).2.2 }
  | .getMessageCount _ => s' = s
  | .call t c => s.pc t = .outside ∧ s.enter t c = (s', r)
  | .expire t err => ∃ c, s.pc t = .blocked c ∧ err ≠ 0 ∧
      s' = { s.goto t (.woken c err) with waiters := s.waiters.erase t }
  | .spurious t =>
    ∃ c, s.pc t = .blocked c ∧ s' = { s.goto t (.woken c 0) with waiters := s.waiters.erase t }
  | .resume t => ∃ c ret, s.pc t = .woken c ret ∧ s.continue t c ret = (s', r)

theorem step_did {s s' : System τ} {a : Action τ} {r : Option Returned}
    (h : s.step a = some (s', r)) :
    s.tookHead = false ∧ a.Did s s' r := by
  unfold System.step at h
  split at h
  · cases h
  next hhead =>
  refine ⟨Bool.eq_false_of_not_eq_true hhead, ?_⟩
  cases a with
  | putMessage t m msg wake =>
    dsimp only at h
    split at h
    · exact h
    · cases h
  | putMessageWithData t m msg wake =>
    dsimp only at h
    split at h
    · exact h
    · cases h
  | getMessage t =>
    dsimp only at h
    split at h
    · next hpc =>
      cases h
      exact ⟨hpc, rfl⟩
    · cases h
  | getMessageCount t =>
    dsimp only at h
    split at h
    · cases h
      exact rfl
    · cases h
  | call t c =>
    dsimp only at h
    split at h
    · next hpc => exact ⟨hpc, Option.some.inj h⟩
    · cases h
  | expire t err =>
    dsimp only at h
    split at h
    · next c hc =>
      split at h
      · next herr =>
        cases h
        exact ⟨c, hc, herr.2, rfl⟩
      · cases h
    · cases h
  | spurious t =>
    dsimp only at h
    split at h
    · next c hc =>
      cases h
      exact ⟨c, hc, rfl⟩
    · cases h
  | resume t =>
    dsimp only at h
    split at h
    · next c ret hc => exact ⟨c, ret, hc, Option.some.inj h⟩
    · cases h

/-- the runs of allowed actions from a queue whose creation succeeded -/
inductive Run (allowed : Action τ → Prop) : List (Event τ) → System τ → Prop where
  | start {m : Mallocs} {headEntry : MessageQueueT → MessageT} :
      (messageCreate m).1 = 0 → Run allowed [] (System.start m headEntry)
  | next {es : List (Event τ)} {s s' : System τ} {a : Action τ} {r : Option Returned} :
      Run allowed es s → allowed a → s.step a = some (s', r) →
        Run allowed (es ++ [⟨s, a, s', r⟩]) s'

end

end Pluto

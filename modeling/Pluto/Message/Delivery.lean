import Pluto.Message.Payload
import Pluto.Message.Waiters

/-!
# Messages between threads

Any number of producers and consumers, in any order of steps, whatever the allocations do.

* `Stores q msgs`      the ready list of `q` reads as `msgs`, and no block of a node is gone;
* `stores_put`, `stores_take`   one call;
* `TookHead`           a timed wait that is woken in front of an empty list hands out what is no
  message;
* `threads_fifo`       up to such a wait the messages put are, in order, the messages received and
  those still ready;
* `Attended`           with one consumer nobody sleeps while a message is ready;
* `consumer_wakes`     and the consumer gets the oldest message by its own next steps.
-/

set_option linter.unusedSectionVars false

namespace Pluto
open Octets

/-! ## a queue that stores messages -/

structure Stores (q : MessageQueueT) (msgs : List Msg) : Prop where
  owns : Owns q
  block : ∀ n ∈ q.nodes, ∀ a, (q.node n).mpData = some a → (q.heap.block a).isSome
  reads : q.mReadyMessageList.map (fun n => (q.node n).read q.heap) = msgs.map some

theorem Stores.congr {q q' : MessageQueueT} {msgs : List Msg} (h : Stores q msgs)
    (hidle : q'.mIdleMessageList = q.mIdleMessageList)
    (hready : q'.mReadyMessageList = q.mReadyMessageList) (hnode : q'.node = q.node)
    (hheap : q'.heap = q.heap) (hbrk : q'.brk = q.brk) : Stores q' msgs := by
  have hnodes : q'.nodes = q.nodes := by
    unfold MessageQueueT.nodes
    rw [hidle, hready]
  refine ⟨h.owns.perm (hnodes ▸ List.Perm.refl _) hnode hheap hbrk, ?_, ?_⟩
  · rw [hnodes, hnode, hheap]
    exact h.block
  · rw [hready, hnode, hheap]
    exact h.reads

theorem stores_init : Stores MessageQueueT.init [] :=
  ⟨owns_init, fun _ hn => absurd hn List.not_mem_nil, rfl⟩

section
variable {q : MessageQueueT} {msgs : List Msg} {msg : MsgIn}

theorem stores_increase (h : Stores q msgs) (m : Mallocs) :
    Stores (messageIncreaseIdleMessageList m q).2 msgs := by
  have howns := owns_increase h.owns m
  rcases increase_cases m q with hq | hq | hq
  · rw [hq]
    exact h
  · rw [hq]
    exact h.congr rfl rfl rfl rfl rfl
  rw [hq] at howns ⊢
  refine ⟨howns, ?_, ?_⟩
  · intro n hn a ha
    obtain ⟨hold, hnode⟩ := addPool_node hn ha
    exact h.block n hold a (hnode ▸ ha)
  · rw [← h.reads]
    apply List.map_congr_left
    intro n hn
    show (if n ∈ (MessagePool.mk q.brk).nodes then MessageT.zero else q.node n).read q.heap = _
    rw [if_neg (addPool_new h.owns.below (List.mem_append_right _ hn))]

/-- a copy that succeeds does what it does where every allocation succeeds -/
theorem deepCopy_copies {ok : Bool} (hw : msg.Wf) (h : msg.copies ok = true) (heap : PayloadHeap)
    (dst : MessageT) :
    messageDeepCopyMessage ok heap dst msg = messageDeepCopyMessage true heap dst msg := by
  obtain ⟨sid, scmd, sp0, sp1, sdata, ssize⟩ := msg
  cases ok with
  | true => rfl
  | false =>
    cases sdata with
    | none => rfl
    | some b =>
      have hsize : ssize < 0 := by simpa [MsgIn.copies] using h
      exact absurd hw.1 (not_le.mpr hsize)

/-- a copy that fails leaves the node without a block -/
theorem deepCopy_fails {ok : Bool} (h : ¬ msg.copies ok = true) (heap : PayloadHeap)
    (dst : MessageT) :
    (messageDeepCopyMessage ok heap dst msg).2.1.mpData = none := by
  obtain ⟨sid, scmd, sp0, sp1, sdata, ssize⟩ := msg
  cases ok with
  | true => exact absurd (Bool.or_true _) h
  | false =>
    cases sdata with
    | none => exact absurd rfl h
    | some b =>
      have hsize : ssize ≥ 0 := by
        by_contra hneg
        exact h (by simpa [MsgIn.copies] using lt_of_not_ge hneg)
      unfold messageDeepCopyMessage
      dsimp only
      rw [if_pos hsize, if_neg Bool.false_ne_true]

/-- the blocks of the other nodes are untouched by a copy into `n` -/
theorem stores_other (h : Stores q msgs) {n : Nat} (hn : n ∈ q.nodes) {ok : Bool}
    {r : Int × MessageT × PayloadHeap} (hr : DeepCopied ok q.heap (q.node n) msg r) {k : Nat}
    (hk : k ∈ q.nodes) (hne : k ≠ n) {a : Nat} (ha : (q.node k).mpData = some a) :
    r.2.2.block a = q.heap.block a :=
  hr.block a (h.owns.live k hk a ha).1 fun hna => absurd (h.owns.owner k hk n hn a ha hna) hne

/-- every block is there behind a copy that has its own -/
theorem stores_block (h : Stores q msgs) {n : Nat} (hn : n ∈ q.nodes) {ok : Bool}
    {r : Int × MessageT × PayloadHeap} (hr : DeepCopied ok q.heap (q.node n) msg r)
    (hnew : ∀ a, r.2.1.mpData = some a → (r.2.2.block a).isSome) {k : Nat} (hk : k ∈ q.nodes)
    {a : Nat} (ha : (Function.update q.node n r.2.1 k).mpData = some a) :
    (r.2.2.block a).isSome := by
  rcases update_block ha with ⟨-, hd⟩ | ⟨hne, hold⟩
  · exact hnew a hd
  · rw [stores_other h hn hr hk hne hold]
    exact h.block k hk a hold

/-- a put into the first idle node -/
theorem stores_putFirstIdle (h : Stores q msgs) (ok : Bool) (hw : msg.Wf) :
    (putFirstIdle ok q msg).1 = 0 ∧ Stores (putFirstIdle ok q msg).2 (msgs ++ [msg.message]) ∨
      (putFirstIdle ok q msg).1 ≠ 0 ∧ Stores (putFirstIdle ok q msg).2 msgs := by
  have hfailed : (-1 : Int) ≠ 0 := by decide
  have howns := owns_putFirstIdle h.owns ok msg
  have hperm := putFirstIdle_perm ok q msg
  cases hl : q.mIdleMessageList with
  | nil =>
    rw [putFirstIdle_nil ok hl]
    exact Or.inr ⟨hfailed, h⟩
  | cons n idle =>
    have hn : n ∈ q.nodes := List.mem_append_left _ (hl ▸ List.mem_cons_self)
    have hready : ∀ k ∈ q.mReadyMessageList, k ≠ n := by
      rintro k hk rfl
      have hnodup := h.owns.nodup
      unfold MessageQueueT.nodes at hnodup
      rw [hl] at hnodup
      exact (List.nodup_cons.mp hnodup).1 (List.mem_append_right _ hk)
    have hr := deepCopied ok q.heap (q.node n) msg
    have hput := putFirstIdle_eq hl (r := messageDeepCopyMessage ok q.heap (q.node n) msg) rfl
    -- the messages in front of the copy
    have hkeep : ∀ k ∈ q.mReadyMessageList, ∀ a, (q.node k).mpData = some a →
        (messageDeepCopyMessage ok q.heap (q.node n) msg).2.2.block a = q.heap.block a :=
      fun k hk a ha => stores_other h hn hr (List.mem_append_right _ hk) (hready k hk) ha
    by_cases hcopies : msg.copies ok = true
    · obtain ⟨dst, heap, hc, hread, -, hown, -⟩ :=
        deepCopy_spec q.heap (q.node n) msg hw fun a ha =>
          ⟨(h.owns.live n hn a ha).1, h.block n hn a ha⟩
      rw [← deepCopy_copies hw hcopies] at hc
      rw [hc] at hr hput hkeep
      rw [if_pos rfl] at hput
      rw [hput] at howns hperm ⊢
      refine Or.inl ⟨rfl, howns, fun k hk a ha => ?_, ?_⟩
      · exact stores_block h hn hr (fun a ha => (hown a ha).2.1) (hperm.mem_iff.mp hk) ha
      · dsimp only
        rw [reads_update (fun hmem => hready n hmem rfl) hkeep, h.reads, hread, List.map_append,
          List.map_singleton]
    · have hret : (messageDeepCopyMessage ok q.heap (q.node n) msg).1 ≠ 0 :=
        fun h0 => hcopies (hr.ret.mp h0)
      have hnone := deepCopy_fails hcopies q.heap (q.node n)
      rw [if_neg hret] at hput
      rw [hput] at howns hperm ⊢
      refine Or.inr ⟨hfailed, howns, fun k hk a ha => ?_, ?_⟩
      · exact stores_block h hn hr
          (fun a ha => absurd (hnone.symm.trans ha) (Option.some_ne_none a).symm)
          (hperm.mem_iff.mp hk) ha
      · rw [← h.reads]
        apply List.map_congr_left
        intro k hk
        dsimp only
        rw [Function.update_of_ne (hready k hk)]
        exact (q.node k).read_congr _ _ (hkeep k hk)

theorem stores_put (h : Stores q msgs) (m : Mallocs) (hw : msg.Wf) :
    (putMessageWithData m q msg).1 = 0 ∧
      Stores (putMessageWithData m q msg).2 (msgs ++ [msg.message]) ∨
      (putMessageWithData m q msg).1 ≠ 0 ∧ Stores (putMessageWithData m q msg).2 msgs := by
  unfold putMessageWithData
  by_cases hidle : q.mIdleMessageList = []
  · rw [if_pos hidle]
    dsimp only
    have hmore := stores_increase h m
    by_cases h0 : (messageIncreaseIdleMessageList m q).1 = 0
    · rw [if_neg (not_not.mpr h0)]
      exact stores_putFirstIdle hmore m.payload hw
    · rw [if_pos h0]
      exact Or.inr ⟨show (-1 : Int) ≠ 0 by decide, hmore⟩
  · rw [if_neg hidle]
    exact stores_putFirstIdle h m.payload hw

theorem stores_take (h : Stores q msgs) {n : Nat} {ready : List Nat}
    (hl : q.mReadyMessageList = n :: ready) :
    ∃ m rest, msgs = m :: rest ∧ (q.node n).read q.heap = some m ∧
      Stores (takeFirstReady q n ready).2 rest := by
  have hreads := h.reads
  rw [hl, List.map_cons] at hreads
  cases msgs with
  | nil => cases hreads
  | cons m rest =>
    obtain ⟨hm, hrest⟩ := List.cons.inj hreads
    have hperm : (takeFirstReady q n ready).2.nodes.Perm q.nodes := by
      show (q.mIdleMessageList ++ [n] ++ ready).Perm (q.mIdleMessageList ++ q.mReadyMessageList)
      rw [hl, List.append_assoc, List.singleton_append]
    exact ⟨m, rest, rfl, hm, h.owns.perm hperm rfl rfl rfl,
      fun k hk => h.block k (hperm.mem_iff.mp hk), hrest⟩

end

/-! ## what a step of a thread sends and receives -/

def Action.Wf {τ : Type} : Action τ → Prop
  | .putMessageWithData _ _ msg _ => msg.Wf
  | _ => True

section
variable {τ : Type} [DecidableEq τ]

/-- the message that an action puts -/
def Action.message {τ : Type} : Action τ → List Msg
  | .putMessage _ _ msg _ => [msg.withoutData.message]
  | .putMessageWithData _ _ msg _ => [msg.message]
  | _ => []

/-- the message of a put that succeeded -/
def Event.sent (e : Event τ) : List Msg :=
  if e.returned.map Returned.ret = some 0 then e.action.message else []

/-- the message that a call handed out, as it reads in the heap -/
def handed (heap : PayloadHeap) : Option Returned → List (Option Msg)
  | some ⟨_, some m⟩ => [m.read heap]
  | _ => []

/-- the message that a step handed out, as it reads at the return of the call -/
def Event.received (e : Event τ) : List (Option Msg) := handed e.after.q.heap e.returned

/-- the messages that are ready, in order -/
def System.pending (s : System τ) : List (Option Msg) :=
  s.q.mReadyMessageList.map fun n => (s.q.node n).read s.q.heap

/-- what an action returned that returns at once -/
def Action.Gave (s : System τ) (r : Option Returned) : Action τ → Prop
  | .putMessage _ m msg _ => r = some ⟨(Pluto.putMessageWithData m s.q msg.withoutData).1, none⟩
  | .putMessageWithData _ m msg _ => r = some ⟨(Pluto.putMessageWithData m s.q msg).1, none⟩
  | .getMessage _ => r = some ⟨(Pluto.getMessage s.q).1, (Pluto.getMessage s.q).2.1⟩
  | .getMessageCount _ => r = some ⟨Pluto.getMessageCount s.q, none⟩
  | .expire _ _ => r = none
  | .spurious _ => r = none
  | .call _ _ => True
  | .resume _ => True

theorem afterPut_gave {s s' : System τ} {r : Int × MessageQueueT} {wake : Option τ}
    {ret : Option Returned} (h : s.afterPut r wake = some (s', ret)) : ret = some ⟨r.1, none⟩ := by
  unfold System.afterPut at h
  dsimp only at h
  split at h
  · obtain ⟨_, -, he⟩ := Option.map_eq_some_iff.mp h
    cases he
    rfl
  · split at h
    · cases h
      rfl
    · cases h

theorem step_gave {s s' : System τ} {a : Action τ} {r : Option Returned}
    (h : s.step a = some (s', r)) : a.Gave s r := by
  unfold System.step at h
  split at h
  · cases h
  cases a with
  | putMessage t m msg wake => exact afterPut_gave (Option.ite_none_right_eq_some.mp h).2
  | putMessageWithData t m msg wake => exact afterPut_gave (Option.ite_none_right_eq_some.mp h).2
  | getMessage t =>
    cases (Option.ite_none_right_eq_some.mp h).2
    exact rfl
  | getMessageCount t =>
    cases (Option.ite_none_right_eq_some.mp h).2
    exact rfl
  | expire t err =>
    dsimp only at h
    split at h
    · cases (Option.ite_none_right_eq_some.mp h).2
      exact rfl
    · cases h
  | spurious t =>
    dsimp only at h
    split at h
    · cases h
      exact rfl
    · cases h
  | call t c => trivial
  | resume t => trivial

/-- a system that stores `msgs` goes to one that stores others; the messages sent go in, those
received come out -/
def Passes (msgs : List Msg) (sent : List Msg) (received : List (Option Msg)) (s' : System τ) :
    Prop :=
  ∃ rest, Stores s'.q rest ∧ (msgs ++ sent).map some = received ++ rest.map some

theorem passes_nothing {s s' : System τ} {msgs : List Msg} (h : Stores s.q msgs)
    (hidle : s'.q.mIdleMessageList = s.q.mIdleMessageList)
    (hready : s'.q.mReadyMessageList = s.q.mReadyMessageList) (hnode : s'.q.node = s.q.node)
    (hheap : s'.q.heap = s.q.heap) (hbrk : s'.q.brk = s.q.brk) :
    Passes msgs [] [] s' :=
  ⟨msgs, h.congr hidle hready hnode hheap hbrk, by rw [List.append_nil, List.nil_append]⟩

theorem passes_put {s s' : System τ} {msgs : List Msg} (h : Stores s.q msgs) {m : Mallocs}
    {msg : MsgIn} (hw : msg.Wf) {wake : Option τ} {r : Option Returned}
    (hs : s.afterPut (putMessageWithData m s.q msg) wake = some (s', r)) :
    Passes msgs (if (putMessageWithData m s.q msg).1 = 0 then [msg.message] else []) [] s' := by
  obtain ⟨hq, -⟩ := afterPut_cases hs
  rcases stores_put h m hw with ⟨h0, hstores⟩ | ⟨h0, hstores⟩
  · rw [if_pos h0]
    exact ⟨_, hq ▸ hstores, rfl⟩
  · rw [if_neg h0]
    exact ⟨_, hq ▸ hstores, by rw [List.append_nil, List.nil_append]⟩

theorem passes_deliver {s : System τ} {msgs : List Msg} (h : Stores s.q msgs)
    (hne : s.q.mReadyMessageList ≠ []) (t : τ) (ret : Int) :
    Passes msgs [] (handed (s.deliver t ret).1.q.heap (s.deliver t ret).2) (s.deliver t ret).1 := by
  unfold System.deliver
  split
  · next hl => exact absurd hl hne
  · next n ready hl =>
    obtain ⟨m, rest, rfl, hread, hrest⟩ := stores_take h hl
    refine ⟨rest, hrest.congr rfl rfl rfl rfl rfl, ?_⟩
    show _ = [(s.q.node n).read s.q.heap] ++ rest.map some
    rw [hread, List.append_nil, List.map_cons, List.singleton_append]

theorem passes_getMessage {s s' : System τ} {msgs : List Msg} (h : Stores s.q msgs)
    (hs' : s' = { s with q := (Pluto.getMessage s.q).2.2 }) :
    Passes msgs [] (handed s'.q.heap (some ⟨(Pluto.getMessage s.q).1, (Pluto.getMessage s.q).2.1⟩))
        s' := by
  subst hs'
  unfold Pluto.getMessage
  split
  · exact passes_nothing h rfl rfl rfl rfl rfl
  · next n ready hl =>
    obtain ⟨m, rest, rfl, hread, hrest⟩ := stores_take h hl
    refine ⟨rest, hrest, ?_⟩
    show _ = [(s.q.node n).read s.q.heap] ++ rest.map some
    rw [hread, List.append_nil, List.map_cons, List.singleton_append]

theorem passes_enter {s : System τ} {msgs : List Msg} (h : Stores s.q msgs) (t : τ) (c : WaitCall) :
    Passes msgs [] (handed (s.enter t c).1.q.heap (s.enter t c).2) (s.enter t c).1 := by
  have hflag : Stores (s.setFlag true).q msgs := h.congr rfl rfl rfl rfl rfl
  unfold System.enter
  dsimp only
  split
  · exact passes_nothing h rfl rfl rfl rfl rfl
  · cases c with
    | waitMessageQueueNotEmpty timeout =>
      dsimp only
      split
      · exact passes_deliver hflag ‹_› t 0
      · exact passes_nothing h rfl rfl rfl rfl rfl
    | dryWaitMessageQueue timeout => exact passes_nothing h rfl rfl rfl rfl rfl

theorem passes_continue {s : System τ} {msgs : List Msg} (h : Stores s.q msgs) (t : τ)
    (c : WaitCall) (ret : Int) (hhead : (s.continue t c ret).1.tookHead = false) :
    Passes msgs [] (handed (s.continue t c ret).1.q.heap (s.continue t c ret).2)
      (s.continue t c ret).1 := by
  unfold System.continue at hhead ⊢
  cases c with
  | waitMessageQueueNotEmpty timeout =>
    dsimp only at hhead ⊢
    by_cases htimeout : timeout ≤ 0
    · rw [if_pos htimeout]
      split
      · exact passes_nothing h rfl rfl rfl rfl rfl
      · next hne => exact passes_deliver h hne t ret
    · rw [if_neg htimeout] at hhead ⊢
      by_cases hret : ret = 0
      · rw [if_pos hret] at hhead ⊢
        refine passes_deliver h (fun hempty => ?_) t ret
        rw [deliver_tookHead, hempty, List.isEmpty_nil, Bool.or_true] at hhead
        cases hhead
      · rw [if_neg hret]
        exact passes_nothing h rfl rfl rfl rfl rfl
  | dryWaitMessageQueue timeout =>
    dsimp only
    split
    · exact passes_nothing h rfl rfl rfl rfl rfl
    · exact passes_nothing h rfl rfl rfl rfl rfl

/-- a wait that takes the list head: it hands out what stands around the head, and nothing is
ready -/
structure TookHead (s s' : System τ) (r : Option Returned) : Prop where
  handed_out : r = some ⟨0, some (s.headEntry s.q)⟩
  before : s.q.mReadyMessageList = []
  after : s'.q.mReadyMessageList = []

theorem deliver_takes {s : System τ} {t : τ} (hempty : s.q.mReadyMessageList = []) :
    TookHead s (s.deliver t 0).1 (s.deliver t 0).2 := by
  unfold System.deliver
  rw [hempty]
  exact ⟨rfl, hempty, hempty⟩

/-- only the end of a timed wait takes it -/
theorem continue_takes {s : System τ} {t : τ} {c : WaitCall} {ret : Int}
    (hstart : s.tookHead = false) (hhead : (s.continue t c ret).1.tookHead = true) :
    TookHead s (s.continue t c ret).1 (s.continue t c ret).2 := by
  have hkept : ¬ s.tookHead = true := Bool.not_eq_true _ ▸ hstart
  unfold System.continue at hhead ⊢
  cases c with
  | waitMessageQueueNotEmpty timeout =>
    dsimp only at hhead ⊢
    by_cases htimeout : timeout ≤ 0
    · rw [if_pos htimeout] at hhead
      split at hhead
      · exact absurd hhead hkept
      · next hne =>
        rw [deliver_tookHead, List.isEmpty_eq_false_iff.mpr hne, Bool.or_false] at hhead
        exact absurd hhead hkept
    · rw [if_neg htimeout] at hhead ⊢
      by_cases hret : ret = 0
      · rw [if_pos hret, deliver_tookHead, hstart, Bool.false_or] at hhead
        rw [if_pos hret, hret]
        exact deliver_takes (List.isEmpty_iff.mp hhead)
      · rw [if_neg hret] at hhead
        exact absurd hhead hkept
  | dryWaitMessageQueue timeout =>
    dsimp only at hhead
    split at hhead <;> exact absurd hhead hkept

theorem enter_keeps (s : System τ) (t : τ) (c : WaitCall) :
    (s.enter t c).1.tookHead = s.tookHead := by
  unfold System.enter
  dsimp only
  split
  · rfl
  · next hne =>
    cases c with
    | waitMessageQueueNotEmpty timeout =>
      dsimp only
      split
      · rw [deliver_tookHead, List.isEmpty_eq_false_iff.mpr hne, Bool.or_false]
        rfl
      · rfl
    | dryWaitMessageQueue timeout => rfl

/-- nothing is sent by what puts nothing -/
theorem sent_nil {s s' : System τ} {a : Action τ} {r : Option Returned} (h : a.message = []) :
    Event.sent ⟨s, a, s', r⟩ = [] := by
  unfold Event.sent
  rw [h, ite_self]

theorem passes_step {s s' : System τ} {a : Action τ} {r : Option Returned} {msgs : List Msg}
    (h : Stores s.q msgs) (ha : a.Wf) (hs : s.step a = some (s', r)) (hhead : s'.tookHead = false) :
    Passes msgs (Event.sent ⟨s, a, s', r⟩) (Event.received ⟨s, a, s', r⟩) s' := by
  obtain ⟨-, hdid⟩ := step_did hs
  have hgave := step_gave hs
  cases a with
  | putMessage t m msg wake =>
    obtain rfl := hgave
    have hput := passes_put h msg.withoutData_wf hdid
    unfold Event.sent
    simp only [Option.map_some, Option.some_inj]
    exact hput
  | putMessageWithData t m msg wake =>
    obtain rfl := hgave
    have hput := passes_put h ha hdid
    unfold Event.sent
    simp only [Option.map_some, Option.some_inj]
    exact hput
  | getMessage t =>
    obtain rfl := hgave
    rw [sent_nil rfl]
    exact passes_getMessage h hdid.2
  | getMessageCount t =>
    obtain rfl := hgave
    obtain rfl : s' = s := hdid
    rw [sent_nil rfl]
    exact passes_nothing h rfl rfl rfl rfl rfl
  | call t c =>
    have henter := passes_enter h t c
    rw [hdid.2] at henter
    rw [sent_nil rfl]
    exact henter
  | expire t err =>
    obtain rfl := hgave
    obtain ⟨c, -, -, rfl⟩ := hdid
    rw [sent_nil rfl]
    exact passes_nothing h rfl rfl rfl rfl rfl
  | spurious t =>
    obtain rfl := hgave
    obtain ⟨c, -, rfl⟩ := hdid
    rw [sent_nil rfl]
    exact passes_nothing h rfl rfl rfl rfl rfl
  | resume t =>
    obtain ⟨c, ret, -, hcont⟩ := hdid
    have hcontinue := passes_continue h t c ret (by rw [hcont]; exact hhead)
    rw [hcont] at hcontinue
    rw [sent_nil rfl]
    exact hcontinue

/-- the step that takes the list head is the end of a wait -/
theorem step_takes {s s' : System τ} {a : Action τ} {r : Option Returned}
    (hs : s.step a = some (s', r)) (hhead : s'.tookHead = true) :
    a.message = [] ∧ TookHead s s' r := by
  obtain ⟨hstart, hdid⟩ := step_did hs
  have hkept : s'.tookHead = s.tookHead → False := by
    intro hsame
    rw [hsame, hstart] at hhead
    cases hhead
  cases a with
  | putMessage t m msg wake => exact (hkept (afterPut_cases hdid).2.1).elim
  | putMessageWithData t m msg wake => exact (hkept (afterPut_cases hdid).2.1).elim
  | getMessage t => exact (hkept (by rw [hdid.2])).elim
  | getMessageCount t => exact (hkept (congrArg System.tookHead hdid)).elim
  | call t c => exact (hkept (by rw [← enter_keeps s t c, hdid.2])).elim
  | expire t err =>
    obtain ⟨c, -, -, hafter⟩ := hdid
    exact (hkept (by rw [hafter]; rfl)).elim
  | spurious t =>
    obtain ⟨c, -, hafter⟩ := hdid
    exact (hkept (by rw [hafter]; rfl)).elim
  | resume t =>
    obtain ⟨c, ret, -, hcont⟩ := hdid
    have htook : (s.continue t c ret).1.tookHead = true →
        TookHead s (s.continue t c ret).1 (s.continue t c ret).2 := continue_takes hstart
    rw [hcont] at htook
    exact ⟨rfl, htook hhead⟩

theorem stores_start (m : Mallocs) (headEntry : MessageQueueT → MessageT) :
    Stores (System.start m headEntry : System τ).q [] := by
  show Stores (messageCreate m).2 []
  rw [messageCreate_queue]
  exact stores_increase stores_init m

theorem run_stores {allowed : Action τ → Prop} (hwf : ∀ a, allowed a → a.Wf) {es : List (Event τ)}
    {s : System τ} (h : Run allowed es s) (hhead : s.tookHead = false) :
    ∃ msgs, Stores s.q msgs ∧
      (es.flatMap Event.sent).map some = es.flatMap Event.received ++ msgs.map some := by
  induction h with
  | start _ => exact ⟨[], stores_start _ _, rfl⟩
  | next _ ha hs ih =>
    obtain ⟨msgs, hstores, hall⟩ := ih (step_did hs).1
    obtain ⟨rest, hrest, hstep⟩ := passes_step hstores (hwf _ ha) hs hhead
    refine ⟨rest, hrest, ?_⟩
    rw [List.flatMap_append, List.flatMap_append, List.flatMap_singleton, List.flatMap_singleton,
      List.map_append, hall, List.append_assoc, ← List.map_append, hstep, List.append_assoc]

/-- **Messages go through in order, whatever the threads do.**  In every run of any threads,
whatever the allocations do, the messages whose put succeeded are, in the order of the puts and
unchanged, those that the calls handed out, in the order of their returns, and behind them those in
the ready list.  Where the last step is a wait that takes the list head of an empty list, this is so
of the calls in front of it, and what the wait hands out is no message of a put. -/
theorem threads_fifo {allowed : Action τ → Prop} (hwf : ∀ a, allowed a → a.Wf) {es : List (Event τ)}
    {s : System τ} (h : Run allowed es s) :
    (s.tookHead = false →
        (es.flatMap Event.sent).map some = es.flatMap Event.received ++ s.pending) ∧
      (s.tookHead = true → ∃ front last, es = front ++ [last] ∧ s.pending = [] ∧
        (es.flatMap Event.sent).map some = front.flatMap Event.received ∧
        last.returned = some ⟨0, some (last.before.headEntry last.before.q)⟩) := by
  have hfifo : ∀ {es : List (Event τ)} {s : System τ}, Run allowed es s → s.tookHead = false →
      (es.flatMap Event.sent).map some = es.flatMap Event.received ++ s.pending := by
    intro es s h hhead
    obtain ⟨msgs, hstores, hall⟩ := run_stores hwf h hhead
    rw [hall, ← hstores.reads]
    rfl
  refine ⟨hfifo h, fun hhead => ?_⟩
  cases h with
  | start _ => cases hhead
  | next hrun _ hs =>
    obtain ⟨hnone, htook⟩ := step_takes hs hhead
    have hfront := hfifo hrun (step_did hs).1
    rw [System.pending, htook.before, List.map_nil, List.append_nil] at hfront
    refine ⟨_, _, rfl, ?_, ?_, htook.handed_out⟩
    · rw [System.pending, htook.after, List.map_nil]
    · rw [List.flatMap_append, List.flatMap_singleton, sent_nil hnone, List.append_nil, hfront]

/-- a consumer waits, two producers put a message each, the second one without memory for it; a
second consumer gets the message of the first one -/
def crossing : List (Action Nat) :=
  [.call 1 (.waitMessageQueueNotEmpty 0),
    .putMessageWithData 0 .allOk ⟨1, 10, 0, 0, some [7, 8], 2⟩ (some 1),
    .putMessageWithData 2 ⟨true, true, false⟩ ⟨2, 20, 0, 0, some [9], 1⟩ none, .getMessage 3,
    .putMessage 0 .allOk ⟨3, 30, 0, 0, some [9], 1⟩ none, .resume 1]

theorem threads_fifo_crossing :
    ∃ es s, (System.start Mallocs.allOk fun _ => .zero).events crossing = some (es, s) ∧
      (es.flatMap Event.sent).map some = es.flatMap Event.received ++ s.pending ∧
      es.flatMap Event.received = [some ⟨1, 10, 0, 0, [7, 8]⟩, some ⟨3, 30, 0, 0, []⟩] := by
  have hstart : Run Action.Wf [] (System.start Mallocs.allOk fun _ => .zero : System Nat) :=
    .start rfl
  have hwf : ∀ a ∈ crossing, a.Wf := by
    simp only [crossing, List.forall_mem_cons, List.not_mem_nil, false_implies, implies_true,
      and_true]
    have hfirst : MsgIn.Wf ⟨1, 10, 0, 0, some [7, 8], 2⟩ := by decide
    have hsecond : MsgIn.Wf ⟨2, 20, 0, 0, some [9], 1⟩ := by decide
    exact ⟨trivial, hfirst, hsecond, trivial, trivial, trivial⟩
  exact ⟨_, _, rfl, (threads_fifo (fun _ h => h) (run_events crossing hstart hwf rfl)).1 rfl, rfl⟩

/-! ## one consumer -/

/-- puts by any thread, everything else by the consumer `c`, which may also wake spuriously -/
def OneConsumer (c : τ) : Action τ → Prop
  | .putMessage _ _ _ _ => True
  | .putMessageWithData _ _ _ _ => True
  | .getMessage t => t = c
  | .getMessageCount _ => True
  | .call t _ => t = c
  | .expire t _ => t = c
  | .spurious t => t = c
  | .resume t => t = c

/-- only the consumer is ever in a blocking call; the flag is set as long as it is, and it sleeps in
front of an empty list -/
structure Attended (c : τ) (s : System τ) : Prop where
  only : ∀ t, s.pc t ≠ .outside → t = c
  flag : s.pc c ≠ .outside → s.q.mWaitingFlag = true
  asleep : ∀ w, s.pc c = .blocked w → s.waiters = [c] ∧ s.q.mReadyMessageList = []
  awake : (∀ w, s.pc c ≠ .blocked w) → s.waiters = []

/-- what the end of a put does: it wakes the thread that its signal chose, or nobody -/
theorem afterPut_wakes {s s' : System τ} {r : Int × MessageQueueT} {wake : Option τ}
    {ret : Option Returned} (h : s.afterPut r wake = some (s', ret)) :
    (∃ t w, s.pc t = .blocked w ∧ t ∈ s.waiters ∧
        s' = { ({ s with q := r.2 } : System τ).goto t (.woken w 0) with
          waiters := s.waiters.erase t }) ∨
      s' = { s with q := r.2 } ∧ (r.1 = 0 → r.2.mWaitingFlag = true → s.waiters = []) := by
  unfold System.afterPut at h
  dsimp only at h
  split at h
  · obtain ⟨s₁, hs₁, he⟩ := Option.map_eq_some_iff.mp h
    cases he
    unfold System.signal at hs₁
    cases wake with
    | none =>
      obtain ⟨hnil, hs₁⟩ := Option.ite_none_right_eq_some.mp hs₁
      cases hs₁
      exact Or.inr ⟨rfl, fun _ _ => hnil⟩
    | some t =>
      dsimp only at hs₁
      split at hs₁
      · next w hw =>
        obtain ⟨hmem, hs₁⟩ := Option.ite_none_right_eq_some.mp hs₁
        cases hs₁
        exact Or.inl ⟨t, w, hw, hmem, rfl⟩
      · cases hs₁
  · next hno =>
    cases (Option.ite_none_right_eq_some.mp h).2
    exact Or.inr ⟨rfl, fun h0 hflag => absurd ⟨h0, hflag⟩ hno⟩

section
variable {c : τ} {s : System τ}

theorem Attended.waiters_nil (h : Attended c s) {p : Pc} (hpc : s.pc c = p)
    (hp : ∀ w, p ≠ .blocked w) :
    s.waiters = [] :=
  h.awake fun w hw => hp w (hpc.symm.trans hw)

theorem Attended.flagged (h : Attended c s) {p : Pc} (hpc : s.pc c = p) (hp : p ≠ .outside) :
    s.q.mWaitingFlag = true :=
  h.flag fun hout => hp (hpc.symm.trans hout)

/-- the consumer leaves its wait or its call -/
theorem attended_goto (honly : ∀ t, s.pc t ≠ .outside → t = c) {p : Pc} (hp : ∀ w, p ≠ .blocked w)
    (hflag : p ≠ .outside → s.q.mWaitingFlag = true) (hwaiters : s.waiters = []) :
    Attended c (s.goto c p) := by
  refine ⟨fun t ht => ?_, fun hout => ?_, fun w hw => ?_, fun _ => hwaiters⟩
  · by_cases e : t = c
    · exact e
    · rw [goto_of_ne s e] at ht
      exact honly t ht
  · rw [goto_self] at hout
    exact hflag hout
  · rw [goto_self] at hw
    exact absurd hw (hp w)

theorem attended_block (honly : ∀ t, s.pc t ≠ .outside → t = c) (hflag : s.q.mWaitingFlag = true)
    (hwaiters : s.waiters = []) (hready : s.q.mReadyMessageList = []) (w : WaitCall) :
    Attended c (s.block c w).1 := by
  refine ⟨fun t ht => ?_, fun _ => hflag, fun _ _ => ⟨?_, hready⟩, fun hawake => ?_⟩
  · by_cases e : t = c
    · exact e
    · exact honly t (by rwa [← goto_of_ne s e (.blocked w)])
  · show s.waiters ++ [c] = [c]
    rw [hwaiters, List.nil_append]
  · exact absurd (goto_self s c (.blocked w)) (hawake w)

theorem attended_deliver (honly : ∀ t, s.pc t ≠ .outside → t = c) (hwaiters : s.waiters = [])
    (ret : Int) :
    Attended c (s.deliver c ret).1 := by
  have hw : (s.deliver c ret).1.waiters = [] := by
    unfold System.deliver
    split <;> exact hwaiters
  have hg := attended_goto (s := s) honly (p := .outside) nofun (fun h => absurd rfl h) hwaiters
  have hpc := deliver_pc s c ret
  refine ⟨fun t ht => hg.only t (hpc ▸ ht), fun hout => ?_, fun w hb => ?_, fun _ => hw⟩
  · rw [hpc, goto_self] at hout
    exact absurd rfl hout
  · rw [hpc, goto_self] at hb
    cases hb

theorem attended_dryReturn (honly : ∀ t, s.pc t ≠ .outside → t = c) (hwaiters : s.waiters = []) :
    Attended c (s.dryReturn c).1 :=
  attended_goto (s := s.setFlag false) honly nofun (fun h => absurd rfl h) hwaiters

theorem attended_put (h : Attended c s) {m : Mallocs} {msg : MsgIn} {wake : Option τ}
    {s' : System τ} {r : Option Returned}
    (hs : s.afterPut (putMessageWithData m s.q msg) wake = some (s', r)) : Attended c s' := by
  have heffect := put_effect m s.q msg
  rcases afterPut_wakes hs with ⟨t, w, hw, hmem, rfl⟩ | ⟨rfl, hnobody⟩
  · obtain rfl : t = c := h.only t (by rw [hw]; exact nofun)
    have hwaiters : s.waiters.erase t = [] := by
      rw [(h.asleep w hw).1]
      exact List.erase_cons_head t []
    have hflag : (putMessageWithData m s.q msg).2.mWaitingFlag = true :=
      heffect.flag.trans (h.flagged hw nofun)
    exact attended_goto
      (s := { s with q := (putMessageWithData m s.q msg).2, waiters := s.waiters.erase t }) h.only
        nofun
      (fun _ => hflag) hwaiters
  · refine ⟨h.only, fun hout => heffect.flag.trans (h.flag hout), fun w hw => ?_, h.awake⟩
    obtain ⟨hwaiters, hready⟩ := h.asleep w hw
    have hflag : (putMessageWithData m s.q msg).2.mWaitingFlag = true :=
      heffect.flag.trans (h.flagged hw nofun)
    -- a put that succeeds would have woken the consumer
    rcases heffect.ready with ⟨h0, -⟩ | ⟨-, hsame, -⟩
    · rw [hnobody h0 hflag] at hwaiters
      cases hwaiters
    · exact ⟨hwaiters, hsame.trans hready⟩

theorem attended_enter (h : Attended c s) (hpc : s.pc c = .outside) (w : WaitCall) :
    Attended c (s.enter c w).1 := by
  have hwaiters : s.waiters = [] := h.waiters_nil hpc nofun
  unfold System.enter
  dsimp only
  split
  · next hready => exact attended_block (s := s.setFlag true) h.only rfl hwaiters hready w
  · cases w with
    | waitMessageQueueNotEmpty timeout =>
      dsimp only
      split
      · exact attended_deliver (s := s.setFlag true) h.only hwaiters 0
      · refine ⟨h.only, fun _ => rfl, fun w hw => ?_, h.awake⟩
        exact absurd (hpc.symm.trans hw) nofun
    | dryWaitMessageQueue timeout => exact attended_dryReturn (s := s.setFlag true) h.only hwaiters

theorem attended_continue (h : Attended c s) {w : WaitCall} {ret : Int}
    (hpc : s.pc c = .woken w ret) :
    Attended c (s.continue c w ret).1 := by
  have hflag : s.q.mWaitingFlag = true := h.flagged hpc nofun
  have hwaiters : s.waiters = [] := h.waiters_nil hpc nofun
  unfold System.continue
  cases w with
  | waitMessageQueueNotEmpty timeout =>
    dsimp only
    split
    · split
      · next hready => exact attended_block h.only hflag hwaiters hready _
      · exact attended_deliver h.only hwaiters ret
    · split
      · exact attended_deliver h.only hwaiters ret
      · exact attended_goto h.only nofun (fun hne => absurd rfl hne) hwaiters
  | dryWaitMessageQueue timeout =>
    dsimp only
    split
    · next hready => exact attended_block h.only hflag hwaiters hready.2 _
    · exact attended_dryReturn h.only hwaiters

end

/-- the consumer is woken, by the clock or for no reason -/
theorem attended_woken {c : τ} {s : System τ} (h : Attended c s) {w : WaitCall}
    (hpc : s.pc c = .blocked w) (ret : Int) :
    Attended c { s.goto c (.woken w ret) with waiters := s.waiters.erase c } := by
  have hwaiters : s.waiters.erase c = [] := by
    rw [(h.asleep w hpc).1]
    exact List.erase_cons_head c []
  exact attended_goto (s := { s with waiters := s.waiters.erase c }) h.only nofun
    (fun _ => h.flagged hpc nofun) hwaiters

theorem attended_step {c : τ} {s s' : System τ} {a : Action τ} {r : Option Returned}
    (h : Attended c s) (ha : OneConsumer c a) (hs : s.step a = some (s', r)) : Attended c s' := by
  obtain ⟨-, hdid⟩ := step_did hs
  cases a with
  | putMessage t m msg wake => exact attended_put h hdid
  | putMessageWithData t m msg wake => exact attended_put h hdid
  | getMessage t =>
    obtain rfl : t = c := ha
    obtain ⟨hpc, rfl⟩ := hdid
    exact ⟨h.only, fun hout => absurd hpc hout, fun w hw => absurd (hpc.symm.trans hw) nofun,
      h.awake⟩
  | getMessageCount t =>
    obtain rfl : s' = s := hdid
    exact h
  | call t w =>
    obtain rfl : t = c := ha
    have henter := attended_enter h hdid.1 w
    rwa [hdid.2] at henter
  | expire t err =>
    obtain rfl : t = c := ha
    obtain ⟨w, hpc, -, rfl⟩ := hdid
    exact attended_woken h hpc err
  | spurious t =>
    obtain rfl : t = c := ha
    obtain ⟨w, hpc, rfl⟩ := hdid
    exact attended_woken h hpc 0
  | resume t =>
    obtain rfl : t = c := ha
    obtain ⟨w, ret, hpc, hcont⟩ := hdid
    have hcontinue := attended_continue h hpc
    rwa [hcont] at hcontinue

theorem run_attended {c : τ} {es : List (Event τ)} {s : System τ} (h : Run (OneConsumer c) es s) :
    Attended c s := by
  induction h with
  | start _ =>
    exact ⟨fun t ht => absurd rfl ht, fun hout => absurd rfl hout, fun _ hw => absurd hw nofun,
      fun _ => rfl⟩
  | next _ ha hs ih => exact attended_step ih ha hs

/-! ## the consumer gets the message -/

/-- these steps hand out the message and nothing else, and leave the other messages ready -/
def Gets (s : System τ) (as : List (Action τ)) (m : Option Msg) (ready : List Nat) : Prop :=
  ∃ es s', s.events as = some (es, s') ∧ es.flatMap Event.received = [m] ∧
    s'.q.mReadyMessageList = ready

section
variable {c : τ} {s : System τ} {n : Nat} {ready : List Nat}

/-- the dequeue, with what it hands out -/
theorem deliver_ready_eq (hready : s.q.mReadyMessageList = n :: ready) (t : τ) (ret : Int) :
    ∃ s', s.deliver t ret = (s', some ⟨ret, some (s.q.node n)⟩) ∧ s'.q.mReadyMessageList = ready ∧
      s'.q.heap = s.q.heap := by
  unfold System.deliver
  rw [hready]
  exact ⟨_, rfl, rfl, rfl⟩

/-- one step that delivers -/
theorem gets_step {a : Action τ} {t : τ} {ret : Int} (hready : s.q.mReadyMessageList = n :: ready)
    {s₁ : System τ} (hq : s₁.q.mReadyMessageList = s.q.mReadyMessageList)
    (hnode : s₁.q.node = s.q.node) (hheap : s₁.q.heap = s.q.heap)
    (hstep : s.step a = some (s₁.deliver t ret)) :
    Gets s [a] ((s.q.node n).read s.q.heap) ready := by
  obtain ⟨s', hdeliver, hrest, hheap'⟩ := deliver_ready_eq (hq.trans hready) t ret
  rw [hdeliver] at hstep
  unfold Gets System.events
  rw [hstep]
  refine ⟨_, _, rfl, ?_, hrest⟩
  show [(s₁.q.node n).read s'.q.heap] = _
  rw [hheap', hnode, hheap]

/-- a wait without a timeout, called while a message is ready -/
theorem gets_call (hhead : s.tookHead = false) (hpc : s.pc c = .outside)
    (hready : s.q.mReadyMessageList = n :: ready) :
    Gets s [.call c (.waitMessageQueueNotEmpty 0)] ((s.q.node n).read s.q.heap) ready := by
  have hne : ¬ (s.setFlag true).q.mReadyMessageList = [] := by
    show ¬ s.q.mReadyMessageList = []
    rw [hready]
    exact List.cons_ne_nil n ready
  have hstep : s.step (.call c (.waitMessageQueueNotEmpty 0))
      = some ((s.setFlag true).deliver c 0) := by
    unfold System.step System.enter
    rw [hhead, if_neg Bool.false_ne_true]
    dsimp only
    rw [if_pos hpc, if_neg hne, if_pos le_rfl]
  refine gets_step hready ?_ ?_ ?_ hstep <;> rfl

/-- a call that returns nothing, and then a wait -/
theorem gets_then_call {a : Action τ} {s₁ : System τ} {ret : Int}
    (hready : s.q.mReadyMessageList = n :: ready) (hstep : s.step a = some (s₁, some ⟨ret, none⟩))
    (hq : s₁.q.mReadyMessageList = s.q.mReadyMessageList) (hnode : s₁.q.node = s.q.node)
    (hheap : s₁.q.heap = s.q.heap) (hhead : s₁.tookHead = false) (hpc : s₁.pc c = .outside) :
    Gets s [a, .call c (.waitMessageQueueNotEmpty 0)] ((s.q.node n).read s.q.heap) ready := by
  obtain ⟨es, s', hevents, hgot, hrest⟩ := gets_call hhead hpc (hq.trans hready)
  have hall : s.events [a, .call c (.waitMessageQueueNotEmpty 0)]
      = some (⟨s, a, s₁, some ⟨ret, none⟩⟩ :: es, s') := by
    rw [System.events, hstep]
    dsimp only
    rw [hevents]
    rfl
  refine ⟨_, s', hall, ?_, hrest⟩
  rw [List.flatMap_cons, hgot, hnode, hheap]
  rfl

/-- the end of a wait that was woken while a message is ready: it delivers, or it returns and the
next wait delivers -/
theorem gets_resume (hhead : s.tookHead = false) {w : WaitCall} {ret : Int}
    (hpc : s.pc c = .woken w ret) (hready : s.q.mReadyMessageList = n :: ready) :
    Gets s [.resume c] ((s.q.node n).read s.q.heap) ready ∨
      Gets s [.resume c, .call c (.waitMessageQueueNotEmpty 0)]
        ((s.q.node n).read s.q.heap) ready := by
  have hne : s.q.mReadyMessageList ≠ [] := by
    rw [hready]
    exact List.cons_ne_nil n ready
  have hstep : s.step (.resume c) = some (s.continue c w ret) := by
    unfold System.step
    rw [hhead, if_neg Bool.false_ne_true]
    dsimp only
    rw [hpc]
  unfold System.continue at hstep
  cases w with
  | waitMessageQueueNotEmpty timeout =>
    dsimp only at hstep
    by_cases htimeout : timeout ≤ 0
    · rw [if_pos htimeout, if_neg hne] at hstep
      exact Or.inl (gets_step hready rfl rfl rfl hstep)
    · rw [if_neg htimeout] at hstep
      by_cases hret : ret = 0
      · rw [if_pos hret] at hstep
        exact Or.inl (gets_step hready rfl rfl rfl hstep)
      · -- the clock woke it: the call returns the error
        rw [if_neg hret] at hstep
        exact Or.inr (gets_then_call hready hstep rfl rfl rfl hhead (goto_self s c .outside))
  | dryWaitMessageQueue timeout =>
    dsimp only at hstep
    rw [if_neg fun h => hne h.2] at hstep
    exact Or.inr (gets_then_call hready hstep rfl rfl rfl hhead
      (goto_self (s.setFlag false) c .outside))

end

/-- **With one consumer no message is slept on.**  In every run with one consumer, any producers and
any wake-ups: while a message is ready no thread sleeps, and the oldest message is handed out by the
consumer's own next steps, the end of the wait that it is in, a wait without a timeout, or the one
behind the other. -/
theorem consumer_wakes {c : τ} {es : List (Event τ)} {s : System τ} (h : Run (OneConsumer c) es s)
    (hhead : s.tookHead = false) {n : Nat} {ready : List Nat}
    (hready : s.q.mReadyMessageList = n :: ready) :
    (∀ t w, s.pc t ≠ .blocked w) ∧
      ∃ as ∈ [[.call c (.waitMessageQueueNotEmpty 0)], [.resume c],
        [.resume c, .call c (.waitMessageQueueNotEmpty 0)]],
        Gets s as ((s.q.node n).read s.q.heap) ready := by
  have hattended := run_attended h
  have hawake : ∀ w, s.pc c ≠ .blocked w := by
    intro w hw
    rw [(hattended.asleep w hw).2] at hready
    cases hready
  refine ⟨fun t w hw => ?_, ?_⟩
  · obtain rfl : t = c := hattended.only t (by rw [hw]; exact nofun)
    exact hawake w hw
  · cases hpc : s.pc c with
    | outside => exact ⟨_, List.mem_cons_self, gets_call hhead hpc hready⟩
    | blocked w => exact absurd hpc (hawake w)
    | woken w ret =>
      rcases gets_resume hhead hpc hready with hgets | hgets
      · exact ⟨_, List.mem_cons_of_mem _ List.mem_cons_self, hgets⟩
      · exact ⟨_, List.mem_cons_of_mem _ (List.mem_cons_of_mem _ List.mem_cons_self), hgets⟩

/-- the clock ends the consumer's wait, and a message comes before it has the mutex again -/
def lateMessage : List (Action Nat) :=
  [.call 1 (.waitMessageQueueNotEmpty 1000), .expire 1 110,
    .putMessageWithData 0 .allOk ⟨5, 50, 0, 0, some [1, 2], 2⟩ none]

theorem consumer_wakes_late :
    ∃ es s, (System.start Mallocs.allOk fun _ => .zero).events lateMessage = some (es, s) ∧
      s.pc 1 = .woken (.waitMessageQueueNotEmpty 1000) 110 ∧ (∀ t w, s.pc t ≠ .blocked w) ∧
      ∃ as ∈ [[.call 1 (.waitMessageQueueNotEmpty 0)], [.resume 1],
        [.resume 1, .call 1 (.waitMessageQueueNotEmpty 0)]],
        Gets s as (some ⟨5, 50, 0, 0, [1, 2]⟩) [] := by
  have hstart : Run (OneConsumer 1) [] (System.start Mallocs.allOk fun _ => .zero : System Nat) :=
    .start rfl
  have hone : ∀ a ∈ lateMessage, OneConsumer 1 a := by
    simp only [lateMessage, List.forall_mem_cons, List.not_mem_nil, false_implies, implies_true,
      and_true]
    exact ⟨rfl, rfl, trivial⟩
  exact ⟨_, _, rfl, rfl, consumer_wakes (run_events lateMessage hstart hone rfl) rfl rfl⟩

end

end Pluto

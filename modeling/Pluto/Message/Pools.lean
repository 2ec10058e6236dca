import Pluto.Message.Payload

/-!
# Puts whose allocations fail

One put makes at most three allocations: the descriptor and the buffer of a new pool, where it finds
no idle node, and then the payload.  `Served failed q` are the queues between the calls, where
`failed` says that the buffer of a pool could not be allocated in one of the calls so far.

* `PutCall.bufferFails`, `PutCall.payloadFails` which allocation of a put fails, from the queue
  before it;
* `PoolsGrow`      what one put does to the pools: one more, or nothing;
* `served_pools`   the pools of every queue between the calls, and what a put that failed leaves.

A pool stays when the payload behind it cannot be allocated: the next put takes a node from it.
-/

namespace Pluto
open Octets

/-! ## one put -/

/-- the value that the put returns -/
def MessageQueueT.putResult (q : MessageQueueT) : PutCall → Int
  | .putMessage m msg => (Pluto.putMessage m q msg).1
  | .putMessageWithData m msg => (Pluto.putMessageWithData m q msg).1

/-- the put adds a pool: it finds no idle node, and both allocations of the pool succeed -/
def PutCall.grows (p : PutCall) (q : MessageQueueT) : Bool :=
  q.mIdleMessageList.isEmpty && p.mallocs.descriptor && p.mallocs.buffer

/-- the put finds no idle node, and allocates the descriptor of a pool but not its buffer -/
def PutCall.bufferFails (p : PutCall) (q : MessageQueueT) : Bool :=
  q.mIdleMessageList.isEmpty && p.mallocs.descriptor && !p.mallocs.buffer

/-- the put adds a pool and cannot allocate the payload behind it -/
def PutCall.payloadFails (p : PutCall) (q : MessageQueueT) : Bool := p.grows q && !p.copies

/-- one pool of `maxMessageElements` nodes more if `grown`; a buffer that failed is left out of the
count -/
structure PoolsGrow (grown failed : Bool) (q q' : MessageQueueT) : Prop where
  bufs : q'.mMessageBufList = if grown then q.mMessageBufList ++ [⟨q.brk⟩] else q.mMessageBufList
  cnt : failed = false → q'.mMsgPoolCnt = if grown then q.mMsgPoolCnt + 1 else q.mMsgPoolCnt
  nodes : q'.nodes.length = q.nodes.length + if grown then maxMessageElements else 0

/-- the copy into a node changes neither the pools nor the number of nodes -/
theorem PoolsGrow.putFirstIdle {grown failed : Bool} {q q' : MessageQueueT}
    (h : PoolsGrow grown failed q q') (ok : Bool) (msg : MsgIn) :
    PoolsGrow grown failed q (putFirstIdle ok q' msg).2 := by
  have hkeep : (Pluto.putFirstIdle ok q' msg).2.mMessageBufList = q'.mMessageBufList ∧
      (Pluto.putFirstIdle ok q' msg).2.mMsgPoolCnt = q'.mMsgPoolCnt := by
    cases hl : q'.mIdleMessageList with
    | nil =>
      rw [putFirstIdle_nil ok hl]
      exact ⟨rfl, rfl⟩
    | cons n idle =>
      rw [putFirstIdle_eq hl rfl]
      split
      · exact ⟨rfl, rfl⟩
      · exact ⟨rfl, rfl⟩
  refine ⟨?_, ?_, ?_⟩
  · rw [hkeep.1]
    exact h.bufs
  · rw [hkeep.2]
    exact h.cnt
  · rw [(putFirstIdle_perm ok q' msg).length_eq]
    exact h.nodes

theorem poolsGrow_refl (failed : Bool) (q : MessageQueueT) : PoolsGrow false failed q q :=
  ⟨rfl, fun _ => rfl, rfl⟩

/-- a call of `MessageIncreaseIdleMessageList` succeeds only where it adds a pool -/
theorem poolsGrow_increase (m : Mallocs) (q : MessageQueueT) :
    PoolsGrow (m.descriptor && m.buffer) (m.descriptor && !m.buffer) q
      (messageIncreaseIdleMessageList m q).2 ∧
      ((messageIncreaseIdleMessageList m q).1 = 0 ↔ (m.descriptor && m.buffer) = true) := by
  obtain ⟨descriptor, buffer, payload⟩ := m
  cases descriptor with
  | false => exact ⟨poolsGrow_refl _ q, iff_of_false nofun nofun⟩
  | true =>
    cases buffer with
    | false => exact ⟨⟨rfl, nofun, rfl⟩, iff_of_false nofun nofun⟩
    | true =>
      obtain ⟨h0, hq⟩ := increase_allOk ⟨true, true, payload⟩ rfl rfl q
      refine ⟨?_, iff_of_true h0 rfl⟩
      rw [hq]
      refine ⟨rfl, fun _ => rfl, ?_⟩
      refine (addPool_perm q).length_eq.trans ?_
      rw [List.length_append, MessagePool.nodes_length]
      rfl

/-- the first idle node takes the message exactly where its payload can be copied -/
theorem putFirstIdle_result (ok : Bool) {q : MessageQueueT} (hidle : q.mIdleMessageList ≠ [])
    (msg : MsgIn) :
    (putFirstIdle ok q msg).1 = 0 ↔ msg.copies ok = true := by
  cases hl : q.mIdleMessageList with
  | nil => exact absurd hl hidle
  | cons n idle =>
    rw [← (deepCopied ok q.heap (q.node n) msg).ret, putFirstIdle_eq hl rfl]
    split
    · next h => exact iff_of_true rfl h
    · next h => exact iff_of_false nofun h

theorem putResult_eq (q : MessageQueueT) (p : PutCall) :
    q.putResult p = (putMessageWithData p.mallocs q p.msg).1 := by
  cases p with
  | putMessage m msg => rfl
  | putMessageWithData m msg => rfl

/-- **One put and the pools.** -/
theorem put_pools (q : MessageQueueT) (p : PutCall) :
    PoolsGrow (p.grows q) (p.bufferFails q) q (q.put p) := by
  rw [put_eq]
  unfold putMessageWithData PutCall.grows PutCall.bufferFails
  cases hl : q.mIdleMessageList with
  | nil =>
    obtain ⟨hgrow, -⟩ := poolsGrow_increase p.mallocs q
    rw [if_pos rfl]
    dsimp only
    split
    · exact hgrow
    · exact hgrow.putFirstIdle p.mallocs.payload p.msg
  | cons n idle =>
    rw [if_neg (List.cons_ne_nil n idle)]
    exact (poolsGrow_refl false q).putFirstIdle p.mallocs.payload p.msg

/-- a put that failed, and added a pool, could not copy its message -/
theorem put_failed_copies {q : MessageQueueT} {p : PutCall} (hfail : q.putResult p = -1)
    (hgrow : p.grows q = true) :
    p.copies = false := by
  unfold PutCall.grows at hgrow
  cases hl : q.mIdleMessageList with
  | cons n idle =>
    rw [hl] at hgrow
    cases hgrow
  | nil =>
    rw [hl] at hgrow
    have hinc : (messageIncreaseIdleMessageList p.mallocs q).1 = 0 :=
      (poolsGrow_increase p.mallocs q).2.mpr hgrow
    have hpool : (messageIncreaseIdleMessageList p.mallocs q).2 = q.addPool :=
      (increase_allOk p.mallocs (Bool.and_eq_true_iff.mp hgrow).1 (Bool.and_eq_true_iff.mp hgrow).2
        q).2
    rw [putResult_eq, putMessageWithData, if_pos hl] at hfail
    dsimp only at hfail
    rw [if_neg (not_not.mpr hinc), hpool] at hfail
    have hidle : q.addPool.mIdleMessageList ≠ [] := by
      refine List.append_ne_nil_of_right_ne_nil _ ?_
      exact List.ne_nil_of_length_eq_add_one (MessagePool.nodes_length _)
    rw [PutCall.copies_eq, ← Bool.not_eq_true, ← putFirstIdle_result p.mallocs.payload hidle, hfail]
    decide

/-! ## between the calls -/

inductive Served : Bool → MessageQueueT → Prop where
  | created {m : Mallocs} : (messageCreate m).1 = 0 → Served false (messageCreate m).2
  | put {failed : Bool} {q : MessageQueueT} : Served failed q →
    ∀ p, Served (failed || p.bufferFails q) (q.put p)
  | get {failed : Bool} {q : MessageQueueT} : Served failed q → Served failed (getMessage q).2.2

structure PoolsInv (failed : Bool) (q : MessageQueueT) : Prop where
  nodes : q.nodes.length = maxMessageElements * q.mMessageBufList.length
  cnt : failed = false → q.mMsgPoolCnt = q.mMessageBufList.length

theorem poolsInv_grow {failed b grown : Bool} {q q' : MessageQueueT} (h : PoolsInv failed q)
    (hgrow : PoolsGrow grown b q q') : PoolsInv (failed || b) q' := by
  refine ⟨?_, fun hf => ?_⟩
  · rw [hgrow.nodes, hgrow.bufs, h.nodes]
    cases grown with
    | false => rfl
    | true => simp [Nat.mul_add]
  · obtain ⟨hf, hb⟩ := Bool.or_eq_false_iff.mp hf
    rw [hgrow.cnt hb, hgrow.bufs, h.cnt hf]
    cases grown with
    | false => rfl
    | true => simp

theorem poolsInv_init : PoolsInv false MessageQueueT.init := ⟨rfl, fun _ => rfl⟩

theorem poolsInv_get {failed : Bool} {q : MessageQueueT} (h : PoolsInv failed q) :
    PoolsInv failed (getMessage q).2.2 := by
  unfold getMessage
  split
  · exact h
  · next n ready hl =>
    refine ⟨?_, h.cnt⟩
    rw [← show q.nodes.length = maxMessageElements
      * (takeFirstReady q n ready).2.mMessageBufList.length from h.nodes]
    show (q.mIdleMessageList ++ [n] ++ ready).length
      = (q.mIdleMessageList ++ q.mReadyMessageList).length
    rw [hl, List.append_assoc, List.singleton_append]

theorem Served.pools {failed : Bool} {q : MessageQueueT} (h : Served failed q) :
    PoolsInv failed q := by
  induction h with
  | @created m h0 =>
    obtain ⟨hgrow, hret⟩ := poolsGrow_increase m MessageQueueT.init
    have h0' : (messageIncreaseIdleMessageList m MessageQueueT.init).1 = 0 := by
      by_contra hne
      unfold messageCreate at h0
      dsimp only at h0
      rw [if_pos hne] at h0
      cases h0
    -- the buffer was allocated
    obtain ⟨-, hbuffer⟩ := Bool.and_eq_true_iff.mp (hret.mp h0')
    rw [messageCreate_queue]
    rw [hbuffer, Bool.not_true, Bool.and_false] at hgrow
    exact poolsInv_grow poolsInv_init hgrow
  | put _ p ih => exact poolsInv_grow ih (put_pools _ p)
  | get _ ih => exact poolsInv_get ih

/-- puts whose buffers can be allocated -/
theorem Served.puts {failed : Bool} {q : MessageQueueT} (h : Served failed q) (ps : List PutCall)
    (hps : ∀ p ∈ ps, p.mallocs.buffer = true) : Served failed (q.puts ps) := by
  induction ps generalizing q with
  | nil => exact h
  | cons p ps ih =>
    have hb : p.bufferFails q = false := by
      rw [PutCall.bufferFails, hps p List.mem_cons_self, Bool.not_true, Bool.and_false]
    refine ih ?_ fun r hr => hps r (List.mem_cons_of_mem p hr)
    have hput := h.put p
    rwa [hb, Bool.or_false] at hput

/-- **Puts whose allocations fail.**  Between any calls the two lists share out the nodes of the
pools, and the pools are counted as long as every buffer could be allocated.  A put that failed
leaves the ready list and its count alone; the pools too, but for a put that added a pool and then
could not allocate its payload. -/
theorem served_pools {failed : Bool} {q : MessageQueueT} (h : Served failed q) :
    q.mIdleMessageList.length + q.mReadyMessageList.length
      = maxMessageElements * q.mMessageBufList.length ∧
      (failed = false → q.mMsgPoolCnt = q.mMessageBufList.length) ∧
      ∀ p : PutCall, q.putResult p = -1 →
        (q.put p).mReadyMessageList = q.mReadyMessageList ∧ (q.put p).mMsgCnt = q.mMsgCnt ∧
        (q.put p).mMessageBufList
          = (if p.payloadFails q then q.mMessageBufList ++ [⟨q.brk⟩] else q.mMessageBufList) ∧
        (p.bufferFails q = false →
          (q.put p).mMsgPoolCnt = if p.payloadFails q then
            q.mMsgPoolCnt + 1 else q.mMsgPoolCnt) := by
  obtain ⟨hnodes, hcnt⟩ := h.pools
  rw [MessageQueueT.nodes, List.length_append] at hnodes
  refine ⟨hnodes, hcnt, fun p hfail => ?_⟩
  obtain ⟨hbufs, hpool, -⟩ := put_pools q p
  have hgrows : p.payloadFails q = p.grows q := by
    unfold PutCall.payloadFails
    cases hg : p.grows q with
    | false => rfl
    | true =>
      rw [put_failed_copies hfail hg]
      rfl
  rw [hgrows]
  have heffect := (put_effect p.mallocs q p.msg).ready
  rw [← putResult_eq, ← put_eq, hfail] at heffect
  rcases heffect with ⟨h0, -⟩ | ⟨-, hready, hmsg⟩
  · cases h0
  · exact ⟨hready, hmsg, hbufs, hpool⟩

/-- a queue whose sixteen nodes are all ready -/
def fullQueue : MessageQueueT := createdQueue.puts (List.replicate 16 hello)

/-- the allocation of the payload fails -/
def noPayload : PutCall := .putMessageWithData ⟨true, true, false⟩ ⟨7, 0, 0, 0, some [104, 105], 2⟩

theorem fullQueue_served : Served false fullQueue :=
  .puts (.created (m := .allOk) rfl) _ fun _ hp => List.eq_of_mem_replicate hp ▸ rfl

theorem served_pools_full :
    fullQueue.mIdleMessageList.length + fullQueue.mReadyMessageList.length = 16 ∧
      fullQueue.mMsgPoolCnt = 1 ∧
      (fullQueue.put noPayload).mReadyMessageList = fullQueue.mReadyMessageList := by
  obtain ⟨hnodes, hcnt, hput⟩ := served_pools fullQueue_served
  have hbufs : fullQueue.mMessageBufList.length = 1 := by decide
  rw [hbufs] at hnodes hcnt
  exact ⟨hnodes, hcnt rfl, (hput noPayload (by decide)).1⟩

/-- the put that fails has added a pool to the list and to the count -/
theorem pool_added :
    Served false fullQueue ∧ fullQueue.putResult noPayload = -1 ∧
      fullQueue.mMessageBufList = [⟨0⟩] ∧ (fullQueue.put noPayload).mMessageBufList = [⟨0⟩, ⟨16⟩] ∧
      fullQueue.mMsgPoolCnt = 1 ∧ (fullQueue.put noPayload).mMsgPoolCnt = 2 :=
  ⟨fullQueue_served, by decide⟩

end Pluto

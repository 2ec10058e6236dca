import Pluto.Bytes.Octets

/-!
# `mm_message`: the message queue

`MessageQueueT` is `message_queue_t` with the memory it owns: the message nodes (`node`, by
address), the payload blocks (`heap`), and `brk`, the first address no pool has used.  The three
intrusive lists are lists of node addresses, of pools in the case of `mMessageBufList`.

* `messageDeepCopyMessage`, `messageIncreaseIdleMessageList`, `messageCreate`, `putMessageWithData`,
  `putMessage`, `getMessage`, `getMessageCount`, `messageDestroy`   the functions of the source,
  each the part between locking and unlocking the mutex;
* `Mallocs`   which of the allocations that one call makes succeed.
-/

namespace Pluto
open Octets

/-- `message_t` without its list links; `mpData` is the address of a payload block -/
structure MessageT where
  id : Int
  cmd : Int
  para0 : Int
  para1 : Int
  mpData : Option Nat
  mDataSize : Int
deriving DecidableEq, Repr

/-- a `message_t` of the caller: `mpData` points to these bytes of the caller -/
structure MsgIn where
  id : Int
  cmd : Int
  para0 : Int
  para1 : Int
  mpData : Option Bytes
  mDataSize : Int
deriving DecidableEq, Repr

/-- the payload blocks: `block a` are the bytes of the live block at `a`, `next` is the address
of the next allocation, `freed` the addresses passed to `free`, the last one first -/
structure PayloadHeap where
  block : Nat → Option Bytes
  next : Nat
  freed : List Nat

def PayloadHeap.free (h : PayloadHeap) (a : Nat) : PayloadHeap :=
  { h with block := Function.update h.block a none, freed := a :: h.freed }

/-- `malloc` and the `memcpy` into the new block -/
def PayloadHeap.alloc (h : PayloadHeap) (b : Bytes) : PayloadHeap :=
  { h with block := Function.update h.block h.next (some b), next := h.next + 1 }

/-- `MAX_MESSAGE_ELEMENTS` -/
def maxMessageElements : Nat := 16

/-- `MessagePool`: the address of its first node -/
structure MessagePool where
  mpBuffer : Nat
deriving DecidableEq, Repr

def MessagePool.nodes (p : MessagePool) : List Nat :=
  (List.range maxMessageElements).map (p.mpBuffer + ·)

structure MessageQueueT where
  mIdleMessageList : List Nat
  mReadyMessageList : List Nat
  mMessageBufList : List MessagePool
  mMsgCnt : Int
  mMsgPoolCnt : Int
  mWaitingFlag : Bool
  node : Nat → MessageT
  heap : PayloadHeap
  brk : Nat

/-- the results of the allocations of one call: the pool descriptor, the pool buffer, the payload -/
structure Mallocs where
  descriptor : Bool
  buffer : Bool
  payload : Bool
deriving DecidableEq, Repr

def Mallocs.allOk : Mallocs := ⟨true, true, true⟩

/-- what `memset` leaves in a node -/
def MessageT.zero : MessageT := ⟨0, 0, 0, 0, none, 0⟩

/-! ## the functions -/

def messageDeepCopyMessage (ok : Bool) (heap : PayloadHeap) (dst : MessageT) (src : MsgIn) :
    Int × MessageT × PayloadHeap :=
  let dst := { dst with id := src.id, cmd := src.cmd, para0 := src.para0, para1 := src.para1 }
  let (dst, heap) : MessageT × PayloadHeap :=
    match dst.mpData with
    | some a => if dst.mDataSize ≠ 0 then ({ dst with mpData := none, mDataSize := 0 }, heap.free a)
        else (dst, heap)
    | none => (dst, heap)
  match src.mpData with
  | some b =>
    if src.mDataSize ≥ 0 then
      if ok then
        (0, { dst with mpData := some heap.next, mDataSize := src.mDataSize },
          heap.alloc (b.take src.mDataSize.toNat))
      else (-1, { dst with mpData := none }, heap)
    else (0, dst, heap)
  | none => (0, dst, heap)

def messageIncreaseIdleMessageList (m : Mallocs) (q : MessageQueueT) : Int × MessageQueueT :=
  if m.descriptor = false then (-1, q)
  else
    let q := { q with mMsgPoolCnt := q.mMsgPoolCnt + 1 }
    if m.buffer = false then (-1, q)
    else
      let p : MessagePool := ⟨q.brk⟩
      (0, { q with
        mMessageBufList := q.mMessageBufList ++ [p]
        node := fun n => if n ∈ p.nodes then MessageT.zero else q.node n
        mIdleMessageList := q.mIdleMessageList ++ p.nodes
        brk := q.brk + maxMessageElements })

/-- a queue before `messageIncreaseIdleMessageList` gave it its first nodes -/
def MessageQueueT.init : MessageQueueT where
  mIdleMessageList := []
  mReadyMessageList := []
  mMessageBufList := []
  mMsgCnt := 0
  mMsgPoolCnt := 0
  mWaitingFlag := false
  node := fun _ => MessageT.zero
  heap := ⟨fun _ => none, 0, []⟩
  brk := 0

def messageCreate (m : Mallocs) : Int × MessageQueueT :=
  let r := messageIncreaseIdleMessageList m MessageQueueT.init
  if r.1 ≠ 0 then (-1, r.2) else (0, r.2)

/-- `put_message_with_data` from the first idle node on -/
def putFirstIdle (ok : Bool) (q : MessageQueueT) (msgIn : MsgIn) : Int × MessageQueueT :=
  match q.mIdleMessageList with
  | [] => (-1, q)  -- not reached: `putMessageWithData` has just filled the list
  | n :: idle =>
    let r := messageDeepCopyMessage ok q.heap (q.node n) msgIn
    let q := { q with node := Function.update q.node n r.2.1, heap := r.2.2 }
    if r.1 = 0 then
      (0, { q with
        mIdleMessageList := idle
        mReadyMessageList := q.mReadyMessageList ++ [n]
        mMsgCnt := q.mMsgCnt + 1 })
    else (-1, q)

def putMessageWithData (m : Mallocs) (q : MessageQueueT) (msgIn : MsgIn) : Int × MessageQueueT :=
  if q.mIdleMessageList = [] then
    let r := messageIncreaseIdleMessageList m q
    if r.1 ≠ 0 then (-1, r.2) else putFirstIdle m.payload r.2 msgIn
  else putFirstIdle m.payload q msgIn

/-- the message `put_message` builds on its stack: no payload, whatever the caller's message has -/
def MsgIn.withoutData (msg : MsgIn) : MsgIn := { msg with mpData := none, mDataSize := 0 }

def putMessage (m : Mallocs) (q : MessageQueueT) (msgIn : MsgIn) : Int × MessageQueueT :=
  putMessageWithData m q msgIn.withoutData

/-- the first ready node is copied out and moved to the idle list -/
def takeFirstReady (q : MessageQueueT) (n : Nat) (ready : List Nat) : MessageT × MessageQueueT :=
  (q.node n, { q with
    mIdleMessageList := q.mIdleMessageList ++ [n]
    mReadyMessageList := ready
    mMsgCnt := q.mMsgCnt - 1 })

/-- `msg_out` is not written when the queue is empty -/
def getMessage (q : MessageQueueT) : Int × Option MessageT × MessageQueueT :=
  match q.mReadyMessageList with
  | [] => (-1, none, q)
  | n :: ready =>
    let r := takeFirstReady q n ready
    (0, some r.1, r.2)

def getMessageCount (q : MessageQueueT) : Int := q.mMsgCnt

/-- `list_move_tail` of the first ready node -/
def moveFirstReady (q : MessageQueueT) (n : Nat) : MessageQueueT :=
  { q with
    mIdleMessageList := q.mIdleMessageList ++ [n]
    mReadyMessageList := q.mReadyMessageList.tail
    mMsgCnt := q.mMsgCnt - 1 }

/-- `message_destroy` at one idle node -/
def freePayload (q : MessageQueueT) (n : Nat) : MessageQueueT :=
  match (q.node n).mpData with
  | some a =>
    if (q.node n).mDataSize ≠ 0 then
      { q with
        node := Function.update q.node n { q.node n with mpData := none, mDataSize := 0 }
        heap := q.heap.free a }
    else q
  | none => q

def messageDestroy (q : MessageQueueT) : MessageQueueT :=
  let q := q.mReadyMessageList.foldl moveFirstReady q
  -- from the last idle node to the first one
  let q := q.mIdleMessageList.reverse.foldl freePayload q
  { q with mMessageBufList := [], mIdleMessageList := [], mReadyMessageList := [] }

theorem messageCreate_queue (m : Mallocs) :
    (messageCreate m).2 = (messageIncreaseIdleMessageList m MessageQueueT.init).2 := by
  unfold messageCreate
  dsimp only
  split
  · rfl
  · rfl

theorem putFirstIdle_nil (ok : Bool) {q : MessageQueueT} (hl : q.mIdleMessageList = [])
    (msg : MsgIn) :
    putFirstIdle ok q msg = (-1, q) := by
  unfold putFirstIdle
  rw [hl]

/-- with `n` the first idle node and `r` the copy into it -/
theorem putFirstIdle_eq {ok : Bool} {q : MessageQueueT} {n : Nat} {idle : List Nat} {msg : MsgIn}
    {r : Int × MessageT × PayloadHeap} (hl : q.mIdleMessageList = n :: idle)
    (hr : messageDeepCopyMessage ok q.heap (q.node n) msg = r) :
    putFirstIdle ok q msg = if r.1 = 0 then (0, { q with
        node := Function.update q.node n r.2.1
        heap := r.2.2
        mIdleMessageList := idle
        mReadyMessageList := q.mReadyMessageList ++ [n]
        mMsgCnt := q.mMsgCnt + 1 })
      else (-1, { q with node := Function.update q.node n r.2.1, heap := r.2.2 }) := by
  unfold putFirstIdle
  rw [hl]
  dsimp only
  rw [hr]

/-! ## what a put does to the ready list -/

/-- one message more, or nothing -/
structure PutEffect (q : MessageQueueT) (r : Int × MessageQueueT) : Prop where
  flag : r.2.mWaitingFlag = q.mWaitingFlag
  ready : r.1 = 0 ∧ (∃ n, r.2.mReadyMessageList = q.mReadyMessageList ++ [n]) ∧
    r.2.mMsgCnt = q.mMsgCnt + 1 ∨
    r.1 ≠ 0 ∧ r.2.mReadyMessageList = q.mReadyMessageList ∧ r.2.mMsgCnt = q.mMsgCnt

theorem putFirstIdle_effect (ok : Bool) (q : MessageQueueT) (msg : MsgIn) :
    PutEffect q (putFirstIdle ok q msg) := by
  cases hl : q.mIdleMessageList with
  | nil =>
    rw [putFirstIdle_nil ok hl]
    exact ⟨rfl, Or.inr ⟨nofun, rfl, rfl⟩⟩
  | cons n idle =>
    rw [putFirstIdle_eq hl rfl]
    by_cases h : (messageDeepCopyMessage ok q.heap (q.node n) msg).1 = 0
    · rw [if_pos h]
      exact ⟨rfl, Or.inl ⟨rfl, ⟨n, rfl⟩, rfl⟩⟩
    · rw [if_neg h]
      exact ⟨rfl, Or.inr ⟨nofun, rfl, rfl⟩⟩

/-- a new pool changes nothing but the idle list and the pools -/
theorem increase_effect (m : Mallocs) (q : MessageQueueT) :
    (messageIncreaseIdleMessageList m q).2.mWaitingFlag = q.mWaitingFlag ∧
      (messageIncreaseIdleMessageList m q).2.mReadyMessageList = q.mReadyMessageList ∧
      (messageIncreaseIdleMessageList m q).2.mMsgCnt = q.mMsgCnt := by
  unfold messageIncreaseIdleMessageList
  by_cases h1 : m.descriptor = false
  · rw [if_pos h1]
    exact ⟨rfl, rfl, rfl⟩
  · rw [if_neg h1]
    dsimp only
    by_cases h2 : m.buffer = false
    · rw [if_pos h2]
      exact ⟨rfl, rfl, rfl⟩
    · rw [if_neg h2]
      exact ⟨rfl, rfl, rfl⟩

theorem put_effect (m : Mallocs) (q : MessageQueueT) (msg : MsgIn) :
    PutEffect q (putMessageWithData m q msg) := by
  unfold putMessageWithData
  by_cases hi : q.mIdleMessageList = []
  · rw [if_pos hi]
    dsimp only
    obtain ⟨hflag, hready, hcnt⟩ := increase_effect m q
    by_cases h : (messageIncreaseIdleMessageList m q).1 = 0
    · rw [if_neg (not_not.mpr h)]
      obtain ⟨hf, hr⟩ := putFirstIdle_effect m.payload (messageIncreaseIdleMessageList m q).2 msg
      rw [hready, hcnt] at hr
      exact ⟨hf.trans hflag, hr⟩
    · rw [if_pos h]
      exact ⟨hflag, Or.inr ⟨nofun, hready, hcnt⟩⟩
  · rw [if_neg hi]
    exact putFirstIdle_effect m.payload q msg

theorem PutEffect.ready_ne_nil {q : MessageQueueT} {r : Int × MessageQueueT} (h : PutEffect q r)
    (hq : q.mReadyMessageList ≠ []) : r.2.mReadyMessageList ≠ [] := by
  obtain ⟨-, ⟨n, hn⟩, -⟩ | ⟨-, hr, -⟩ := h.ready
  · rw [hn]
    exact List.append_ne_nil_of_left_ne_nil hq _
  · rwa [hr]

/-- behind a put that succeeded there is a message -/
theorem PutEffect.ready_of_put {q : MessageQueueT} {r : Int × MessageQueueT} (h : PutEffect q r)
    (h0 : r.1 = 0) :
    r.2.mReadyMessageList ≠ [] := by
  obtain ⟨-, ⟨n, hn⟩, -⟩ | ⟨h1, -⟩ := h.ready
  · rw [hn]
    exact List.append_ne_nil_of_right_ne_nil _ (List.cons_ne_nil n [])
  · exact absurd h0 h1

end Pluto

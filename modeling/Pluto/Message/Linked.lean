import Pluto.Links.MmList
import Pluto.Message.Queue

/-!
# The message queue on its links

The lists of `MessageQueueT` are lists of nodes.  Those of `LinkedQueue` are what the code has,
three heads and the links of all nodes; a message and a pool are named by the address of their
`mList`.

* `messageCreate`, `messageIncreaseIdleMessageList`, `putMessageWithData`, `getMessage`,
  `messageDestroy` the functions of the source;
* `QueueLists`            the three lists in their own terms: what the functions are for;
* `LinkedQueue.Holds`     the links are those of three lists without common nodes;
* `Step`                  the lists before and after, and which neighbours have not changed;
* `linked_lists_refine`   each function makes the step of the lists;
* `destroy_holds`         `message_destroy` ends, and what it frees.
-/

namespace Pluto.Linked
open Links

/-- `message_queue_t` with the memory it owns -/
structure LinkedQueue where
  mIdleMessageList : Addr
  mReadyMessageList : Addr
  mMessageBufList : Addr
  links : Links Addr
  mMsgCnt : Int
  mMsgPoolCnt : Int
  /-- a message without its links -/
  node : Addr → MessageT
  heap : PayloadHeap
  /-- the buffer of a pool, by its first message -/
  mpBuffer : Addr → Option Addr
  /-- the pools and buffers passed to `free`, the last one first -/
  freed : List Addr

/-- what the allocations of one call return: the pool, the buffer by its first message, and whether
there is memory for the payload -/
structure Blocks where
  descriptor : Option Addr
  buffer : Option Addr
  payload : Bool

/-- `sizeof(message_t)` where pointers have 64 bits -/
def sizeofMessage : Nat := 48

/-- the messages of a buffer, as `pMsg++` passes through them -/
def bufferNodes (buf : Addr) : List Addr := List.range' buf maxMessageElements sizeofMessage

/-- `memset` at the links of these nodes -/
def zeroLinks (l : Links Addr) (nodes : List Addr) : Links Addr where
  next := fun a => if a ∈ nodes then 0 else l.next a
  prev := fun a => if a ∈ nodes then 0 else l.prev a

/-! ## the functions -/

def messageIncreaseIdleMessageList (m : Blocks) (q : LinkedQueue) : Int × LinkedQueue :=
  match m.descriptor with
  | none => (-1, q)
  | some pool =>
    let q := { q with mMsgPoolCnt := q.mMsgPoolCnt + 1 }
    match m.buffer with
    | none => (-1, { q with freed := pool :: q.freed })
    | some buf =>
      let nodes := bufferNodes buf
      let q := { q with
        mpBuffer := Function.update q.mpBuffer pool (some buf)
        node := fun a => if a ∈ nodes then MessageT.zero else q.node a
        links := zeroLinks q.links nodes }
      let q := { q with links := listAddTail q.links pool q.mMessageBufList }
      (0, { q with
        links := nodes.foldl (fun l pMsg => listAddTail l pMsg q.mIdleMessageList) q.links })

/-- `message_create` up to its allocations, without the mutex and the condition variable -/
def initQueue (q : LinkedQueue) : LinkedQueue :=
  let l := initListHead q.links q.mIdleMessageList
  let l := initListHead l q.mReadyMessageList
  { q with mMsgCnt := 0, mMsgPoolCnt := 0, links := initListHead l q.mMessageBufList }

def messageCreate (m : Blocks) (q : LinkedQueue) : Int × LinkedQueue :=
  let r := messageIncreaseIdleMessageList m (initQueue q)
  if r.1 ≠ 0 then (-1, r.2) else (0, r.2)

/-- `put_message_with_data` from `list_first_entry` on, which does not ask whether there is one -/
def putFirstIdle (ok : Bool) (q : LinkedQueue) (msgIn : MsgIn) : Int × LinkedQueue :=
  let pMsgEntry := q.links.next q.mIdleMessageList
  let r := messageDeepCopyMessage ok q.heap (q.node pMsgEntry) msgIn
  let q := { q with node := Function.update q.node pMsgEntry r.2.1, heap := r.2.2 }
  if r.1 = 0 then
    (0, { q with
      links := listMoveTail q.links pMsgEntry q.mReadyMessageList
      mMsgCnt := q.mMsgCnt + 1 })
  else (-1, q)

def putMessageWithData (m : Blocks) (q : LinkedQueue) (msgIn : MsgIn) : Int × LinkedQueue :=
  if listEmpty q.links q.mIdleMessageList then
    let r := messageIncreaseIdleMessageList m q
    if r.1 ≠ 0 then (-1, r.2) else putFirstIdle m.payload r.2 msgIn
  else putFirstIdle m.payload q msgIn

def putMessage (m : Blocks) (q : LinkedQueue) (msgIn : MsgIn) : Int × LinkedQueue :=
  putMessageWithData m q msgIn.withoutData

def getMessageCount (q : LinkedQueue) : Int := q.mMsgCnt

/-- `msg_out` is not written when the queue is empty -/
def getMessage (q : LinkedQueue) : Int × Option MessageT × LinkedQueue :=
  if listEmpty q.links q.mReadyMessageList then (-1, none, q)
  else
    let pMsgEntry := q.links.next q.mReadyMessageList
    (0, some (q.node pMsgEntry), { q with
      links := listMoveTail q.links pMsgEntry q.mIdleMessageList
      mMsgCnt := q.mMsgCnt - 1 })

/-- `message_destroy` at one ready node -/
def moveReady (q : LinkedQueue) (pEntry : Addr) : LinkedQueue :=
  { q with
    links := listMoveTail q.links pEntry q.mIdleMessageList
    mMsgCnt := q.mMsgCnt - 1 }

/-- `message_destroy` up to the end of its first iteration -/
def drainReady (fuel : Nat) (q : LinkedQueue) : Option LinkedQueue :=
  if listEmpty q.links q.mReadyMessageList then some q
  else listForEachEntrySafe LinkedQueue.links q.mReadyMessageList moveReady fuel q

/-- `message_destroy` at one idle node -/
def freePayload (q : LinkedQueue) (pEntry : Addr) : LinkedQueue :=
  match (q.node pEntry).mpData with
  | some a =>
    if (q.node pEntry).mDataSize ≠ 0 then
      { q with
        node := Function.update q.node pEntry { q.node pEntry with mpData := none, mDataSize := 0 }
        heap := q.heap.free a }
    else q
  | none => q

/-- `message_destroy` at one pool -/
def freePool (q : LinkedQueue) (pMPEntry : Addr) : LinkedQueue :=
  let q := match q.mpBuffer pMPEntry with
    | some buf =>
      { q with freed := buf :: q.freed, mpBuffer := Function.update q.mpBuffer pMPEntry none }
    | none => q
  { q with links := listDel q.links pMPEntry, freed := pMPEntry :: q.freed }

/-- the three `INIT_LIST_HEAD` of `message_destroy` -/
def initHeads (q : LinkedQueue) : LinkedQueue :=
  let l := initListHead q.links q.mMessageBufList
  let l := initListHead l q.mIdleMessageList
  { q with links := initListHead l q.mReadyMessageList }

/-- every iteration has `fuel` rounds -/
def messageDestroy (fuel : Nat) (q : LinkedQueue) : Option LinkedQueue :=
  (drainReady fuel q).bind fun q =>
  (listForEachEntryReverse LinkedQueue.links q.mIdleMessageList freePayload fuel q).bind fun q =>
  (if listEmpty q.links q.mMessageBufList then some q
    else listForEachEntrySafe LinkedQueue.links q.mMessageBufList freePool fuel q).map initHeads

/-! ## the lists -/

inductive ListName where
  | idle
  | ready
  | pools
deriving DecidableEq, Repr

/-- the lists of a queue, each from its first node to its last -/
@[ext] structure QueueLists where
  idle : List Addr
  ready : List Addr
  pools : List Addr
deriving DecidableEq, Repr

namespace QueueLists

def list (L : QueueLists) : ListName → List Addr
  | .idle => L.idle
  | .ready => L.ready
  | .pools => L.pools

/-- sixteen new nodes at the end of the idle list, and the pool that they are from -/
def grow (L : QueueLists) (m : Blocks) : Int × QueueLists :=
  match m.descriptor, m.buffer with
  | some pool, some buf =>
    (0, { L with idle := L.idle ++ bufferNodes buf, pools := L.pools ++ [pool] })
  | _, _ => (-1, L)

/-- the first idle node to the end of the ready list, if the message could be copied into it -/
def put (L : QueueLists) (copied : Bool) : Int × QueueLists :=
  match L.idle with
  | [] => (-1, L)
  | n :: idle => if copied then (0, { L with idle := idle, ready := L.ready ++ [n] }) else (-1, L)

/-- the first ready node to the end of the idle list -/
def get (L : QueueLists) : Int × QueueLists :=
  match L.ready with
  | [] => (-1, L)
  | n :: ready => (0, { L with idle := L.idle ++ [n], ready := ready })

/-- all ready nodes to the end of the idle list -/
def drain (L : QueueLists) : QueueLists := { L with idle := L.idle ++ L.ready, ready := [] }

end QueueLists

def LinkedQueue.head (q : LinkedQueue) : ListName → Addr
  | .idle => q.mIdleMessageList
  | .ready => q.mReadyMessageList
  | .pools => q.mMessageBufList

/-- the queue has the lists `L`: each is a circle through its head, and no two have a node in
common -/
def LinkedQueue.Holds (q : LinkedQueue) (L : QueueLists) : Prop := Rings q.links q.head L.list

/-- a list with its head -/
def LinkedQueue.ring (q : LinkedQueue) (L : QueueLists) (i : ListName) : List Addr :=
  q.head i :: L.list i

/-- `malloc` returns memory that nobody has, and not the same twice -/
structure Blocks.Fresh (m : Blocks) (q : LinkedQueue) (L : QueueLists) : Prop where
  pool : ∀ p, m.descriptor = some p → ∀ i, p ∉ q.ring L i
  nodes : ∀ b, m.buffer = some b → ∀ a ∈ bufferNodes b, ∀ i, a ∉ q.ring L i
  apart : ∀ p b, m.descriptor = some p → m.buffer = some b → p ∉ bufferNodes b

/-- from the lists `L` to the lists `L'`; a node that is in no list of `changed`, neither before nor
after, keeps its neighbours -/
structure Step (q : LinkedQueue) (L : QueueLists) (q' : LinkedQueue) (L' : QueueLists)
    (changed : List ListName) :
    Prop where
  head : q'.head = q.head
  holds : q'.Holds L'
  frame : ∀ a, (∀ i ∈ changed, a ∉ q.ring L i ∧ a ∉ q.ring L' i) → SameAt q.links q'.links a

/-- when a message can be copied into a node -/
def copies (ok : Bool) (msg : MsgIn) : Bool := ok || msg.mpData.isNone || decide (msg.mDataSize < 0)

/-! ## one step -/

section
variable {q q' q'' : LinkedQueue} {L L' L'' : QueueLists}

theorem LinkedQueue.Holds.empty_iff (h : q.Holds L) (i : ListName) :
    listEmpty q.links (q.head i) = true ↔ L.list i = [] := by
  unfold listEmpty
  rw [beq_iff_eq]
  exact (h.circular i).next_head_eq

theorem LinkedQueue.Holds.first {n : Addr} {ns : List Addr} (h : q.Holds L) {i : ListName}
    (hi : L.list i = n :: ns) :
    q.links.next (q.head i) = n := by
  rw [(h.circular i).next_head, hi, List.headD_cons]

theorem LinkedQueue.Holds.unique (h : q.Holds L) (h' : q.Holds L') : L = L' := by
  have hlist : ∀ i, L.list i = L'.list i := fun i => (h.circular i).unique (h'.circular i)
  exact QueueLists.ext (hlist .idle) (hlist .ready) (hlist .pools)

/-- links that have not changed -/
theorem Step.same (h : q.Holds L) (hhead : q'.head = q.head) (hlinks : q'.links = q.links)
    (changed : List ListName) :
    Step q L q' L changed := by
  refine ⟨hhead, ?_, fun a _ => ?_⟩
  · unfold LinkedQueue.Holds
    rwa [hlinks, hhead]
  · rw [hlinks]
    exact SameAt.refl _ a

/-- two steps, where the first one adds no node to the lists that change -/
theorem Step.trans {changed : List ListName} (h : Step q L q' L' changed)
    (h' : Step q' L' q'' L'' changed)
    (hsub : ∀ i ∈ changed, ∀ a ∈ L'.list i, ∃ j ∈ changed, a ∈ L.list j) :
    Step q L q'' L'' changed := by
  refine ⟨h'.head.trans h.head, h'.holds, fun a ha => ?_⟩
  have hmid : ∀ i ∈ changed, a ∉ q.ring L' i := by
    intro i hi hmem
    rcases List.mem_cons.mp hmem with rfl | hmem
    · exact (ha i hi).1 List.mem_cons_self
    · obtain ⟨j, hj, hmem⟩ := hsub i hi a hmem
      exact (ha j hj).1 (List.mem_cons_of_mem _ hmem)
  have hring : ∀ (K : QueueLists) (i : ListName), q'.ring K i = q.ring K i := fun K i =>
    congrArg (· :: K.list i) (congrFun h.head i)
  refine (h.frame a fun i hi => ⟨(ha i hi).1, hmid i hi⟩).trans (h'.frame a fun i hi => ?_)
  rw [hring, hring]
  exact ⟨hmid i hi, (ha i hi).2⟩

/-- a node goes from the front of one list to the end of another -/
theorem Step.move {i j : ListName} {n : Addr} {ns : List Addr} (h : q.Holds L)
    (hi : L.list i = n :: ns) (hij : j ≠ i) (hhead : q'.head = q.head)
    (hlinks : q'.links = listMoveTail q.links n (q.head j))
    (hL : L'.list = Function.update (Function.update L.list i ns) j (L.list j ++ [n])) :
    Step q L q' L' [i, j] := by
  have hlist : L.list i = [] ++ n :: ns := hi
  refine ⟨hhead, ?_, fun a ha => ?_⟩
  · unfold LinkedQueue.Holds
    rw [hlinks, hhead, hL]
    exact rings_listMoveTail h hlist hij
  · rw [hlinks]
    exact listMoveTail_sameAt h hlist hij (ha i List.mem_cons_self).1 (ha j (by simp)).1

end

/-! ## the functions make the steps -/

theorem bufferNodes_nodup (buf : Addr) : (bufferNodes buf).Nodup :=
  List.nodup_range' sizeofMessage (by decide)

section
variable {q : LinkedQueue} {L : QueueLists}

theorem zeroLinks_sameAt (l : Links Addr) {nodes : List Addr} {a : Addr} (ha : a ∉ nodes) :
    SameAt l (zeroLinks l nodes) a := ⟨if_neg ha, if_neg ha⟩

/-- a pool and its nodes, where all of them are new -/
theorem rings_grow {pool buf : Addr} (h : q.Holds L) (hpool : ∀ i, pool ∉ q.ring L i)
    (hnodes : ∀ a ∈ bufferNodes buf, ∀ i, a ∉ q.ring L i) (hapart : pool ∉ bufferNodes buf)
    {l : Links Addr}
    (hl : l = (bufferNodes buf).foldl (fun l pMsg => listAddTail l pMsg (q.head .idle))
      (listAddTail (zeroLinks q.links (bufferNodes buf)) pool (q.head .pools))) :
    Rings l q.head (QueueLists.list ⟨L.idle ++ bufferNodes buf, L.ready, L.pools ++ [pool]⟩) ∧
      ∀ a, a ∉ q.ring L .idle → a ∉ bufferNodes buf → a ∉ q.ring L .pools → a ≠ pool →
        SameAt q.links l a := by
  have hzero : Rings (zeroLinks q.links (bufferNodes buf)) q.head L.list :=
    Rings.congr h fun i a ha => zeroLinks_sameAt q.links fun hn => hnodes a hn i ha
  have hadd := rings_listAddTail hzero hpool .pools
  have hnew : ∀ a ∈ bufferNodes buf, ∀ i,
      a ∉ q.head i :: Function.update L.list .pools (L.pools ++ [pool]) i :=
    fun a ha i => not_mem_appended (hnodes a ha i) (ne_of_mem_of_not_mem ha hapart) .pools
  obtain ⟨hrings, hsame⟩ := rings_addNodes .idle hadd (bufferNodes_nodup buf) hnew
  rw [← hl] at hrings hsame
  refine ⟨?_, fun a hidle hbuf hpools hne => ?_⟩
  · have hlists : QueueLists.list ⟨L.idle ++ bufferNodes buf, L.ready, L.pools ++ [pool]⟩
        = Function.update (Function.update L.list .pools (L.pools ++ [pool])) .idle
            (L.idle ++ bufferNodes buf) := by
      funext i
      cases i <;> rfl
    rw [hlists]
    exact hrings
  · exact ((zeroLinks_sameAt q.links hbuf).trans (listAddTail_sameAt hzero hpool hpools hne)).trans
      (hsame a hidle hbuf)

theorem increase_step {m : Blocks} (h : q.Holds L) (hm : m.Fresh q L) :
    (messageIncreaseIdleMessageList m q).1 = (L.grow m).1 ∧
      Step q L (messageIncreaseIdleMessageList m q).2 (L.grow m).2 [.idle, .pools] := by
  unfold messageIncreaseIdleMessageList QueueLists.grow
  cases hp : m.descriptor with
  | none => exact ⟨rfl, Step.same h rfl rfl _⟩
  | some pool =>
    cases hb : m.buffer with
    | none =>
      refine ⟨rfl, Step.same h ?_ ?_ _⟩
      · rfl
      · rfl
    | some buf =>
      obtain ⟨hrings, hsame⟩ :=
        rings_grow h (hm.pool pool hp) (hm.nodes buf hb) (hm.apart pool buf hp hb) rfl
      refine ⟨rfl, rfl, hrings, fun a ha => ?_⟩
      obtain ⟨hidle, hidle'⟩ := ha .idle (by simp)
      obtain ⟨hpools, hpools'⟩ := ha .pools (by simp)
      have hbuf : a ∉ bufferNodes buf := fun hmem =>
        hidle' (List.mem_cons_of_mem _ (List.mem_append_right L.idle hmem))
      have hne : a ≠ pool := fun e =>
        hpools' (List.mem_cons_of_mem
          _ (List.mem_append_right L.pools (e ▸ List.mem_singleton_self pool)))
      exact hsame a hidle hbuf hpools hne

/-- what a copy returns depends on the message only -/
theorem deepCopy_ret (ok : Bool) (heap : PayloadHeap) (dst : MessageT) (src : MsgIn) :
    (messageDeepCopyMessage ok heap dst src).1 = if copies ok src then 0 else -1 := by
  unfold messageDeepCopyMessage copies
  dsimp only
  cases src.mpData with
  | none => simp
  | some b =>
    by_cases hsize : src.mDataSize ≥ 0
    · cases ok with
      | true => simp [hsize]
      | false => simp [hsize]
    · have hneg : src.mDataSize < 0 := not_le.mp hsize
      simp [hsize, hneg]

theorem putFirstIdle_step (h : q.Holds L) (hidle : L.idle ≠ []) (ok : Bool) (msg : MsgIn) :
    (putFirstIdle ok q msg).1 = (L.put (copies ok msg)).1 ∧
      Step q L (putFirstIdle ok q msg).2 (L.put (copies ok msg)).2 [.idle, .ready] := by
  obtain ⟨n, idle, hn⟩ := List.exists_cons_of_ne_nil hidle
  have hfirst : q.links.next q.mIdleMessageList = n := h.first (i := .idle) hn
  unfold putFirstIdle QueueLists.put
  dsimp only
  rw [hfirst, hn, deepCopy_ret]
  cases copies ok msg with
  | true => exact ⟨rfl, Step.move h hn (by decide) rfl rfl (by funext i; cases i <;> rfl)⟩
  | false =>
    refine ⟨rfl, Step.same h ?_ ?_ _⟩
    · rfl
    · rfl

theorem put_step {m : Blocks} (h : q.Holds L) (hidle : L.idle ≠ []) (msg : MsgIn) :
    (putMessageWithData m q msg).1 = (L.put (copies m.payload msg)).1 ∧
      Step q L (putMessageWithData m q msg).2 (L.put (copies m.payload msg)).2 [.idle, .ready] := by
  have hempty : ¬ listEmpty q.links q.mIdleMessageList = true :=
    fun e => hidle ((h.empty_iff .idle).mp e)
  unfold putMessageWithData
  rw [if_neg hempty]
  exact putFirstIdle_step h hidle m.payload msg

theorem QueueLists.grow_idle (L : QueueLists) (m : Blocks) :
    (L.grow m).1 = 0 ∧ (L.grow m).2.idle ≠ [] ∨ (L.grow m).1 = -1 ∧ (L.grow m).2 = L := by
  unfold QueueLists.grow
  split
  · exact Or.inl ⟨rfl, List.append_ne_nil_of_right_ne_nil _ (List.cons_ne_nil _ _)⟩
  · exact Or.inr ⟨rfl, rfl⟩

/-- without an idle node the queue grows first -/
theorem put_step_grown {m : Blocks} (h : q.Holds L) (hm : m.Fresh q L) (hidle : L.idle = [])
    (msg : MsgIn) :
    (putMessageWithData m q msg).1 = ((L.grow m).2.put (copies m.payload msg)).1 ∧
      Step (messageIncreaseIdleMessageList m q).2 (L.grow m).2 (putMessageWithData m q msg).2
        ((L.grow m).2.put (copies m.payload msg)).2 [.idle, .ready] := by
  have hempty : listEmpty q.links q.mIdleMessageList = true := (h.empty_iff .idle).mpr hidle
  obtain ⟨hret, hstep⟩ := increase_step h hm
  unfold putMessageWithData
  rw [if_pos hempty]
  dsimp only
  rw [hret]
  rcases L.grow_idle m with ⟨h0, hne⟩ | ⟨h1, hL⟩
  · rw [h0, if_neg (not_not.mpr rfl)]
    exact putFirstIdle_step hstep.holds hne m.payload msg
  · have hput : L.put (copies m.payload msg) = (-1, L) := by
      unfold QueueLists.put
      rw [hidle]
    rw [hL] at hstep
    rw [h1, hL, hput, if_pos (by decide)]
    exact ⟨rfl, Step.same hstep.holds rfl rfl _⟩

theorem get_step (h : q.Holds L) :
    (getMessage q).1 = L.get.1 ∧ (getMessage q).2.1 = L.ready.head?.map q.node ∧
      Step q L (getMessage q).2.2 L.get.2 [.ready, .idle] := by
  unfold getMessage QueueLists.get
  cases hr : L.ready with
  | nil =>
    have hempty : listEmpty q.links q.mReadyMessageList = true := (h.empty_iff .ready).mpr hr
    rw [if_pos hempty]
    exact ⟨rfl, rfl, Step.same h rfl rfl _⟩
  | cons n ready =>
    have hempty : ¬ listEmpty q.links q.mReadyMessageList = true := fun e =>
      List.cons_ne_nil n ready (hr.symm.trans ((h.empty_iff .ready).mp e))
    have hfirst : q.links.next q.mReadyMessageList = n := h.first (i := .ready) hr
    rw [if_neg hempty]
    dsimp only
    rw [hfirst]
    exact ⟨rfl, rfl, Step.move h hr (by decide) rfl rfl (by funext i; cases i <;> rfl)⟩

/-- a part of the ready nodes has gone -/
def Drained (q : LinkedQueue) (L : QueueLists) (s : LinkedQueue) (ready : List Addr) : Prop :=
  ∃ gone, L.ready = gone ++ ready ∧ Step q L s ⟨L.idle ++ gone, ready, L.pools⟩ [.ready, .idle]

theorem moveReady_step {s : LinkedQueue} {n : Addr} {ready : List Addr}
    (h : Drained q L s (n :: ready)) :
    Drained q L (moveReady s n) ready := by
  obtain ⟨gone, hgone, hstep⟩ := h
  refine ⟨gone ++ [n], by rw [hgone, List.append_assoc, List.singleton_append], hstep.trans ?_ ?_⟩
  · refine Step.move hstep.holds (i := .ready) (j := .idle) rfl (by decide) rfl rfl ?_
    rw [← List.append_assoc]
    funext i
    cases i <;> rfl
  · intro i hi a ha
    cases i with
    | idle =>
      rcases List.mem_append.mp ha with ha | ha
      · exact ⟨.idle, by simp, ha⟩
      · exact ⟨.ready, by simp, show a ∈ L.ready from hgone ▸ List.mem_append_left _ ha⟩
    | ready => exact ⟨.ready, by simp, show a ∈ L.ready from hgone ▸ List.mem_append_right _ ha⟩
    | pools => simp at hi

/-- **The first iteration of `message_destroy`** ends, and moves the nodes in order. -/
theorem drain_step (h : q.Holds L) {fuel : Nat} (hfuel : L.ready.length < fuel) :
    drainReady fuel q = some (L.ready.foldl moveReady q) ∧
      Step q L (L.ready.foldl moveReady q) L.drain [.ready, .idle] := by
  have hstart : Drained q L q L.ready := by
    refine ⟨[], rfl, ?_⟩
    rw [List.append_nil]
    exact Step.same h rfl rfl _
  have hcircular : ∀ s ready, Drained q L s ready → Circular s.links q.mReadyMessageList ready := by
    rintro s ready ⟨gone, -, hstep⟩
    have hc := hstep.holds.circular .ready
    rwa [hstep.head] at hc
  obtain ⟨hloop, gone, hgone, hstep⟩ :=
    forEachEntrySafe_foldl hcircular (fun s n ready => moveReady_step) hstart hfuel
  rw [List.append_nil] at hgone
  rw [← hgone] at hstep
  have hempty : listEmpty q.links q.mReadyMessageList = true ↔ L.ready = [] := h.empty_iff .ready
  refine ⟨?_, hstep⟩
  unfold drainReady
  by_cases hready : L.ready = []
  · rw [if_pos (hempty.mpr hready), hready]
    rfl
  · rw [if_neg (hempty.not.mpr hready)]
    exact hloop

end

/-! ## a new queue -/

section
variable {q : LinkedQueue}

/-- the heads of a queue are three different nodes -/
def LinkedQueue.Apart (q : LinkedQueue) : Prop := Function.Injective q.head

theorem holds_nil (hq : q.Apart) (hl : ∀ i, q.links.Linked (q.head i) (q.head i)) :
    q.Holds ⟨[], [], []⟩ := by
  refine ⟨fun i => ?_, fun i j hij a hi hj => ?_⟩
  · cases i <;> exact circular_nil.mpr (hl _)
  · have hai : a = q.head i := by cases i <;> exact List.mem_singleton.mp hi
    have haj : a = q.head j := by cases j <;> exact List.mem_singleton.mp hj
    exact hij (hq (hai.symm.trans haj))

theorem initQueue_holds (hq : q.Apart) : (initQueue q).Holds ⟨[], [], []⟩ := by
  refine holds_nil hq fun i => ?_
  cases i with
  | idle => exact initListHead_keeps (initListHead_keeps (initListHead_linked _ _) _) _
  | ready => exact initListHead_keeps (initListHead_linked _ _) _
  | pools => exact initListHead_linked _ _

theorem messageCreate_eq (m : Blocks) (q : LinkedQueue) :
    (messageCreate m q).2 = (messageIncreaseIdleMessageList m (initQueue q)).2 := by
  unfold messageCreate
  dsimp only
  split
  · rfl
  · rfl

theorem create_holds {m : Blocks} (hq : q.Apart) (hm : m.Fresh q ⟨[], [], []⟩) :
    (messageCreate m q).2.Holds (QueueLists.grow ⟨[], [], []⟩ m).2 := by
  rw [messageCreate_eq]
  exact (increase_step (initQueue_holds hq) ⟨hm.pool, hm.nodes, hm.apart⟩).2.holds

/-- a queue in some memory -/
def blankQueue : LinkedQueue where
  mIdleMessageList := 1000
  mReadyMessageList := 1016
  mMessageBufList := 1032
  links := ⟨fun _ => 0, fun _ => 0⟩
  mMsgCnt := 0
  mMsgPoolCnt := 0
  node := fun _ => MessageT.zero
  heap := ⟨fun _ => none, 0, []⟩
  mpBuffer := fun _ => none
  freed := []

theorem blankQueue_apart : blankQueue.Apart := by
  intro i j h
  cases i <;> cases j <;> first | rfl | cases h

theorem fresh_some {L : QueueLists} {pool buf : Addr} (ok : Bool)
    (hpool : pool ∉ q.ring L .idle ++ q.ring L .ready ++ q.ring L .pools ++ bufferNodes buf)
    (hbuf : ∀ a ∈ bufferNodes buf, a ∉ q.ring L .idle ++ q.ring L .ready ++ q.ring L .pools) :
    Blocks.Fresh ⟨some pool, some buf, ok⟩ q L := by
  simp only [List.mem_append, not_or] at hpool hbuf
  obtain ⟨⟨⟨hidle, hready⟩, hpools⟩, hapart⟩ := hpool
  refine ⟨?_, ?_, ?_⟩
  · rintro p ⟨⟩ i
    cases i
    · exact hidle
    · exact hready
    · exact hpools
  · rintro b ⟨⟩ a ha i
    obtain ⟨⟨h1, h2⟩, h3⟩ := hbuf a ha
    cases i
    · exact h1
    · exact h2
    · exact h3
  · rintro p b ⟨⟩ ⟨⟩
    exact hapart

theorem blankQueue_fresh : Blocks.Fresh ⟨some 64, some 4096, true⟩ blankQueue ⟨[], [], []⟩ :=
  fresh_some true (by decide) (by decide)

def newQueue : LinkedQueue := (messageCreate ⟨some 64, some 4096, true⟩ blankQueue).2

theorem newQueue_holds : newQueue.Holds ⟨bufferNodes 4096, [], [64]⟩ :=
  create_holds blankQueue_apart blankQueue_fresh

end

/-! ## every queue -/

/-- **The links make the steps of the lists**, from any links of three lists without common nodes,
whatever the allocations return, as long as it is new: a pool with its nodes at the end of the pools
and of the idle list, the first idle node to the end of the ready list, the first ready node to the
end of the idle list, all ready nodes to the end of the idle list.  Without an idle node a put does
the first of these before the second.  The lists stay circles without common nodes, and the nodes of
the lists that have no part in a step keep their neighbours. -/
theorem linked_lists_refine {q : LinkedQueue} {L : QueueLists} (h : q.Holds L) :
    (∀ m : Blocks, m.Fresh q L →
      (messageIncreaseIdleMessageList m q).1 = (L.grow m).1 ∧
      Step q L (messageIncreaseIdleMessageList m q).2 (L.grow m).2 [.idle, .pools]) ∧
    (∀ (m : Blocks) (msg : MsgIn), L.idle ≠ [] →
      (putMessageWithData m q msg).1 = (L.put (copies m.payload msg)).1 ∧
      Step q L (putMessageWithData m q msg).2 (L.put (copies m.payload msg)).2 [.idle, .ready]) ∧
    (∀ (m : Blocks) (msg : MsgIn), m.Fresh q L → L.idle = [] →
      (putMessageWithData m q msg).1 = ((L.grow m).2.put (copies m.payload msg)).1 ∧
      Step (messageIncreaseIdleMessageList m q).2 (L.grow m).2 (putMessageWithData m q msg).2
        ((L.grow m).2.put (copies m.payload msg)).2 [.idle, .ready]) ∧
    ((getMessage q).1 = L.get.1 ∧ (getMessage q).2.1 = L.ready.head?.map q.node ∧
      Step q L (getMessage q).2.2 L.get.2 [.ready, .idle]) ∧
    ∀ fuel, L.ready.length < fuel →
      ∃ q', drainReady fuel q = some q' ∧ Step q L q' L.drain [.ready, .idle] :=
  ⟨fun _ hm => increase_step h hm, fun _ msg hidle => put_step h hidle msg,
    fun _ msg hm hidle => put_step_grown h hm hidle msg, get_step h,
      fun _ hfuel => ⟨_, drain_step h hfuel⟩⟩

/-- a new queue, where one message is put -/
theorem linked_lists_refine_new :
    (putMessageWithData ⟨none, none, true⟩ newQueue ⟨1, 10, 0, 0, some [7, 8], 2⟩).2.Holds
      ⟨(bufferNodes 4096).tail, [4096], [64]⟩ := by
  obtain ⟨-, hput, -⟩ := linked_lists_refine newQueue_holds
  exact (hput ⟨none, none, true⟩ ⟨1, 10, 0, 0, some [7, 8], 2⟩ (by decide)).2.holds

/-! ## the end of a queue -/

section
variable {q : LinkedQueue} {L : QueueLists}

theorem LinkedQueue.Holds.apart (h : q.Holds L) : q.Apart := by
  intro i j hij
  by_contra hne
  exact h.disjoint hne List.mem_cons_self (hij ▸ List.mem_cons_self)

/-- a payload is no part of the links -/
theorem freePayload_keeps (q : LinkedQueue) (a : Addr) :
    (freePayload q a).links = q.links ∧ (freePayload q a).head = q.head ∧
      (freePayload q a).mpBuffer = q.mpBuffer ∧ (freePayload q a).freed = q.freed := by
  unfold freePayload
  split
  · split
    · exact ⟨rfl, rfl, rfl, rfl⟩
    · exact ⟨rfl, rfl, rfl, rfl⟩
  · exact ⟨rfl, rfl, rfl, rfl⟩

theorem foldl_freePayload_keeps (ns : List Addr) (q : LinkedQueue) :
    (ns.foldl freePayload q).links = q.links ∧ (ns.foldl freePayload q).head = q.head ∧
      (ns.foldl freePayload q).mpBuffer = q.mpBuffer ∧
      (ns.foldl freePayload q).freed = q.freed := by
  induction ns generalizing q with
  | nil => exact ⟨rfl, rfl, rfl, rfl⟩
  | cons a ns ih =>
    obtain ⟨h1, h2, h3, h4⟩ := freePayload_keeps q a
    obtain ⟨i1, i2, i3, i4⟩ := ih (freePayload q a)
    exact ⟨i1.trans h1, i2.trans h2, i3.trans h3, i4.trans h4⟩

theorem foldl_moveReady_keeps (ns : List Addr) (q : LinkedQueue) :
    (ns.foldl moveReady q).mpBuffer = q.mpBuffer ∧ (ns.foldl moveReady q).freed = q.freed := by
  induction ns generalizing q with
  | nil => exact ⟨rfl, rfl⟩
  | cons a ns ih => exact ih (moveReady q a)

/-- what a pool leaves behind: its buffer is freed, and then the pool -/
theorem freePool_eq (q : LinkedQueue) (p : Addr) :
    (freePool q p).links = listDel q.links p ∧ (freePool q p).head = q.head ∧
      (freePool q p).freed = p :: ((q.mpBuffer p).toList ++ q.freed) ∧
      ∀ p', p' ≠ p → (freePool q p).mpBuffer p' = q.mpBuffer p' := by
  unfold freePool
  cases hb : q.mpBuffer p with
  | none => exact ⟨rfl, rfl, rfl, fun _ _ => rfl⟩
  | some buf => exact ⟨rfl, rfl, rfl, fun p' hp' => Function.update_of_ne hp' ..⟩

theorem foldl_freePool_keeps (pools : List Addr) (q : LinkedQueue) :
    (pools.foldl freePool q).heap = q.heap ∧ (pools.foldl freePool q).mMsgCnt = q.mMsgCnt := by
  induction pools generalizing q with
  | nil => exact ⟨rfl, rfl⟩
  | cons p pools ih =>
    have hone : (freePool q p).heap = q.heap ∧ (freePool q p).mMsgCnt = q.mMsgCnt := by
      unfold freePool
      cases q.mpBuffer p <;> exact ⟨rfl, rfl⟩
    obtain ⟨hheap, hcnt⟩ := ih (freePool q p)
    exact ⟨hheap.trans hone.1, hcnt.trans hone.2⟩

theorem freePool_holds {s : LinkedQueue} {p : Addr} {pools : List Addr}
    (h : s.Holds ⟨L.idle, L.ready, p :: pools⟩) :
    (freePool s p).Holds ⟨L.idle, L.ready, pools⟩ := by
  obtain ⟨hlinks, hhead, -⟩ := freePool_eq s p
  have hlist : QueueLists.list ⟨L.idle, L.ready, p :: pools⟩ .pools = [] ++ p :: pools := rfl
  have hdel := rings_listDel h hlist
  have hlists : QueueLists.list ⟨L.idle, L.ready, pools⟩
      = Function.update (QueueLists.list ⟨L.idle, L.ready, p :: pools⟩) .pools ([] ++ pools) := by
    funext i
    cases i <;> rfl
  unfold LinkedQueue.Holds
  rw [hlinks, hhead, hlists]
  exact hdel

/-- each pool and its buffer, in the order of the pools -/
theorem foldl_freePool_freed {pools : List Addr} (hnodup : pools.Nodup) (q : LinkedQueue) :
    (pools.foldl freePool q).freed = (pools.flatMap fun p => (q.mpBuffer p).toList ++ [p]).reverse
      ++ q.freed := by
  induction pools generalizing q with
  | nil => rfl
  | cons p pools ih =>
    obtain ⟨hp, hrest⟩ := List.nodup_cons.mp hnodup
    obtain ⟨-, -, hfreed, hbuffer⟩ := freePool_eq q p
    have hsame : ∀ p' ∈ pools, ((freePool q p).mpBuffer p').toList ++ [p']
        = (q.mpBuffer p').toList ++ [p'] :=
      fun p' hp' => congrArg (Option.toList · ++ [p']) (hbuffer p' fun e => hp (e ▸ hp'))
    rw [List.foldl_cons, ih hrest, hfreed, List.flatMap_congr hsame, List.flatMap_cons,
      List.reverse_append]
    cases q.mpBuffer p <;> simp

/-- the iteration over the pools -/
theorem pools_loop (h : q.Holds L) {fuel : Nat} (hfuel : L.pools.length < fuel) :
    (if listEmpty q.links q.mMessageBufList then some q
      else listForEachEntrySafe LinkedQueue.links q.mMessageBufList freePool fuel q)
        = some (L.pools.foldl freePool q) ∧
      (L.pools.foldl freePool q).head = q.head ∧
      (L.pools.foldl freePool q).Holds ⟨L.idle, L.ready, []⟩ := by
  have hcircular : ∀ (s : LinkedQueue) pools, s.head = q.head ∧ s.Holds ⟨L.idle, L.ready, pools⟩ →
      Circular s.links q.mMessageBufList pools := by
    rintro s pools ⟨hhead, hs⟩
    have hc := hs.circular .pools
    rwa [hhead] at hc
  have hbody : ∀ (s : LinkedQueue) p pools, s.head = q.head ∧
      s.Holds ⟨L.idle, L.ready, p :: pools⟩ →
      (freePool s p).head = q.head ∧ (freePool s p).Holds ⟨L.idle, L.ready, pools⟩ :=
    fun s p pools hs => ⟨(freePool_eq s p).2.1.trans hs.1, freePool_holds hs.2⟩
  obtain ⟨hloop, hend⟩ := forEachEntrySafe_foldl hcircular hbody ⟨rfl, h⟩ hfuel
  have hempty : listEmpty q.links q.mMessageBufList = true ↔ L.pools = [] := h.empty_iff .pools
  refine ⟨?_, hend⟩
  by_cases hpools : L.pools = []
  · rw [if_pos (hempty.mpr hpools), hpools]
    rfl
  · rw [if_neg (hempty.not.mpr hpools)]
    exact hloop

/-- the queue behind the three iterations of `message_destroy` -/
def LinkedQueue.swept (q : LinkedQueue) (L : QueueLists) : LinkedQueue :=
  L.pools.foldl freePool ((L.idle ++ L.ready).reverse.foldl freePayload (L.ready.foldl moveReady q))

/-- **The end of a queue.**  With a round for every node, `message_destroy` ends with three empty
lists, and every pool and its buffer have been freed. -/
theorem destroy_holds (h : q.Holds L) {fuel : Nat} (hnodes : L.idle.length + L.ready.length < fuel)
    (hpools : L.pools.length < fuel) :
    messageDestroy fuel q = some (initHeads (q.swept L)) ∧
      (initHeads (q.swept L)).Holds ⟨[], [], []⟩ ∧
      (q.swept L).freed = (L.pools.flatMap fun p => (q.mpBuffer p).toList ++ [p]).reverse
        ++ q.freed := by
  have hready : L.ready.length < fuel := by omega
  obtain ⟨hdrain, hstep⟩ := drain_step h hready
  obtain ⟨q₁, hq₁⟩ : ∃ q₁, q₁ = L.ready.foldl moveReady q := ⟨_, rfl⟩
  obtain ⟨hbuf₁, hfreed₁⟩ := foldl_moveReady_keeps L.ready q
  rw [← hq₁] at hdrain hstep hbuf₁ hfreed₁
  -- the idle nodes, from the last one on
  have hidle : Circular q₁.links q₁.mIdleMessageList (L.idle ++ L.ready) :=
    hstep.holds.circular .idle
  have hkeep : ∀ s x, LinkedQueue.links (freePayload s x) = s.links :=
    fun s x => (freePayload_keeps s x).1
  have hreverse := forEachEntryReverse_foldl hkeep hidle (by rwa [List.length_append])
  obtain ⟨q₂, hq₂⟩ : ∃ q₂, q₂ = (L.idle ++ L.ready).reverse.foldl freePayload q₁ := ⟨_, rfl⟩
  obtain ⟨hlinks₂, hhead₂, hbuf₂, hfreed₂⟩ := foldl_freePayload_keeps (L.idle ++ L.ready).reverse q₁
  rw [← hq₂] at hreverse hlinks₂ hhead₂ hbuf₂ hfreed₂
  have hholds₂ : q₂.Holds L.drain := by
    unfold LinkedQueue.Holds
    rw [hlinks₂, hhead₂]
    exact hstep.holds
  obtain ⟨hloop, hhead₃, -⟩ := pools_loop hholds₂ hpools
  have hfreed := foldl_freePool_freed (List.nodup_cons.mp (h.circular .pools).nodup).2 q₂
  have hswept : q.swept L = L.pools.foldl freePool q₂ := by rw [LinkedQueue.swept, hq₂, hq₁]
  have hhead : (q.swept L).head = q.head := hswept ▸ hhead₃.trans (hhead₂.trans hstep.head)
  refine ⟨?_, holds_nil ?_ fun i => ?_, ?_⟩
  · unfold messageDestroy
    rw [hdrain, Option.bind_some, hreverse, Option.bind_some, hswept]
    exact congrArg (Option.map initHeads) hloop
  · have hapart := h.apart
    unfold LinkedQueue.Apart at hapart ⊢
    rwa [← hhead] at hapart
  · cases i with
    | idle => exact initListHead_keeps (initListHead_linked _ _) _
    | ready => exact initListHead_linked _ _
    | pools => exact initListHead_keeps (initListHead_keeps (initListHead_linked _ _) _) _
  · rw [hswept]
    refine hfreed.trans ?_
    rw [hfreed₂, hfreed₁, hbuf₂, hbuf₁]
    rfl

end

end Pluto.Linked

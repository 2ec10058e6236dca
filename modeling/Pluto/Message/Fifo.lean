import Pluto.Message.Queue

/-!
# The message queue is a FIFO

The purpose of the queue in its own terms is `fifoRun`: a list of messages, where a put appends
and a get takes the first one.  `QueueInv q msgs` says that the queue `q` stores the messages
`msgs`: its two lists share out the nodes of its pools, every payload block belongs to one node,
and reading the ready nodes gives `msgs`.

* `deepCopy_spec`    what one copy into a node does to the payload blocks;
* `inv_increase`, `inv_put`, `inv_get`   one step;
* `runQueue_fifo`    any order of calls answers as the FIFO answers;
* `queue_delivers_in_order`   the messages delivered are a prefix of the messages put.
-/

namespace Pluto
open Octets

/-! ## messages -/

/-- a message as a producer or a consumer sees it -/
structure Msg where
  id : Int
  cmd : Int
  para0 : Int
  para1 : Int
  payload : Bytes
deriving DecidableEq, Repr

def MsgIn.message (m : MsgIn) : Msg where
  id := m.id
  cmd := m.cmd
  para0 := m.para0
  para1 := m.para1
  payload := match m.mpData with
    | none => []
    | some b => b.take m.mDataSize.toNat

/-- what a consumer reads from a message it got; `none`: its payload block is gone -/
def MessageT.read (m : MessageT) (heap : PayloadHeap) : Option Msg :=
  match m.mpData with
  | none => some ⟨m.id, m.cmd, m.para0, m.para1, []⟩
  | some a => (heap.block a).map fun b =>
      ⟨m.id, m.cmd, m.para0, m.para1, b.take m.mDataSize.toNat⟩

/-- no payload and size `0`, or a buffer of at least the size given -/
def MsgIn.Wf (m : MsgIn) : Prop :=
  match m.mpData with
  | none => m.mDataSize = 0
  | some b => 0 ≤ m.mDataSize ∧ m.mDataSize ≤ b.length

instance (m : MsgIn) : Decidable m.Wf := by
  unfold MsgIn.Wf
  split <;> infer_instance

theorem MsgIn.withoutData_wf (m : MsgIn) : m.withoutData.Wf := rfl

theorem MessageT.read_congr (m : MessageT) (h h' : PayloadHeap)
    (e : ∀ a, m.mpData = some a → h'.block a = h.block a) : m.read h' = m.read h := by
  unfold MessageT.read
  cases hd : m.mpData with
  | none => rfl
  | some a => simp only [e a hd]

/-! ## the copy into a node -/

/-- a node that owns no block, or one of size `0`, has nothing to free -/
theorem deepCopy_empty (ok : Bool) (heap : PayloadHeap) (dst : MessageT) (src : MsgIn)
    (hdst : dst.mpData ≠ none → dst.mDataSize = 0) :
    messageDeepCopyMessage ok heap dst src
      = match src.mpData with
        | some b =>
          if src.mDataSize ≥ 0 then
            if ok then (0, ⟨src.id, src.cmd, src.para0, src.para1, some heap.next, src.mDataSize⟩,
              heap.alloc (b.take src.mDataSize.toNat))
            else (-1, ⟨src.id, src.cmd, src.para0, src.para1, none, dst.mDataSize⟩, heap)
          else (0, ⟨src.id, src.cmd, src.para0, src.para1, dst.mpData, dst.mDataSize⟩, heap)
        | none =>
          (0, ⟨src.id, src.cmd, src.para0, src.para1, dst.mpData, dst.mDataSize⟩, heap) := by
  obtain ⟨did, dcmd, dp0, dp1, ddata, dsize⟩ := dst
  unfold messageDeepCopyMessage
  cases ddata with
  | none => rfl
  | some a =>
    obtain rfl : dsize = 0 := hdst (Option.some_ne_none a)
    rfl

/-- any other node has its block freed first -/
theorem deepCopy_release (ok : Bool) (heap : PayloadHeap) {dst : MessageT} (src : MsgIn) {a : Nat}
    (ha : dst.mpData = some a) (hsize : dst.mDataSize ≠ 0) :
    messageDeepCopyMessage ok heap dst src
      = messageDeepCopyMessage ok (heap.free a)
        { dst with mpData := none, mDataSize := 0 } src := by
  unfold messageDeepCopyMessage
  simp only [ha, if_pos hsize]

/-- the copy into a node that has nothing to free -/
theorem deepCopy_spec_empty (heap : PayloadHeap) (dst : MessageT) (src : MsgIn) (hsrc : src.Wf)
    (hdst : dst.mpData ≠ none → dst.mDataSize = 0)
    (hlive : ∀ a, dst.mpData = some a → a < heap.next ∧ (heap.block a).isSome) :
    ∃ dst' heap', messageDeepCopyMessage true heap dst src = (0, dst', heap') ∧
      dst'.read heap' = some src.message ∧ heap.next ≤ heap'.next ∧
      (∀ a, dst'.mpData = some a → a < heap'.next ∧ (heap'.block a).isSome ∧
        (dst.mpData = some a ∨ heap.next ≤ a)) ∧
      ∀ a, a < heap.next → heap'.block a = heap.block a := by
  obtain ⟨sid, scmd, sp0, sp1, sdata, ssize⟩ := src
  rw [deepCopy_empty true heap dst _ hdst]
  cases sdata with
  | some b =>
    obtain ⟨h0, -⟩ : 0 ≤ ssize ∧ ssize ≤ b.length := hsrc
    dsimp only
    rw [if_pos h0, if_pos rfl]
    refine ⟨_, _, rfl, ?_, Nat.le_succ _, ?_, fun a ha => Function.update_of_ne ha.ne ..⟩
    · simp [MessageT.read, PayloadHeap.alloc, MsgIn.message]
    · rintro a ⟨rfl⟩
      exact ⟨Nat.lt_succ_self _, by simp [PayloadHeap.alloc], Or.inr le_rfl⟩
  | none =>
    refine ⟨_, heap, rfl, ?_, le_rfl, fun a ha => ?_, fun _ _ => rfl⟩
    · cases hd : dst.mpData with
      | none => rfl
      | some a =>
        -- a block of size zero stays with the node and is read as an empty payload
        obtain ⟨b, hb⟩ := Option.isSome_iff_exists.mp (hlive a hd).2
        have hsize : dst.mDataSize = 0 := hdst (by rw [hd]; exact Option.some_ne_none a)
        simp [MessageT.read, hb, hsize, MsgIn.message]
    · exact ⟨(hlive a ha).1, (hlive a ha).2, Or.inl ha⟩

theorem deepCopy_spec (heap : PayloadHeap) (dst : MessageT) (src : MsgIn) (hsrc : src.Wf)
    (hlive : ∀ a, dst.mpData = some a → a < heap.next ∧ (heap.block a).isSome) :
    ∃ dst' heap', messageDeepCopyMessage true heap dst src = (0, dst', heap') ∧
      dst'.read heap' = some src.message ∧ heap.next ≤ heap'.next ∧
      (∀ a, dst'.mpData = some a → a < heap'.next ∧ (heap'.block a).isSome ∧
        (dst.mpData = some a ∨ heap.next ≤ a)) ∧
      ∀ a, a < heap.next → dst.mpData ≠ some a → heap'.block a = heap.block a := by
  by_cases hdst : dst.mpData ≠ none → dst.mDataSize = 0
  · obtain ⟨dst', heap', hcopy, hread, hnext, hown, hblock⟩ :=
      deepCopy_spec_empty heap dst src hsrc hdst hlive
    exact ⟨dst', heap', hcopy, hread, hnext, hown, fun a ha _ => hblock a ha⟩
  · obtain ⟨hdata, hsize⟩ := Classical.not_imp.mp hdst
    obtain ⟨a, ha⟩ := Option.ne_none_iff_exists'.mp hdata
    obtain ⟨dst', heap', hcopy, hread, hnext, hown, hblock⟩ :=
      deepCopy_spec_empty (heap.free a) { dst with mpData := none, mDataSize := 0 } src hsrc
        (fun h => absurd rfl h) (fun b hb => absurd hb.symm (Option.some_ne_none b))
    refine ⟨dst', heap', (deepCopy_release true heap src ha hsize).trans hcopy, hread, hnext,
      fun b hb => ?_, fun b hb hne => ?_⟩
    · obtain ⟨hlt, hsome, hold⟩ := hown b hb
      exact ⟨hlt, hsome, Or.inr (hold.resolve_left fun e => Option.some_ne_none b e.symm)⟩
    · have hba : b ≠ a := fun e => hne (e ▸ ha)
      rw [hblock b hb]
      exact Function.update_of_ne hba ..

/-! ## the invariant -/

structure QueueInv (q : MessageQueueT) (msgs : List Msg) : Prop where
  nodup : (q.mIdleMessageList ++ q.mReadyMessageList).Nodup
  pooled : (q.mIdleMessageList ++ q.mReadyMessageList).Perm
    (q.mMessageBufList.flatMap MessagePool.nodes)
  below : ∀ p ∈ q.mMessageBufList, p.mpBuffer + maxMessageElements ≤ q.brk
  cnt : q.mMsgCnt = q.mReadyMessageList.length
  poolCnt : q.mMsgPoolCnt = q.mMessageBufList.length
  live : ∀ n ∈ q.mIdleMessageList ++ q.mReadyMessageList, ∀ a, (q.node n).mpData = some a →
    a < q.heap.next ∧ (q.heap.block a).isSome
  owner : ∀ n ∈ q.mIdleMessageList ++ q.mReadyMessageList,
    ∀ k ∈ q.mIdleMessageList ++ q.mReadyMessageList, ∀ a,
    (q.node n).mpData = some a → (q.node k).mpData = some a → n = k
  reads : q.mReadyMessageList.map (fun n => (q.node n).read q.heap) = msgs.map some

theorem MessagePool.mem_nodes (p : MessagePool) (n : Nat) :
    n ∈ p.nodes ↔ p.mpBuffer ≤ n ∧ n < p.mpBuffer + maxMessageElements := by
  unfold MessagePool.nodes
  rw [List.mem_map]
  constructor
  · rintro ⟨i, hi, rfl⟩
    have := List.mem_range.mp hi
    omega
  · rintro ⟨h1, h2⟩
    exact ⟨n - p.mpBuffer, List.mem_range.mpr (by omega), by omega⟩

theorem MessagePool.nodes_nodup (p : MessagePool) : p.nodes.Nodup :=
  List.Nodup.map (fun _ _ h => by simpa using h) List.nodup_range

theorem MessagePool.nodes_length (p : MessagePool) : p.nodes.length = maxMessageElements := by
  rw [MessagePool.nodes, List.length_map, List.length_range]

theorem QueueInv.lt_brk {q : MessageQueueT} {msgs : List Msg} (h : QueueInv q msgs) {n : Nat}
    (hn : n ∈ q.mIdleMessageList ++ q.mReadyMessageList) : n < q.brk := by
  obtain ⟨p, hp, hnp⟩ := List.mem_flatMap.mp (h.pooled.mem_iff.mp hn)
  have h1 := h.below p hp
  have h2 := (p.mem_nodes n).mp hnp
  omega

theorem QueueInv.length {q : MessageQueueT} {msgs : List Msg} (h : QueueInv q msgs) :
    q.mIdleMessageList.length + q.mReadyMessageList.length
      = maxMessageElements * q.mMessageBufList.length := by
  have hl := h.pooled.length_eq
  rw [List.length_append, List.length_flatMap] at hl
  rw [hl]
  simp [MessagePool.nodes_length, mul_comm]

/-! ## one step -/

/-- the queue with one pool more, whose nodes are zeroed -/
def MessageQueueT.addPool (q : MessageQueueT) : MessageQueueT :=
  { q with
    mMsgPoolCnt := q.mMsgPoolCnt + 1
    mMessageBufList := q.mMessageBufList ++ [⟨q.brk⟩]
    node := fun n => if n ∈ (MessagePool.mk q.brk).nodes then MessageT.zero else q.node n
    mIdleMessageList := q.mIdleMessageList ++ (MessagePool.mk q.brk).nodes
    brk := q.brk + maxMessageElements }

theorem increase_allOk (m : Mallocs) (hd : m.descriptor = true) (hb : m.buffer = true)
    (q : MessageQueueT) : (messageIncreaseIdleMessageList m q).1 = 0 ∧
      (messageIncreaseIdleMessageList m q).2 = q.addPool := by
  simp [messageIncreaseIdleMessageList, MessageQueueT.addPool, hd, hb]

/-- whatever the allocations do: nothing, a pool that is counted only, or a pool -/
theorem increase_cases (m : Mallocs) (q : MessageQueueT) :
    (messageIncreaseIdleMessageList m q).2 = q ∨
      (messageIncreaseIdleMessageList m q).2 = { q with mMsgPoolCnt := q.mMsgPoolCnt + 1 } ∨
      (messageIncreaseIdleMessageList m q).2 = q.addPool := by
  cases hd : m.descriptor with
  | false => exact Or.inl (by simp [messageIncreaseIdleMessageList, hd])
  | true =>
    cases hb : m.buffer with
    | false => exact Or.inr (Or.inl (by simp [messageIncreaseIdleMessageList, hd, hb]))
    | true => exact Or.inr (Or.inr (increase_allOk m hd hb q).2)

/-- a put keeps what its two parts keep -/
theorem put_keeps {P : MessageQueueT → Prop} {m : Mallocs} {q : MessageQueueT} {msg : MsgIn}
    (h : P q) (hinc : P (messageIncreaseIdleMessageList m q).2)
    (hput : ∀ q, P q → P (putFirstIdle m.payload q msg).2) :
    P (putMessageWithData m q msg).2 := by
  unfold putMessageWithData
  by_cases hidle : q.mIdleMessageList = []
  · rw [if_pos hidle]
    dsimp only
    split
    · exact hinc
    · exact hput _ hinc
  · rw [if_neg hidle]
    exact hput q h

section
variable {q : MessageQueueT}

theorem addPool_perm (q : MessageQueueT) :
    (q.addPool.mIdleMessageList ++ q.addPool.mReadyMessageList).Perm
      (q.mIdleMessageList ++ q.mReadyMessageList ++ (MessagePool.mk q.brk).nodes) := by
  show (q.mIdleMessageList ++ (MessagePool.mk q.brk).nodes ++ q.mReadyMessageList).Perm _
  rw [List.append_assoc, List.append_assoc]
  exact List.Perm.append_left _ List.perm_append_comm

/-- the new nodes are at new addresses -/
theorem addPool_new (hbrk : ∀ n ∈ q.mIdleMessageList ++ q.mReadyMessageList, n < q.brk) {n : Nat}
    (hn : n ∈ q.mIdleMessageList ++ q.mReadyMessageList) : n ∉ (MessagePool.mk q.brk).nodes := by
  intro hp
  have h1 := hbrk n hn
  have h2 := (((MessagePool.mk q.brk).mem_nodes n).mp hp).1
  exact absurd h1 (not_lt.mpr h2)

theorem addPool_nodup (hnodup : (q.mIdleMessageList ++ q.mReadyMessageList).Nodup)
    (hbrk : ∀ n ∈ q.mIdleMessageList ++ q.mReadyMessageList, n < q.brk) :
    (q.addPool.mIdleMessageList ++ q.addPool.mReadyMessageList).Nodup :=
  (addPool_perm q).nodup_iff.mpr
    (hnodup.append (MessagePool.nodes_nodup _) fun _ hn hp => addPool_new hbrk hn hp)

/-- a node that owns a block is an old one, with its old fields -/
theorem addPool_node {n a : Nat}
    (hn : n ∈ q.addPool.mIdleMessageList ++ q.addPool.mReadyMessageList)
    (ha : (q.addPool.node n).mpData = some a) :
    n ∈ q.mIdleMessageList ++ q.mReadyMessageList ∧ q.addPool.node n = q.node n := by
  have hnode : q.addPool.node n = if n ∈ (MessagePool.mk q.brk).nodes then
      MessageT.zero else q.node n := rfl
  by_cases hp : n ∈ (MessagePool.mk q.brk).nodes
  · rw [hnode, if_pos hp] at ha
    cases ha
  · rw [hnode, if_neg hp]
    rcases List.mem_append.mp ((addPool_perm q).mem_iff.mp hn) with hn | hn
    · exact ⟨hn, rfl⟩
    · exact absurd hn hp

end

theorem inv_increase {q : MessageQueueT} {msgs : List Msg} (h : QueueInv q msgs) (m : Mallocs)
    (hd : m.descriptor = true) (hb : m.buffer = true) :
    QueueInv (messageIncreaseIdleMessageList m q).2 msgs := by
  rw [(increase_allOk m hd hb q).2]
  refine ⟨addPool_nodup h.nodup fun n => h.lt_brk, ?_, ?_, h.cnt, ?_, ?_, ?_, ?_⟩
  · refine (addPool_perm q).trans ?_
    show List.Perm _ ((q.mMessageBufList ++ [MessagePool.mk q.brk]).flatMap MessagePool.nodes)
    rw [List.flatMap_append, List.flatMap_singleton]
    exact List.Perm.append_right _ h.pooled
  · intro p hp
    show p.mpBuffer + maxMessageElements ≤ q.brk + maxMessageElements
    rcases List.mem_append.mp hp with hp' | hp'
    · have := h.below p hp'; omega
    · rw [List.mem_singleton.mp hp']
  · show q.mMsgPoolCnt + 1 = ((q.mMessageBufList ++ [(⟨q.brk⟩ : MessagePool)]).length : Int)
    rw [h.poolCnt, List.length_append]; rfl
  · intro n hn a ha
    obtain ⟨hn', hnode⟩ := addPool_node hn ha
    exact h.live n hn' a (hnode ▸ ha)
  · intro n hn k hk a ha hb'
    obtain ⟨hn', hnode⟩ := addPool_node hn ha
    obtain ⟨hk', hnode'⟩ := addPool_node hk hb'
    exact h.owner n hn' k hk' a (hnode ▸ ha) (hnode' ▸ hb')
  · rw [← h.reads]
    apply List.map_congr_left
    intro n hn
    show (if n ∈ (MessagePool.mk q.brk).nodes then MessageT.zero else q.node n).read q.heap = _
    rw [if_neg (addPool_new (fun n => h.lt_brk) (List.mem_append_right _ hn))]

section
variable {ns : List Nat} {node : Nat → MessageT} {n : Nat} {dst : MessageT}

/-- a block of a node behind a copy into the node `n`: that of the copy, or an old block of another
node -/
theorem update_block {k a : Nat} (ha : (Function.update node n dst k).mpData = some a) :
    k = n ∧ dst.mpData = some a ∨ k ≠ n ∧ (node k).mpData = some a := by
  by_cases e : k = n
  · subst e
    rw [Function.update_self] at ha
    exact Or.inl ⟨rfl, ha⟩
  · rw [Function.update_of_ne e] at ha
    exact Or.inr ⟨e, ha⟩

/-- every block still belongs to one node where the copy has the old block of `n` or a new one -/
theorem owner_update (heap : PayloadHeap)
    (hlt : ∀ k ∈ ns, ∀ a, (node k).mpData = some a → a < heap.next)
    (howner : ∀ k ∈ ns, ∀ j ∈ ns, ∀ a, (node k).mpData = some a → (node j).mpData = some a → k = j)
    (hn : n ∈ ns) (hdst : ∀ a, dst.mpData = some a → (node n).mpData = some a ∨ heap.next ≤ a) :
    ∀ k ∈ ns, ∀ j ∈ ns, ∀ a, (Function.update node n dst k).mpData = some a →
      (Function.update node n dst j).mpData = some a → k = j := by
  -- the copy's block is in no other node
  have hclash : ∀ i ∈ ns, ∀ a, dst.mpData = some a → (node i).mpData = some a → i = n := by
    intro i hi a hd hia
    rcases hdst a hd with h | h
    · exact howner i hi n hn a hia h
    · exact absurd (hlt i hi a hia) (not_lt.mpr h)
  intro k hk j hj a ha hb
  rcases update_block ha with ⟨rfl, hd⟩ | ⟨-, hold⟩
  · rcases update_block hb with ⟨rfl, -⟩ | ⟨-, hold⟩
    · rfl
    · exact (hclash j hj a hd hold).symm
  · rcases update_block hb with ⟨rfl, hd⟩ | ⟨-, hold'⟩
    · exact hclash k hk a hd hold
    · exact howner k hk j hj a hold hold'

/-- the nodes in front of the copy read as before, and the copy behind them -/
theorem reads_update {ready : List Nat} {heap heap' : PayloadHeap} (hn : n ∉ ready)
    (hkeep : ∀ k ∈ ready, ∀ a, (node k).mpData = some a → heap'.block a = heap.block a) :
    (ready ++ [n]).map (fun k => (Function.update node n dst k).read heap')
      = ready.map (fun k => (node k).read heap) ++ [dst.read heap'] := by
  rw [List.map_append, List.map_singleton, Function.update_self]
  congr 1
  apply List.map_congr_left
  intro k hk
  have hne : k ≠ n := fun e => hn (e ▸ hk)
  rw [Function.update_of_ne hne]
  exact (node k).read_congr _ _ (hkeep k hk)

end

theorem inv_putFirstIdle {q : MessageQueueT} {msgs : List Msg} (h : QueueInv q msgs)
    (hidle : q.mIdleMessageList ≠ []) (msg : MsgIn) (hw : msg.Wf) :
    (putFirstIdle true q msg).1 = 0 ∧
      QueueInv (putFirstIdle true q msg).2 (msgs ++ [msg.message]) := by
  obtain ⟨n, idle, hl⟩ := List.exists_cons_of_ne_nil hidle
  have hperm : (idle ++ (q.mReadyMessageList ++ [n])).Perm
      (q.mIdleMessageList ++ q.mReadyMessageList) := by
    rw [hl, ← List.append_assoc]
    exact List.perm_append_comm
  have hmem : ∀ k, k ∈ idle ++ (q.mReadyMessageList ++ [n]) →
      k ∈ q.mIdleMessageList ++ q.mReadyMessageList :=
    fun k => hperm.mem_iff.mp
  have hn : n ∈ q.mIdleMessageList ++ q.mReadyMessageList := by rw [hl]; simp
  have hready : n ∉ q.mReadyMessageList := by
    intro hr
    have hnd := h.nodup
    rw [hl] at hnd
    exact (List.nodup_cons.mp hnd).1 (List.mem_append_right _ hr)
  obtain ⟨dst, heap, hc, hread, hnext, hown, hkeep⟩ :=
    deepCopy_spec q.heap (q.node n) msg hw (h.live n hn)
  -- the blocks of the other nodes are untouched
  have hother : ∀ k ∈ q.mIdleMessageList ++ q.mReadyMessageList, k ≠ n → ∀ a,
      (q.node k).mpData = some a → heap.block a = q.heap.block a := by
    intro k hk hkn a ha
    exact hkeep a (h.live k hk a ha).1 fun e => hkn (h.owner k hk n hn a ha e)
  have hput : putFirstIdle true q msg = (0, { q with
      node := Function.update q.node n dst
      heap := heap
      mIdleMessageList := idle
      mReadyMessageList := q.mReadyMessageList ++ [n]
      mMsgCnt := q.mMsgCnt + 1 }) := by
    rw [putFirstIdle_eq hl hc, if_pos rfl]
  rw [hput]
  refine ⟨rfl, ⟨hperm.nodup_iff.mpr h.nodup, hperm.trans h.pooled, h.below, ?_, h.poolCnt, ?_, ?_,
    ?_⟩⟩
  · show q.mMsgCnt + 1 = ((q.mReadyMessageList ++ [n]).length : Int)
    rw [h.cnt, List.length_append]; rfl
  · intro k hk a ha
    rcases update_block ha with ⟨-, hd⟩ | ⟨hne, hold⟩
    · exact ⟨(hown a hd).1, (hown a hd).2.1⟩
    · obtain ⟨hlt, hlive⟩ := h.live k (hmem k hk) a hold
      exact ⟨lt_of_lt_of_le hlt hnext, by rw [hother k (hmem k hk) hne a hold]; exact hlive⟩
  · intro k hk j hj
    exact owner_update q.heap (fun k hk a ha => (h.live k hk a ha).1) h.owner hn
      (fun a hd => (hown a hd).2.2)
      k (hmem k hk) j (hmem j hj)
  · show (q.mReadyMessageList ++ [n]).map (fun k => (Function.update q.node n dst k).read heap) = _
    rw [reads_update hready fun k hk => hother k (List.mem_append_right _ hk) fun e =>
      hready (e ▸ hk), h.reads, hread,
      List.map_append, List.map_singleton]

theorem inv_put {q : MessageQueueT} {msgs : List Msg} (h : QueueInv q msgs) (msg : MsgIn)
    (hw : msg.Wf) :
    (putMessageWithData .allOk q msg).1 = 0 ∧
      QueueInv (putMessageWithData .allOk q msg).2 (msgs ++ [msg.message]) := by
  unfold putMessageWithData
  by_cases hidle : q.mIdleMessageList = []
  · rw [if_pos hidle]
    obtain ⟨h1, h2⟩ := increase_allOk .allOk rfl rfl q
    have hne : (messageIncreaseIdleMessageList .allOk q).2.mIdleMessageList ≠ [] := by
      rw [h2]
      intro e
      have hl := (MessagePool.mk q.brk).nodes_length
      rw [(List.append_eq_nil_iff.mp (show q.mIdleMessageList ++ _ = [] from e)).2] at hl
      cases hl
    dsimp only
    rw [if_neg (not_not.mpr h1)]
    exact inv_putFirstIdle (inv_increase h .allOk rfl rfl) hne msg hw
  · rw [if_neg hidle]
    exact inv_putFirstIdle h hidle msg hw

theorem inv_takeFirstReady {q : MessageQueueT} {m : Msg} {msgs : List Msg}
    (h : QueueInv q (m :: msgs)) :
    ∃ n ready, q.mReadyMessageList = n :: ready ∧
      (takeFirstReady q n ready).1.read q.heap = some m ∧
      QueueInv (takeFirstReady q n ready).2 msgs := by
  have hr := h.reads
  cases hl : q.mReadyMessageList with
  | nil => rw [hl] at hr; cases hr
  | cons n ready =>
    rw [hl, List.map_cons, List.map_cons] at hr
    obtain ⟨h1, h2⟩ := List.cons.inj hr
    have hperm : (q.mIdleMessageList ++ [n] ++ ready).Perm
        (q.mIdleMessageList ++ q.mReadyMessageList) := by
      rw [hl, List.append_assoc, List.singleton_append]
    have hmem : ∀ k ∈ q.mIdleMessageList ++ [n] ++ ready,
        k ∈ q.mIdleMessageList ++ q.mReadyMessageList := fun k => hperm.mem_iff.mp
    refine ⟨n, ready, rfl, h1, ⟨hperm.nodup_iff.mpr h.nodup, hperm.trans h.pooled, h.below, ?_,
      h.poolCnt, fun k hk => h.live k (hmem k hk),
      fun k hk j hj => h.owner k (hmem k hk) j (hmem j hj),
      h2⟩⟩
    show q.mMsgCnt - 1 = (ready.length : Int)
    rw [h.cnt, hl, List.length_cons]
    push_cast
    ring

/-! ## any order of calls -/

/-- one call, atomic under the mutex -/
inductive QueueOp where
  | putMessage (msg : MsgIn)
  | putMessageWithData (msg : MsgIn)
  | getMessage
  | getMessageCount
deriving DecidableEq

/-- the answer of one call; the message of a get is read when it returns -/
inductive QueueRet where
  | put (ret : Int)
  | get (ret : Int) (msg : Option Msg)
  | count (n : Int)
deriving DecidableEq

def QueueOp.Wf : QueueOp → Prop
  | .putMessageWithData msg => msg.Wf
  | _ => True

instance (op : QueueOp) : Decidable op.Wf := by
  unfold QueueOp.Wf
  split <;> infer_instance

def MessageQueueT.call (q : MessageQueueT) : QueueOp → QueueRet × MessageQueueT
  | .putMessage msg =>
    let r := Pluto.putMessage .allOk q msg
    (.put r.1, r.2)
  | .putMessageWithData msg =>
    let r := Pluto.putMessageWithData .allOk q msg
    (.put r.1, r.2)
  | .getMessage =>
    let r := Pluto.getMessage q
    (.get r.1 (r.2.1.bind fun m => m.read r.2.2.heap), r.2.2)
  | .getMessageCount => (.count (Pluto.getMessageCount q), q)

def runQueue (q : MessageQueueT) : List QueueOp → List QueueRet × MessageQueueT
  | [] => ([], q)
  | op :: ops =>
    let rest := runQueue (q.call op).2 ops
    ((q.call op).1 :: rest.1, rest.2)

/-- the queue as a list of messages -/
def fifoCall (msgs : List Msg) : QueueOp → QueueRet × List Msg
  | .putMessage msg => (.put 0, msgs ++ [msg.withoutData.message])
  | .putMessageWithData msg => (.put 0, msgs ++ [msg.message])
  | .getMessage =>
    match msgs with
    | [] => (.get (-1) none, [])
    | m :: msgs => (.get 0 (some m), msgs)
  | .getMessageCount => (.count msgs.length, msgs)

def fifoRun (msgs : List Msg) : List QueueOp → List QueueRet × List Msg
  | [] => ([], msgs)
  | op :: ops =>
    let rest := fifoRun (fifoCall msgs op).2 ops
    ((fifoCall msgs op).1 :: rest.1, rest.2)

theorem call_fifo {q : MessageQueueT} {msgs : List Msg} (h : QueueInv q msgs) (op : QueueOp)
    (hop : op.Wf) :
    (q.call op).1 = (fifoCall msgs op).1 ∧ QueueInv (q.call op).2 (fifoCall msgs op).2 := by
  cases op with
  | putMessage msg =>
    obtain ⟨h1, h2⟩ := inv_put h msg.withoutData msg.withoutData_wf
    exact ⟨congrArg QueueRet.put h1, h2⟩
  | putMessageWithData msg =>
    obtain ⟨h1, h2⟩ := inv_put h msg hop
    exact ⟨congrArg QueueRet.put h1, h2⟩
  | getMessage =>
    cases msgs with
    | nil =>
      have hr : q.mReadyMessageList = [] := List.map_eq_nil_iff.mp h.reads
      have hg : getMessage q = (-1, none, q) := by unfold getMessage; rw [hr]
      show QueueRet.get (getMessage q).1 _ = _ ∧ QueueInv (getMessage q).2.2 []
      rw [hg]
      exact ⟨rfl, h⟩
    | cons m msgs =>
      obtain ⟨n, ready, hl, hread, hinv⟩ := inv_takeFirstReady h
      have hg : getMessage q = (0, some (takeFirstReady q n ready).1,
          (takeFirstReady q n ready).2) := by
        unfold getMessage; rw [hl]
      show QueueRet.get (getMessage q).1 ((getMessage q).2.1.bind _) = QueueRet.get 0 (some m) ∧
        QueueInv (getMessage q).2.2 msgs
      rw [hg]
      exact ⟨congrArg (QueueRet.get 0) hread, hinv⟩
  | getMessageCount =>
    refine ⟨?_, h⟩
    have hlen : q.mReadyMessageList.length = msgs.length := by
      simpa using congrArg List.length h.reads
    show QueueRet.count q.mMsgCnt = QueueRet.count msgs.length
    rw [h.cnt, hlen]

/-- **The queue answers as a FIFO.** -/
theorem runQueue_fifo {q : MessageQueueT} {msgs : List Msg} (h : QueueInv q msgs)
    (ops : List QueueOp) (hops : ∀ op ∈ ops, op.Wf) :
    (runQueue q ops).1 = (fifoRun msgs ops).1 ∧
      QueueInv (runQueue q ops).2 (fifoRun msgs ops).2 := by
  induction ops generalizing q msgs with
  | nil => exact ⟨rfl, h⟩
  | cons op ops ih =>
    obtain ⟨h1, h2⟩ := call_fifo h op (hops op (List.mem_cons_self ..))
    obtain ⟨h3, h4⟩ := ih h2 fun o ho => hops o (List.mem_cons_of_mem _ ho)
    refine ⟨?_, h4⟩
    show (q.call op).1 :: (runQueue (q.call op).2 ops).1 = (fifoCall msgs op).1 :: _
    rw [h1, h3]

theorem inv_init : QueueInv MessageQueueT.init [] where
  nodup := List.nodup_nil
  pooled := List.Perm.refl _
  below := by simp [MessageQueueT.init]
  cnt := rfl
  poolCnt := rfl
  live := by simp [MessageQueueT.init]
  owner := by simp [MessageQueueT.init]
  reads := rfl

/-- the queue `message_create` returns when its allocations succeed -/
def createdQueue : MessageQueueT := (messageCreate .allOk).2

theorem inv_create : QueueInv createdQueue [] := by
  have h := inv_increase inv_init .allOk rfl rfl
  unfold createdQueue messageCreate
  dsimp only
  rw [if_neg (not_not.mpr (increase_allOk .allOk rfl rfl _).1)]
  exact h

/-! ## what was put and what was delivered -/

/-- the messages put, in order -/
def sent : List QueueOp → List Msg
  | [] => []
  | .putMessage msg :: ops => msg.withoutData.message :: sent ops
  | .putMessageWithData msg :: ops => msg.message :: sent ops
  | _ :: ops => sent ops

/-- the messages of the successful gets, in order; `none` where a payload could not be read -/
def delivered : List QueueRet → List (Option Msg)
  | [] => []
  | .get ret msg :: rets => if ret = 0 then msg :: delivered rets else delivered rets
  | _ :: rets => delivered rets

/-- nothing is lost, made up or reordered by a FIFO -/
theorem fifo_conserves (msgs : List Msg) (ops : List QueueOp) :
    (msgs ++ sent ops).map some
      = delivered (fifoRun msgs ops).1 ++ (fifoRun msgs ops).2.map some := by
  induction ops generalizing msgs with
  | nil => simp [sent, fifoRun, delivered]
  | cons op ops ih =>
    cases op with
    | putMessage msg =>
      simpa [sent, fifoRun, fifoCall, delivered] using ih (msgs ++ [msg.withoutData.message])
    | putMessageWithData msg =>
      simpa [sent, fifoRun, fifoCall, delivered] using ih (msgs ++ [msg.message])
    | getMessage =>
      cases msgs with
      | nil => simpa [sent, fifoRun, fifoCall, delivered] using ih []
      | cons m msgs => simpa [sent, fifoRun, fifoCall, delivered] using ih msgs
    | getMessageCount => simpa [sent, fifoRun, fifoCall, delivered] using ih msgs

/-- **Messages are delivered in order and unchanged.**  After any order of calls on a new queue:
the answers are those of the FIFO; the messages delivered are the first messages put, the others
are in the ready list; a get fails exactly when the ready list is empty; the counters count the
ready list and the pools; and the two lists are disjoint, without repetition, and hold sixteen
nodes for each pool. -/
theorem queue_delivers_in_order (ops : List QueueOp) (hops : ∀ op ∈ ops, op.Wf)
    (rets : List QueueRet) (q : MessageQueueT) (hrun : runQueue createdQueue ops = (rets, q)) :
    rets = (fifoRun [] ops).1 ∧
      delivered rets <+: (sent ops).map some ∧
      (sent ops).map some
        = delivered rets ++ q.mReadyMessageList.map (fun n => (q.node n).read q.heap) ∧
      ((getMessage q).1 ≠ 0 ↔ q.mReadyMessageList = []) ∧
      q.mMsgCnt = q.mReadyMessageList.length ∧
      q.mMsgPoolCnt = q.mMessageBufList.length ∧
      (q.mIdleMessageList ++ q.mReadyMessageList).Nodup ∧
      q.mIdleMessageList.Disjoint q.mReadyMessageList ∧
      q.mIdleMessageList.length + q.mReadyMessageList.length = 16 * q.mMessageBufList.length := by
  obtain ⟨h1, h2⟩ := runQueue_fifo inv_create ops hops
  have hc := fifo_conserves [] ops
  rw [hrun] at h1 h2
  rw [List.nil_append, ← h1, ← h2.reads] at hc
  refine ⟨h1, ⟨_, hc.symm⟩, hc, ?_, h2.cnt, h2.poolCnt, h2.nodup,
    List.disjoint_of_nodup_append h2.nodup, h2.length⟩
  unfold getMessage
  split
  · next hl => simp [hl]
  · next n ready hl => simp [hl]

/-- two messages put, one of them with a payload and one with an empty one, and three gets -/
theorem queue_delivers_in_order_three :
    delivered (runQueue createdQueue [.putMessageWithData ⟨1, 10, 0, 0, some [7, 8], 2⟩,
        .getMessage, .putMessageWithData ⟨2, 20, 0, 0, some [], 0⟩, .getMessage, .getMessage]).1
      <+: [some ⟨1, 10, 0, 0, [7, 8]⟩, some ⟨2, 20, 0, 0, []⟩] :=
  (queue_delivers_in_order [.putMessageWithData ⟨1, 10, 0, 0, some [7, 8], 2⟩, .getMessage,
    .putMessageWithData ⟨2, 20, 0, 0, some [], 0⟩, .getMessage, .getMessage]
      (by decide) _ _ rfl).2.1

end Pluto

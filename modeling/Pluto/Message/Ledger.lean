import Pluto.Message.Pools
import Pluto.Steps.Run

/-!
# The ledger of payload blocks

`heap.next` counts the blocks that were allocated and `heap.freed` lists those that were freed.  The
old block of a node is freed when the node is reused and when the queue is destroyed, in both places
only if its size is not `0`.

* `Ledger`            what holds of every queue between the calls (`ledger_serve`);
* `Held`              every block that was not freed has an owner that will free it;
* `Keeps q a`         no call will free the block `a`: one put of an empty payload leads there;
* `destroy_balanced`  `messageDestroy` balances the ledger exactly of a queue with `Held`;
* `ledger_iff`        the ledger at the end of a run.
-/

namespace Pluto
open Octets Steps

/-! ## the invariant -/

/-- the block that the next reuse of the node, or `messageDestroy`, frees -/
def MessageQueueT.held (q : MessageQueueT) (n : Nat) : Option Nat :=
  if (q.node n).mDataSize = 0 then none else (q.node n).mpData

structure Ledger (q : MessageQueueT) : Prop where
  owns : Owns q
  nodup : q.heap.freed.Nodup
  cnt : q.mMsgCnt = q.mReadyMessageList.length

def Held (q : MessageQueueT) : Prop :=
  ∀ a < q.heap.next, a ∉ q.heap.freed → ∃ n ∈ q.nodes, q.held n = some a

theorem held_eq_some {q : MessageQueueT} {n a : Nat} :
    q.held n = some a ↔ (q.node n).mDataSize ≠ 0 ∧ (q.node n).mpData = some a := by
  unfold MessageQueueT.held
  split
  · next h => exact iff_of_false nofun fun hn => hn.1 h
  · next h => exact ⟨fun ha => ⟨h, ha⟩, fun ha => ha.2⟩

/-- a call that changes neither the nodes nor the heap -/
structure SameBlocks (q q' : MessageQueueT) : Prop where
  nodes : q'.nodes = q.nodes
  node : q'.node = q.node
  heap : q'.heap = q.heap

theorem Held.congr {q q' : MessageQueueT} (h : Held q) (hsame : SameBlocks q q') : Held q' := by
  unfold Held MessageQueueT.held
  rw [hsame.nodes, hsame.node, hsame.heap]
  exact h

theorem Keeps.congr {q q' : MessageQueueT} {a : Nat} (h : Keeps q a) (hsame : SameBlocks q q') :
    Keeps q' a := by
  refine ⟨?_, ?_, ?_⟩
  · rw [hsame.heap]
    exact h.lt
  · rw [hsame.heap]
    exact h.live
  · rw [hsame.nodes, hsame.node]
    exact h.size

theorem Held.not_keeps {q : MessageQueueT} (h : Held q) (a : Nat) : ¬ Keeps q a := by
  intro hk
  obtain ⟨n, hn, ha⟩ := h a hk.lt hk.live
  obtain ⟨hsize, hdata⟩ := held_eq_some.mp ha
  exact hsize (hk.size n hn hdata)

/-! ## one put -/

/-- what the copy adds to the heap when its allocation succeeds -/
theorem deepCopy_next (heap : PayloadHeap) (dst : MessageT) (src : MsgIn) :
    (messageDeepCopyMessage true heap dst src).2.2.next = heap.next ∧
      (src.mpData = none ∨ src.mDataSize < 0) ∨
      (messageDeepCopyMessage true heap dst src).2.2.next = heap.next + 1 ∧ src.mpData ≠ none ∧
        (messageDeepCopyMessage true heap dst src).2.1.mpData = some heap.next ∧
        (messageDeepCopyMessage true heap dst src).2.1.mDataSize = src.mDataSize := by
  obtain ⟨did, dcmd, dp0, dp1, ddata, dsize⟩ := dst
  obtain ⟨sid, scmd, sp0, sp1, sdata, ssize⟩ := src
  -- the old block, if it is freed, does not change the number of blocks
  have hnext : ∀ a, (heap.free a).next = heap.next := fun _ => rfl
  cases sdata with
  | none =>
    refine Or.inl ⟨?_, Or.inl rfl⟩
    cases ddata with
    | none => rfl
    | some a => by_cases hd : dsize = 0 <;> simp [messageDeepCopyMessage, hd, hnext]
  | some b =>
    by_cases hs : 0 ≤ ssize
    · refine Or.inr ?_
      cases ddata with
      | none => simp [messageDeepCopyMessage, hs, PayloadHeap.alloc]
      | some a =>
        by_cases hd : dsize = 0 <;> simp [messageDeepCopyMessage, hd, hs, hnext, PayloadHeap.alloc]
    · refine Or.inl ⟨?_, Or.inr (lt_of_not_ge hs)⟩
      cases ddata with
      | none => simp [messageDeepCopyMessage, hs]
      | some a => by_cases hd : dsize = 0 <;> simp [messageDeepCopyMessage, hd, hs, hnext]

theorem putFirstIdle_copy (ok : Bool) {q : MessageQueueT} {n : Nat} {idle : List Nat}
    (hl : q.mIdleMessageList = n :: idle) (msg : MsgIn) :
    (putFirstIdle ok q msg).2.node
        = Function.update q.node n (messageDeepCopyMessage ok q.heap (q.node n) msg).2.1 ∧
      (putFirstIdle ok q msg).2.heap = (messageDeepCopyMessage ok q.heap (q.node n) msg).2.2 := by
  rw [putFirstIdle_eq hl rfl]
  split
  · exact ⟨rfl, rfl⟩
  · exact ⟨rfl, rfl⟩

theorem ledger_putFirstIdle {q : MessageQueueT} (h : Ledger q) (ok : Bool) (msg : MsgIn) :
    Ledger (putFirstIdle ok q msg).2 := by
  refine ⟨owns_putFirstIdle h.owns ok msg, ?_, ?_⟩
  · cases hl : q.mIdleMessageList with
    | nil =>
      rw [putFirstIdle_nil ok hl]
      exact h.nodup
    | cons n idle =>
      obtain ⟨r, hr, -, hheap, -⟩ := putFirstIdle_cons ok hl msg
      have hn : n ∈ q.nodes := List.mem_append_left _ (hl ▸ List.mem_cons_self)
      rw [hheap, hr.freed]
      split
      · exact h.nodup
      · cases hd : (q.node n).mpData with
        | none => exact h.nodup
        | some a => exact List.nodup_cons.mpr ⟨(h.owns.live n hn a hd).2, h.nodup⟩
  · rcases (putFirstIdle_effect ok q msg).ready with ⟨-, ⟨n, hready⟩, hcnt⟩ | ⟨-, hready, hcnt⟩
    · rw [hready, hcnt, h.cnt, List.length_append]
      rfl
    · rw [hready, hcnt, h.cnt]

/-- the copy of a payload that is not empty: the new block is held by the node, the old one was
freed -/
theorem held_putFirstIdle {q : MessageQueueT} (hheld : Held q) {n : Nat} {idle : List Nat}
    (hl : q.mIdleMessageList = n :: idle) {msg : MsgIn}
    (hmsg : msg.mpData ≠ none → msg.mDataSize ≠ 0) :
    Held (putFirstIdle true q msg).2 := by
  obtain ⟨hnode, hheap⟩ := putFirstIdle_copy true hl msg
  have hr := deepCopied true q.heap (q.node n) msg
  have hperm := putFirstIdle_perm true q msg
  have hn : n ∈ q.nodes := List.mem_append_left _ (hl ▸ List.mem_cons_self)
  intro a ha hfreed
  rw [hheap] at ha hfreed
  by_cases hold : a < q.heap.next
  · have hlive : a ∉ q.heap.freed := by
      intro hf
      refine hfreed ?_
      rw [hr.freed]
      split
      · exact hf
      · exact List.mem_append_right _ hf
    obtain ⟨k, hk, hka⟩ := hheld a hold hlive
    obtain ⟨hsize, hdata⟩ := held_eq_some.mp hka
    have hne : k ≠ n := by
      rintro rfl
      refine hfreed ?_
      rw [hr.freed, if_neg hsize, hdata]
      exact List.mem_append_left _ List.mem_cons_self
    refine ⟨k, hperm.mem_iff.mpr hk, held_eq_some.mpr ?_⟩
    rw [hnode, Function.update_of_ne hne]
    exact ⟨hsize, hdata⟩
  · rcases deepCopy_next q.heap (q.node n) msg with ⟨hnext, -⟩ | ⟨hnext, hsome, hdata, hsize⟩
    · exact absurd (hnext ▸ ha) hold
    · obtain rfl : a = q.heap.next := by omega
      refine ⟨n, hperm.mem_iff.mpr hn, held_eq_some.mpr ?_⟩
      rw [hnode, Function.update_self, hsize]
      exact ⟨hmsg hsome, hdata⟩

/-- the copy of an empty payload: no call will free the new block -/
theorem keeps_new {q : MessageQueueT} (h : Owns q) {n : Nat} {idle : List Nat}
    (hl : q.mIdleMessageList = n :: idle) {msg : MsgIn} (hsome : msg.mpData ≠ none)
    (hzero : msg.mDataSize = 0) :
    Keeps (putFirstIdle true q msg).2 q.heap.next := by
  obtain ⟨hnode, hheap⟩ := putFirstIdle_copy true hl msg
  have hr := deepCopied true q.heap (q.node n) msg
  have hn : n ∈ q.nodes := List.mem_append_left _ (hl ▸ List.mem_cons_self)
  rcases deepCopy_next q.heap (q.node n) msg with ⟨-, hnone | hneg⟩ | ⟨hnext, -, -, hsize⟩
  · exact absurd hnone hsome
  · rw [hzero] at hneg
    exact absurd hneg (lt_irrefl 0)
  refine ⟨?_, ?_, ?_⟩
  · rw [hheap, hnext]
    exact Nat.lt_succ_self _
  · rw [hheap]
    exact fun hf => lt_irrefl _ (hr.fresh (fun a ha => (h.live n hn a ha).1) h.freed _ hf)
  · intro k hk hdata
    rw [hnode] at hdata ⊢
    by_cases e : k = n
    · rw [e, Function.update_self, hsize]
      exact hzero
    · rw [Function.update_of_ne e] at hdata
      exact absurd (h.live k ((putFirstIdle_perm true q msg).mem_iff.mp hk) _ hdata).1 (lt_irrefl _)

/-! ## one call -/

theorem held_addPool {q : MessageQueueT} (h : Owns q) (hheld : Held q) : Held q.addPool := by
  intro a ha hfreed
  obtain ⟨n, hn, hna⟩ := hheld a ha hfreed
  have hnode : q.addPool.node n = q.node n := if_neg (addPool_new h.below hn)
  refine ⟨n, (addPool_perm q).mem_iff.mpr (List.mem_append_left _ hn), ?_⟩
  rwa [MessageQueueT.held, hnode]

theorem ledger_increase {q : MessageQueueT} (h : Ledger q) (m : Mallocs) :
    Ledger (messageIncreaseIdleMessageList m q).2 := by
  refine ⟨owns_increase h.owns m, ?_, ?_⟩
  · rw [increase_heap]
    exact h.nodup
  · obtain ⟨-, hready, hcnt⟩ := increase_effect m q
    rw [hready, hcnt]
    exact h.cnt

/-- the put reaches the copy: it finds an idle node, or adds a pool -/
def PutCall.reaches (p : PutCall) (q : MessageQueueT) : Bool :=
  !q.mIdleMessageList.isEmpty || p.grows q

/-- what a put does: a copy into the first idle node, or nothing but counting a pool -/
theorem put_cases (q : MessageQueueT) (p : PutCall) :
    p.reaches q = true ∧ (∃ q₁ n idle, (q₁ = q ∨ q₁ = q.addPool) ∧ q₁.mIdleMessageList = n :: idle ∧
        q.put p = (putFirstIdle p.mallocs.payload q₁ p.msg).2) ∨
      p.reaches q = false ∧ SameBlocks q (q.put p) := by
  rw [put_eq]
  unfold putMessageWithData PutCall.reaches PutCall.grows
  cases hl : q.mIdleMessageList with
  | cons n idle =>
    rw [if_neg (List.cons_ne_nil n idle)]
    exact Or.inl ⟨rfl, q, n, idle, Or.inl rfl, hl, rfl⟩
  | nil =>
    rw [if_pos rfl]
    dsimp only
    cases hd : p.mallocs.descriptor with
    | false =>
      have hinc : messageIncreaseIdleMessageList p.mallocs q = (-1, q) := by
        rw [messageIncreaseIdleMessageList, if_pos hd]
      rw [hinc]
      exact Or.inr ⟨rfl, rfl, rfl, rfl⟩
    | true =>
      cases hb : p.mallocs.buffer with
      | false =>
        have hinc : messageIncreaseIdleMessageList p.mallocs q
            = (-1, { q with mMsgPoolCnt := q.mMsgPoolCnt + 1 }) := by
          simp [messageIncreaseIdleMessageList, hd, hb]
        rw [hinc]
        exact Or.inr ⟨rfl, rfl, rfl, rfl⟩
      | true =>
        obtain ⟨hinc, hpool⟩ := increase_allOk p.mallocs hd hb q
        rw [if_neg (not_not.mpr hinc), hpool]
        obtain ⟨n, idle, hidle⟩ : ∃ n idle, q.addPool.mIdleMessageList = n :: idle := by
          refine List.exists_cons_of_ne_nil (List.append_ne_nil_of_right_ne_nil _ ?_)
          exact List.ne_nil_of_length_eq_add_one (MessagePool.nodes_length _)
        exact Or.inl ⟨rfl, q.addPool, n, idle, Or.inr rfl, hidle, rfl⟩

inductive QueueCall where
  | put (p : PutCall)
  | get
deriving DecidableEq

def MessageQueueT.serve (q : MessageQueueT) : QueueCall → MessageQueueT
  | .put p => q.put p
  | .get => (getMessage q).2.2

/-- the allocation of the payload succeeds, if the call makes it -/
def QueueCall.PayloadOk : QueueCall → Prop
  | .put p => p.mallocs.payload = true
  | .get => True

/-- the call does not allocate a block of size `0` -/
def NoEmptyBlock (q : MessageQueueT) : QueueCall → Prop
  | .put p => p.reaches q = true → p.msg.mpData ≠ none → p.msg.mDataSize ≠ 0
  | .get => True

theorem get_same (q : MessageQueueT) : SameBlocks q (getMessage q).2.2 := by
  unfold getMessage
  split
  · exact ⟨rfl, rfl, rfl⟩
  · next n ready hl =>
    refine ⟨?_, rfl, rfl⟩
    show q.mIdleMessageList ++ [n] ++ ready = q.mIdleMessageList ++ q.mReadyMessageList
    rw [hl, List.append_assoc, List.singleton_append]

theorem ledger_serve {q : MessageQueueT} (h : Ledger q) (c : QueueCall) : Ledger (q.serve c) := by
  cases c with
  | put p =>
    show Ledger (q.put p)
    rw [put_eq]
    exact put_keeps h (ledger_increase h p.mallocs) fun q h =>
      ledger_putFirstIdle h p.mallocs.payload p.msg
  | get =>
    show Ledger (getMessage q).2.2
    refine ⟨owns_get h.owns, ?_, ?_⟩
    · rw [(get_same q).heap]
      exact h.nodup
    · unfold getMessage
      split
      · exact h.cnt
      · next n ready hl =>
        show q.mMsgCnt - 1 = (ready.length : Int)
        rw [h.cnt, hl, List.length_cons]
        omega

theorem held_serve {q : MessageQueueT} (h : Ledger q) (c : QueueCall) (hok : c.PayloadOk)
    (hc : NoEmptyBlock q c) (hheld : Held q) : Held (q.serve c) := by
  cases c with
  | put p =>
    show Held (q.put p)
    rcases put_cases q p with ⟨hreach, q₁, n, idle, hq₁, hl, hput⟩ | ⟨-, hsame⟩
    · have hheld₁ : Held q₁ := by
        rcases hq₁ with rfl | rfl
        · exact hheld
        · exact held_addPool h.owns hheld
      rw [hput, show p.mallocs.payload = true from hok]
      exact held_putFirstIdle hheld₁ hl (hc hreach)
    · exact hheld.congr hsame
  | get => exact hheld.congr (get_same q)

/-- a block that no call will free -/
def Lost (q : MessageQueueT) : Prop := ∃ a, Keeps q a

theorem lost_put {q : MessageQueueT} (h : Ledger q) (c : QueueCall) (hok : c.PayloadOk)
    (hc : ¬ NoEmptyBlock q c) :
    Lost (q.serve c) := by
  cases c with
  | get => exact absurd trivial hc
  | put p =>
    obtain ⟨hreach, hrest⟩ := Classical.not_imp.mp hc
    obtain ⟨hsome, hzero⟩ := Classical.not_imp.mp hrest
    show Lost (q.put p)
    rcases put_cases q p with ⟨-, q₁, n, idle, hq₁, hl, hput⟩ | ⟨hnot, -⟩
    · have howns : Owns q₁ := by
        rcases hq₁ with rfl | rfl
        · exact h.owns
        · exact (increase_allOk .allOk rfl rfl q).2 ▸ owns_increase h.owns .allOk
      refine ⟨q₁.heap.next, ?_⟩
      rw [hput, show p.mallocs.payload = true from hok]
      exact keeps_new howns hl hsome (not_not.mp hzero)
    · rw [hreach] at hnot
      cases hnot

theorem lost_serve {q : MessageQueueT} (hlost : Lost q) (c : QueueCall) : Lost (q.serve c) := by
  obtain ⟨a, ha⟩ := hlost
  refine ⟨a, ?_⟩
  cases c with
  | put p => exact (keeps_put ha p).1
  | get => exact ha.congr (get_same q)

/-! ## the end of a run -/

theorem moveReady (ready : List Nat) (q : MessageQueueT) (hready : q.mReadyMessageList = ready) :
    ready.foldl moveFirstReady q
      = { q with
          mIdleMessageList := q.mIdleMessageList ++ ready
          mReadyMessageList := []
          mMsgCnt := q.mMsgCnt - ready.length } := by
  induction ready generalizing q with
  | nil =>
    obtain ⟨idle, ready, bufs, cnt, pools, flag, node, heap, brk⟩ := q
    obtain rfl : ready = [] := hready
    simp
  | cons n ready ih =>
    rw [List.foldl_cons, ih (moveFirstReady q n) (by rw [moveFirstReady, hready, List.tail_cons])]
    simp [moveFirstReady, sub_sub, add_comm]

/-- one node of the last walk -/
theorem freePayload_held (q : MessageQueueT) (n : Nat) :
    (freePayload q n).heap.freed = (q.held n).toList ++ q.heap.freed ∧
      (freePayload q n).heap.next = q.heap.next ∧
      (freePayload q n).mMsgCnt = q.mMsgCnt ∧ ∀ k, k ≠ n → (freePayload q n).held k = q.held k := by
  unfold freePayload
  split
  · next a ha =>
    split
    · next hsize =>
      rw [held_eq_some.mpr ⟨hsize, ha⟩]
      refine ⟨rfl, rfl, rfl, fun k hk => ?_⟩
      show (if (Function.update q.node n _ k).mDataSize = 0 then none
        else (Function.update q.node n _ k).mpData) = _
      rw [Function.update_of_ne hk]
      rfl
    · next hsize =>
      rw [MessageQueueT.held, if_pos (not_not.mp hsize)]
      exact ⟨rfl, rfl, rfl, fun _ _ => rfl⟩
  · next ha =>
    have hnone : q.held n = none := by
      unfold MessageQueueT.held
      rw [ha, ite_self]
    rw [hnone]
    exact ⟨rfl, rfl, rfl, fun _ _ => rfl⟩

theorem freePayloads (ns : List Nat) (hns : ns.Nodup) (q : MessageQueueT) :
    (ns.foldl freePayload q).heap.freed = (ns.filterMap q.held).reverse ++ q.heap.freed ∧
      (ns.foldl freePayload q).heap.next = q.heap.next ∧
      (ns.foldl freePayload q).mMsgCnt = q.mMsgCnt := by
  induction ns generalizing q with
  | nil => exact ⟨rfl, rfl, rfl⟩
  | cons n ns ih =>
    obtain ⟨hn, hns⟩ := List.nodup_cons.mp hns
    obtain ⟨hfreed, hnext, hcnt, hheld⟩ := freePayload_held q n
    obtain ⟨hfreed', hnext', hcnt'⟩ := ih hns (freePayload q n)
    have hrest : ns.filterMap (freePayload q n).held = ns.filterMap q.held :=
      List.filterMap_congr fun k hk => hheld k (ne_of_mem_of_not_mem hk hn)
    rw [List.foldl_cons, hfreed', hnext', hcnt', hnext, hcnt, hrest, hfreed]
    refine ⟨?_, rfl, rfl⟩
    cases h : q.held n with
    | none => rw [List.filterMap_cons_none h]; rfl
    | some a =>
      rw [List.filterMap_cons_some h, List.reverse_cons, List.append_assoc]
      rfl

/-- the blocks that `messageDestroy` frees are those that the nodes hold -/
theorem destroy_freed {q : MessageQueueT} (h : Ledger q) :
    (messageDestroy q).heap.freed = (q.nodes.reverse.filterMap q.held).reverse ++ q.heap.freed ∧
      (messageDestroy q).heap.next = q.heap.next ∧ (messageDestroy q).mMsgCnt = 0 := by
  unfold messageDestroy
  dsimp only
  rw [moveReady q.mReadyMessageList q rfl]
  obtain ⟨hfreed, hnext, hcnt⟩ := freePayloads q.nodes.reverse (List.nodup_reverse.mpr h.owns.nodup)
    { q with
      mIdleMessageList := q.nodes
      mReadyMessageList := []
      mMsgCnt := q.mMsgCnt - q.mReadyMessageList.length }
  refine ⟨hfreed, hnext, hcnt.trans ?_⟩
  show q.mMsgCnt - q.mReadyMessageList.length = 0
  rw [h.cnt, sub_self]

/-- **The ledger at the end**: it is balanced exactly where every live block is held. -/
theorem destroy_balanced {q : MessageQueueT} (h : Ledger q) :
    (∀ a < (messageDestroy q).heap.next, (messageDestroy q).heap.freed.count a = 1) ↔ Held q := by
  obtain ⟨hfreed, hnext, -⟩ := destroy_freed h
  have hmem : ∀ a, a ∈ (q.nodes.reverse.filterMap q.held).reverse ↔
      ∃ n ∈ q.nodes, q.held n = some a := by
    intro a
    rw [List.mem_reverse, List.mem_filterMap]
    simp only [List.mem_reverse]
  -- no block is freed twice: it has one owner, and that one is live
  have hnodup : (messageDestroy q).heap.freed.Nodup := by
    rw [hfreed]
    refine List.Nodup.append ?_ h.nodup ?_
    · refine List.nodup_reverse.mpr (List.pairwise_filterMap.mpr ?_)
      refine (List.nodup_reverse.mpr h.owns.nodup).imp_of_mem fun hn hk hne a ha b hb hab => hne ?_
      rw [← hab] at hb
      exact h.owns.owner _ (List.mem_reverse.mp hn) _ (List.mem_reverse.mp hk) a
        (held_eq_some.mp ha).2
        (held_eq_some.mp hb).2
    · intro a ha hf
      obtain ⟨n, hn, hna⟩ := (hmem a).mp ha
      exact (h.owns.live n hn a (held_eq_some.mp hna).2).2 hf
  rw [hnext]
  refine forall₂_congr fun a ha => ?_
  have hcount : (messageDestroy q).heap.freed.count a = 1 ↔ a ∈ (messageDestroy q).heap.freed :=
    ⟨fun h1 => List.count_pos_iff.mp (h1 ▸ Nat.one_pos), List.count_eq_one_of_mem hnodup⟩
  rw [hcount, hfreed, List.mem_append, hmem, or_comm, or_iff_not_imp_left]

theorem ledger_create (m : Mallocs) : Ledger (messageCreate m).2 ∧ Held (messageCreate m).2 := by
  rw [messageCreate_queue]
  refine ⟨ledger_increase ⟨owns_init, List.nodup_nil, rfl⟩ m, fun a ha => ?_⟩
  rw [increase_heap] at ha
  exact absurd ha (Nat.not_lt_zero a)

/-- **The ledger of a run.**  After `message_destroy` the lists are empty, and every block that was
allocated was freed exactly once if and only if no call allocated a block of size `0`. -/
theorem ledger_iff (m : Mallocs) (calls : List QueueCall) (hok : ∀ c ∈ calls, c.PayloadOk)
    {q : MessageQueueT}
    (hq : messageDestroy (calls.foldl MessageQueueT.serve (messageCreate m).2) = q) :
    (q.mMsgCnt = 0 ∧ q.mIdleMessageList = [] ∧ q.mReadyMessageList = [] ∧ q.mMessageBufList = []) ∧
      ((∀ a < q.heap.next, q.heap.freed.count a = 1) ↔
        Along MessageQueueT.serve NoEmptyBlock (messageCreate m).2 calls) := by
  obtain ⟨hcreate, hheld⟩ := ledger_create m
  have hstep : ∀ q c, Ledger q → c.PayloadOk → Ledger (q.serve c) := fun q c h _ => ledger_serve h c
  have hgood : ∀ q c, Ledger q → c.PayloadOk → NoEmptyBlock q c → Held q → Held (q.serve c) :=
    fun q c h hc hn hq => held_serve h c hc hn hq
  have hbad : ∀ q c, Ledger q → c.PayloadOk → ¬ NoEmptyBlock q c → Lost (q.serve c) :=
    fun q c h hc hn => lost_put h c hc hn
  have hkeep : ∀ q c, Ledger q → c.PayloadOk → Lost q → Lost (q.serve c) :=
    fun q c _ _ h => lost_serve h c
  obtain ⟨hend, -⟩ := along_cases hstep hgood hbad hkeep calls hok hcreate
  have hiff :=
    along_iff hstep hgood hbad hkeep (fun q _ hq ⟨a, ha⟩ => hq.not_keeps a ha) calls hok hcreate
      hheld
  obtain ⟨-, -, hcnt⟩ := destroy_freed hend
  rw [← hq]
  exact ⟨⟨hcnt, rfl, rfl, rfl⟩, (destroy_balanced hend).trans hiff⟩

/-- two payloads, one of them got and the other one still ready when the queue is destroyed -/
def twoPuts : MessageQueueT :=
  messageDestroy ([QueueCall.put hello, .put hello, .get].foldl MessageQueueT.serve createdQueue)

theorem ledger_iff_two :
    twoPuts.heap.next = 2 ∧ twoPuts.heap.freed.count 0 = 1 ∧ twoPuts.heap.freed.count 1 = 1 := by
  have hok : ∀ c ∈ [QueueCall.put hello, .put hello, .get], c.PayloadOk := by
    simp [QueueCall.PayloadOk, hello, PutCall.mallocs, Mallocs.allOk]
  obtain ⟨-, hiff⟩ :=
    ledger_iff .allOk [.put hello, .put hello, .get] hok (show _ = twoPuts from rfl)
  have hsize : hello.msg.mDataSize ≠ 0 := by decide
  have hfreed := hiff.mpr ⟨fun _ _ => hsize, fun _ _ => hsize, trivial, trivial⟩
  have hnext : twoPuts.heap.next = 2 := by decide
  exact ⟨hnext, hfreed 0 (by omega), hfreed 1 (by omega)⟩

/-- a payload of size `0` -/
def hollow : PutCall := .putMessageWithData .allOk ⟨8, 0, 0, 0, some [], 0⟩

/-- its block is never freed -/
theorem hollow_lost :
    (messageDestroy (createdQueue.serve (.put hollow))).heap.next = 1 ∧
      (messageDestroy (createdQueue.serve (.put hollow))).heap.freed.count 0 = 0 := by
  decide

end Pluto

import Pluto.Message.Fifo
import Pluto.Message.Linked

/-!
# The queue of lists and the queue on its links

A node of `MessageQueueT` is a number that counts the messages of all pools; on the links it has the
address that `malloc` gave it.

* `Shows`                 the memory has the lists of the queue under these addresses, and its
  messages;
* `increase_represents`, `put_represents`, `get_represents` each function keeps that, and returns
  the same;
* `Served`                a run of calls, where `malloc` returns new memory;
* `linked_queue_fifo`     a new queue on its links answers as the FIFO answers.
-/

namespace Pluto.Linked
open Links

/-! ## the relation -/

section
variable {s : LinkedQueue} {q : MessageQueueT} {name : Nat → Addr} {pool : MessagePool → Addr}

/-- the lists of a queue under the addresses of their nodes -/
def shown (q : MessageQueueT) (name : Nat → Addr) (pool : MessagePool → Addr) : QueueLists where
  idle := q.mIdleMessageList.map name
  ready := q.mReadyMessageList.map name
  pools := q.mMessageBufList.map pool

theorem shown_idle {n : Nat} {idle : List Nat} (hn : q.mIdleMessageList = n :: idle) :
    (shown q name pool).idle = name n :: idle.map name := by
  rw [shown, hn, List.map_cons]

theorem shown_ready {n : Nat} {ready : List Nat} (hr : q.mReadyMessageList = n :: ready) :
    (shown q name pool).ready = name n :: ready.map name := by
  rw [shown, hr, List.map_cons]

structure Shows (s : LinkedQueue) (q : MessageQueueT) (name : Nat → Addr)
    (pool : MessagePool → Addr) : Prop where
  holds : s.Holds (shown q name pool)
  node : ∀ n ∈ q.mIdleMessageList ++ q.mReadyMessageList, s.node (name n) = q.node n
  heap : s.heap = q.heap
  cnt : s.mMsgCnt = q.mMsgCnt
  poolCnt : s.mMsgPoolCnt = q.mMsgPoolCnt
  below : ∀ n ∈ q.mIdleMessageList ++ q.mReadyMessageList, n < q.brk
  poolsBelow : ∀ p ∈ q.mMessageBufList, p.mpBuffer < q.brk

def Represents (s : LinkedQueue) (q : MessageQueueT) : Prop := ∃ name pool, Shows s q name pool

/-- no two nodes have one address -/
theorem Shows.names (h : Shows s q name pool) : ∀ n ∈ q.mIdleMessageList ++ q.mReadyMessageList,
    ∀ k ∈ q.mIdleMessageList ++ q.mReadyMessageList, name n = name k → n = k := by
  have hidle : (q.mIdleMessageList.map name).Nodup :=
    (List.nodup_cons.mp (h.holds.circular .idle).nodup).2
  have hready : (q.mReadyMessageList.map name).Nodup :=
    (List.nodup_cons.mp (h.holds.circular .ready).nodup).2
  have hdisj : List.Disjoint (q.mIdleMessageList.map name) (q.mReadyMessageList.map name) := by
    intro a hi hr
    exact h.holds.disjoint (show ListName.idle ≠ .ready by decide) (List.mem_cons_of_mem _ hi)
      (List.mem_cons_of_mem _ hr)
  have hnodup : ((q.mIdleMessageList ++ q.mReadyMessageList).map name).Nodup := by
    rw [List.map_append]
    exact hidle.append hready hdisj
  exact fun n hn k hk => List.inj_on_of_nodup_map hnodup hn hk

/-- a message is written to both -/
theorem Shows.update {n : Nat} (h : Shows s q name pool)
    (hn : n ∈ q.mIdleMessageList ++ q.mReadyMessageList) (d : MessageT) :
    ∀ k ∈ q.mIdleMessageList ++ q.mReadyMessageList,
      Function.update s.node (name n) d (name k) = Function.update q.node n d k := by
  intro k hk
  by_cases e : k = n
  · rw [e, Function.update_self, Function.update_self]
  · rw [Function.update_of_ne fun e' => e (h.names k hk n hn e'), Function.update_of_ne e,
      h.node k hk]

/-! ## new nodes -/

theorem bufferNodes_eq (buf : Addr) :
    bufferNodes buf = (List.range maxMessageElements).map fun i => buf + sizeofMessage * i := by
  apply List.ext_getElem
  · rw [bufferNodes, List.length_range', List.length_map, List.length_range]
  · intro i h1 h2
    rw [List.getElem_map, List.getElem_range]
    exact List.getElem_range' ..

/-- the addresses with those of the nodes of a new pool -/
theorem exists_names (name : Nat → Addr) (brk : Nat) (buf : Addr) :
    ∃ name' : Nat → Addr, (∀ n < brk, name' n = name n) ∧
      (MessagePool.mk brk).nodes.map name' = bufferNodes buf := by
  refine ⟨fun n => if n < brk then name n else buf + sizeofMessage * (n - brk),
    fun n hn => if_pos hn, ?_⟩
  rw [MessagePool.nodes, List.map_map, bufferNodes_eq]
  refine List.map_congr_left fun i _ => ?_
  show (if brk + i < brk then name (brk + i) else buf + sizeofMessage * (brk + i - brk)) = _
  rw [if_neg (by omega), Nat.add_sub_cancel_left]

theorem exists_pools (pool : MessagePool → Addr) (brk : Nat) (d : Addr) :
    ∃ pool' : MessagePool → Addr, (∀ p : MessagePool, p.mpBuffer < brk → pool' p = pool p) ∧
      pool' ⟨brk⟩ = d :=
  ⟨fun p => if p.mpBuffer < brk then pool p else d, fun _ hp => if_pos hp, if_neg (lt_irrefl brk)⟩

/-- what the allocations are to the queue of lists -/
def Blocks.mallocs (m : Blocks) : Mallocs := ⟨m.descriptor.isSome, m.buffer.isSome, m.payload⟩

/-- the fields that are not links -/
theorem increase_fields (s : LinkedQueue) {m : Blocks} {d buf : Addr} (hd : m.descriptor = some d)
    (hb : m.buffer = some buf) : ∃ t, (messageIncreaseIdleMessageList m s).2 = t ∧
      t.node = (fun a => if a ∈ bufferNodes buf then MessageT.zero else s.node a) ∧
      t.heap = s.heap ∧
      t.mMsgCnt = s.mMsgCnt ∧ t.mMsgPoolCnt = s.mMsgPoolCnt + 1 := by
  unfold messageIncreaseIdleMessageList
  simp only [hd, hb]
  exact ⟨_, rfl, rfl, rfl, rfl, rfl⟩

section
variable {name' : Nat → Addr} {pool' : MessagePool → Addr} {m : Blocks} {d buf : Addr}

/-- the lists with a new pool, where the old nodes and pools keep their addresses -/
theorem shown_addPool (h : Shows s q name pool) (hname : ∀ n < q.brk, name' n = name n)
    (hnew : (MessagePool.mk q.brk).nodes.map name' = bufferNodes buf)
    (hpool : ∀ p : MessagePool, p.mpBuffer < q.brk → pool' p = pool p) (hpool' : pool' ⟨q.brk⟩ = d)
    (hd : m.descriptor = some d) (hb : m.buffer = some buf) :
    shown q.addPool name' pool' = ((shown q name pool).grow m).2 := by
  have hold : ∀ ns : List Nat, (∀ n ∈ ns, n ∈ q.mIdleMessageList ++ q.mReadyMessageList) →
      ns.map name' = ns.map name := fun ns hns =>
    List.map_congr_left fun n hn => hname n (h.below n (hns n hn))
  unfold QueueLists.grow shown
  rw [hd, hb]
  show QueueLists.mk ((q.mIdleMessageList ++ (MessagePool.mk q.brk).nodes).map name')
    (q.mReadyMessageList.map name')
    ((q.mMessageBufList ++ [MessagePool.mk q.brk]).map pool') = _
  rw [List.map_append, hnew, hold _ (fun n hn => List.mem_append_left _ hn),
    hold _ (fun n hn => List.mem_append_right _ hn), List.map_append, List.map_singleton, hpool',
    List.map_congr_left fun p hp => hpool p (h.poolsBelow p hp)]

/-- an old node is at an address that the new buffer does not have -/
theorem Blocks.Fresh.not_new {n : Nat} (hm : m.Fresh s (shown q name pool))
    (hb : m.buffer = some buf) (hn : n ∈ q.mIdleMessageList ++ q.mReadyMessageList) :
    name n ∉ bufferNodes buf := by
  intro hmem
  rcases List.mem_append.mp hn with hn | hn
  · exact hm.nodes buf hb _ hmem .idle (List.mem_cons_of_mem _ (List.mem_map_of_mem hn))
  · exact hm.nodes buf hb _ hmem .ready (List.mem_cons_of_mem _ (List.mem_map_of_mem hn))

theorem addPool_shows (h : Shows s q name pool) (hm : m.Fresh s (shown q name pool))
    (hd : m.descriptor = some d) (hb : m.buffer = some buf) :
    Represents (messageIncreaseIdleMessageList m s).2 q.addPool := by
  obtain ⟨name', hname, hnew⟩ := exists_names name q.brk buf
  obtain ⟨pool', hpool, hpool'⟩ := exists_pools pool q.brk d
  have hlists := shown_addPool h hname hnew hpool hpool' hd hb
  have hholds := (increase_step h.holds hm).2.holds
  obtain ⟨t, ht, hnode, hheap, hcnt, hpoolCnt⟩ := increase_fields s hd hb
  rw [ht] at hholds ⊢
  have hnodes : ∀ n ∈ q.addPool.mIdleMessageList ++ q.addPool.mReadyMessageList,
      n ∈ q.mIdleMessageList ++ q.mReadyMessageList ∨ n ∈ (MessagePool.mk q.brk).nodes :=
    fun n hn => List.mem_append.mp ((addPool_perm q).mem_iff.mp hn)
  refine ⟨name', pool', hlists ▸ hholds, ?_, hheap.trans h.heap, hcnt.trans h.cnt, ?_, ?_, ?_⟩
  · intro n hn
    rw [hnode]
    show (if name' n ∈ bufferNodes buf then MessageT.zero else s.node (name' n))
      = if n ∈ (MessagePool.mk q.brk).nodes then MessageT.zero else q.node n
    rcases hnodes n hn with hn | hn
    · rw [hname n (h.below n hn), if_neg (hm.not_new hb hn), if_neg (addPool_new h.below hn),
        h.node n hn]
    · rw [if_pos hn, if_pos (hnew ▸ List.mem_map_of_mem hn)]
  · rw [hpoolCnt, h.poolCnt]
    rfl
  · intro n hn
    show n < q.brk + maxMessageElements
    rcases hnodes n hn with hn | hn
    · exact Nat.lt_add_right _ (h.below n hn)
    · exact (((MessagePool.mk q.brk).mem_nodes n).mp hn).2
  · intro p hp
    show p.mpBuffer < q.brk + maxMessageElements
    rcases List.mem_append.mp hp with hp | hp
    · exact Nat.lt_add_right _ (h.poolsBelow p hp)
    · rw [List.mem_singleton.mp hp]
      exact Nat.lt_add_of_pos_right (by decide)

end

/-! ## the functions -/

theorem increase_represents (h : Shows s q name pool) {m : Blocks}
    (hm : m.Fresh s (shown q name pool)) :
    (messageIncreaseIdleMessageList m s).1 = (Pluto.messageIncreaseIdleMessageList m.mallocs q).1 ∧
      Represents (messageIncreaseIdleMessageList m s).2
        (Pluto.messageIncreaseIdleMessageList m.mallocs q).2 := by
  cases hd : m.descriptor with
  | none =>
    have hlinked : messageIncreaseIdleMessageList m s = (-1, s) := by
      unfold messageIncreaseIdleMessageList
      simp only [hd]
    have hlists : Pluto.messageIncreaseIdleMessageList m.mallocs q = (-1, q) := by
      unfold Pluto.messageIncreaseIdleMessageList Blocks.mallocs
      simp only [hd, Option.isSome_none, if_true]
    rw [hlinked, hlists]
    exact ⟨rfl, name, pool, h⟩
  | some d =>
    cases hb : m.buffer with
    | none =>
      have hlinked : messageIncreaseIdleMessageList m s
          = (-1, { s with mMsgPoolCnt := s.mMsgPoolCnt + 1, freed := d :: s.freed }) := by
        unfold messageIncreaseIdleMessageList
        simp only [hd, hb]
      have hlists : Pluto.messageIncreaseIdleMessageList m.mallocs q
          = (-1, { q with mMsgPoolCnt := q.mMsgPoolCnt + 1 }) := by
        unfold Pluto.messageIncreaseIdleMessageList Blocks.mallocs
        simp only [hd, hb, Option.isSome_none, Option.isSome_some, if_true, Bool.true_eq_false,
          if_false]
      rw [hlinked, hlists]
      exact ⟨rfl, name, pool, h.holds, h.node, h.heap, h.cnt, congrArg (· + 1) h.poolCnt, h.below,
        h.poolsBelow⟩
    | some buf =>
      have hret : (messageIncreaseIdleMessageList m s).1 = 0 := by
        unfold messageIncreaseIdleMessageList
        simp only [hd, hb]
      obtain ⟨h0, hq⟩ :=
        increase_allOk m.mallocs (by rw [Blocks.mallocs, hd]; rfl)
          (by rw [Blocks.mallocs, hb]; rfl) q
      rw [hret, h0, hq]
      exact ⟨rfl, addPool_shows h hm hd hb⟩

/-- the put into the node that both have in front, with the copy `r` -/
theorem putFirstIdle_shown (h : Shows s q name pool) {n : Nat} {idle : List Nat}
    (hn : q.mIdleMessageList = n :: idle) {ok : Bool} {msg : MsgIn}
    {r : Int × MessageT × PayloadHeap} (hr : messageDeepCopyMessage ok q.heap (q.node n) msg = r) :
    putFirstIdle ok s msg = if r.1 = 0 then (0, { s with
        node := Function.update s.node (name n) r.2.1
        heap := r.2.2
        links := listMoveTail s.links (name n) s.mReadyMessageList
        mMsgCnt := s.mMsgCnt + 1 })
      else (-1, { s with node := Function.update s.node (name n) r.2.1, heap := r.2.2 }) := by
  have hfirst : s.links.next s.mIdleMessageList = name n :=
    h.holds.first (i := .idle) (shown_idle hn)
  have hmem : n ∈ q.mIdleMessageList ++ q.mReadyMessageList := by
    rw [hn]
    exact List.mem_append_left _ List.mem_cons_self
  unfold putFirstIdle
  rw [hfirst]
  dsimp only
  rw [h.node n hmem, h.heap, hr]

theorem putFirstIdle_shows (h : Shows s q name pool) (hidle : q.mIdleMessageList ≠ []) (ok : Bool)
    (msg : MsgIn) :
    (putFirstIdle ok s msg).1 = (Pluto.putFirstIdle ok q msg).1 ∧
      Shows (putFirstIdle ok s msg).2 (Pluto.putFirstIdle ok q msg).2 name pool := by
  obtain ⟨n, idle, hn⟩ := List.exists_cons_of_ne_nil hidle
  have hmem : n ∈ q.mIdleMessageList ++ q.mReadyMessageList := by
    rw [hn]
    exact List.mem_append_left _ List.mem_cons_self
  obtain ⟨-, hstep⟩ :=
    putFirstIdle_step h.holds (by rw [shown_idle hn]; exact List.cons_ne_nil _ _) ok msg
  have hholds := hstep.holds
  unfold QueueLists.put at hholds
  obtain ⟨r, hr⟩ : ∃ r, messageDeepCopyMessage ok q.heap (q.node n) msg = r := ⟨_, rfl⟩
  have hret : r.1 = if copies ok msg then 0 else -1 := by rw [← hr, deepCopy_ret]
  rw [shown_idle hn, putFirstIdle_shown h hn hr] at hholds
  rw [putFirstIdle_shown h hn hr, putFirstIdle_eq hn hr]
  cases hc : copies ok msg with
  | true =>
    have h0 : r.1 = 0 := by rw [hret, hc, if_pos rfl]
    rw [if_pos h0, hc] at hholds
    rw [if_pos h0, if_pos h0]
    have hperm : ∀ k ∈ idle ++ (q.mReadyMessageList ++ [n]),
        k ∈ q.mIdleMessageList ++ q.mReadyMessageList := by
      intro k hk
      rw [hn]
      simp only [List.mem_append, List.mem_cons] at hk ⊢
      tauto
    refine ⟨rfl, ?_, fun k hk => h.update hmem r.2.1 k (hperm k hk), rfl, congrArg (· + 1) h.cnt,
      h.poolCnt, fun k hk => h.below k (hperm k hk), h.poolsBelow⟩
    show LinkedQueue.Holds _ ⟨idle.map name, (q.mReadyMessageList ++ [n]).map name,
      q.mMessageBufList.map pool⟩
    rw [List.map_append, List.map_singleton]
    exact hholds
  | false =>
    have h1 : ¬ r.1 = 0 := by
      rw [hret, hc]
      decide
    rw [if_neg h1, hc] at hholds
    rw [if_neg h1, if_neg h1]
    exact ⟨rfl, hholds, h.update hmem r.2.1, rfl, h.cnt, h.poolCnt, h.below, h.poolsBelow⟩

/-- a pool has nodes -/
theorem increase_idle_ne_nil {m : Mallocs} (h : (Pluto.messageIncreaseIdleMessageList m q).1 = 0) :
    (Pluto.messageIncreaseIdleMessageList m q).2.mIdleMessageList ≠ [] := by
  unfold Pluto.messageIncreaseIdleMessageList at h ⊢
  cases hd : m.descriptor with
  | false => simp [hd] at h
  | true =>
    cases hb : m.buffer with
    | false => simp [hd, hb] at h
    | true => simp [MessagePool.nodes, maxMessageElements]

theorem put_represents (h : Shows s q name pool) {m : Blocks} (hm : m.Fresh s (shown q name pool))
    (msg : MsgIn) :
    (putMessageWithData m s msg).1 = (Pluto.putMessageWithData m.mallocs q msg).1 ∧
      Represents (putMessageWithData m s msg).2 (Pluto.putMessageWithData m.mallocs q msg).2 := by
  have hempty : listEmpty s.links s.mIdleMessageList = true ↔ q.mIdleMessageList = [] :=
    (h.holds.empty_iff .idle).trans List.map_eq_nil_iff
  unfold putMessageWithData Pluto.putMessageWithData
  by_cases hidle : q.mIdleMessageList = []
  · rw [if_pos (hempty.mpr hidle), if_pos hidle]
    obtain ⟨hret, name', pool', hgrown⟩ := increase_represents h hm
    dsimp only
    rw [hret]
    by_cases h0 : (Pluto.messageIncreaseIdleMessageList m.mallocs q).1 = 0
    · rw [if_neg (not_not.mpr h0), if_neg (not_not.mpr h0)]
      have hne : (Pluto.messageIncreaseIdleMessageList m.mallocs q).2.mIdleMessageList ≠ [] :=
        increase_idle_ne_nil h0
      obtain ⟨hput, hshows⟩ := putFirstIdle_shows hgrown hne m.payload msg
      exact ⟨hput, name', pool', hshows⟩
    · rw [if_pos h0, if_pos h0]
      exact ⟨rfl, name', pool', hgrown⟩
  · rw [if_neg (hempty.not.mpr hidle), if_neg hidle]
    obtain ⟨hput, hshows⟩ := putFirstIdle_shows h hidle m.payload msg
    exact ⟨hput, name, pool, hshows⟩

theorem get_represents (h : Shows s q name pool) :
    (getMessage s).1 = (Pluto.getMessage q).1 ∧ (getMessage s).2.1 = (Pluto.getMessage q).2.1 ∧
      Shows (getMessage s).2.2 (Pluto.getMessage q).2.2 name pool := by
  have hempty : listEmpty s.links s.mReadyMessageList = true ↔ q.mReadyMessageList = [] :=
    (h.holds.empty_iff .ready).trans List.map_eq_nil_iff
  obtain ⟨-, -, hstep⟩ := get_step h.holds
  have hholds := hstep.holds
  cases hr : q.mReadyMessageList with
  | nil =>
    have hs : getMessage s = (-1, none, s) := by
      unfold getMessage
      rw [if_pos (hempty.mpr hr)]
    have hq : Pluto.getMessage q = (-1, none, q) := by
      unfold Pluto.getMessage
      rw [hr]
    rw [hs, hq]
    exact ⟨rfl, rfl, h⟩
  | cons n ready =>
    have hmem : n ∈ q.mIdleMessageList ++ q.mReadyMessageList := by
      rw [hr]
      exact List.mem_append_right _ List.mem_cons_self
    have hfirst : s.links.next s.mReadyMessageList = name n :=
      h.holds.first (i := .ready) (shown_ready hr)
    have hs : getMessage s = (0, some (q.node n), { s with
        links := listMoveTail s.links (name n) s.mIdleMessageList
        mMsgCnt := s.mMsgCnt - 1 }) := by
      unfold getMessage
      rw [if_neg (hempty.not.mpr (hr ▸ List.cons_ne_nil n ready)), hfirst]
      dsimp only
      rw [h.node n hmem]
    have hq : Pluto.getMessage q
        = (0, some (takeFirstReady q n ready).1, (takeFirstReady q n ready).2) := by
      unfold Pluto.getMessage
      rw [hr]
    have hperm : ∀ k ∈ q.mIdleMessageList ++ [n] ++ ready,
        k ∈ q.mIdleMessageList ++ q.mReadyMessageList := by
      intro k hk
      rwa [hr, List.append_cons]
    unfold QueueLists.get at hholds
    rw [hs, shown_ready hr] at hholds
    rw [hs, hq]
    refine ⟨rfl, rfl, ?_, fun k hk => h.node k (hperm k hk), h.heap, congrArg (· - 1) h.cnt,
      h.poolCnt, fun k hk => h.below k (hperm k hk), h.poolsBelow⟩
    show LinkedQueue.Holds _ ⟨(q.mIdleMessageList ++ [n]).map name, ready.map name,
      q.mMessageBufList.map pool⟩
    rw [List.map_append, List.map_singleton]
    exact hholds

/-! ## the end of a queue -/

theorem moveReady_shows {n : Nat} {ready : List Nat} (h : Shows s q name pool)
    (hr : q.mReadyMessageList = n :: ready) :
    Shows (moveReady s (name n)) (moveFirstReady q n) name pool := by
  have hperm : ∀ k ∈ q.mIdleMessageList ++ [n] ++ q.mReadyMessageList.tail,
      k ∈ q.mIdleMessageList ++ q.mReadyMessageList := by
    intro k hk
    rw [hr, List.tail_cons] at hk
    rwa [hr, List.append_cons]
  have hstep : Step s (shown q name pool) (moveReady s (name n))
      (shown (moveFirstReady q n) name pool)
      [.ready, .idle] := by
    refine Step.move h.holds (i := .ready) (shown_ready hr) (by decide) rfl rfl ?_
    show QueueLists.list ⟨(q.mIdleMessageList ++ [n]).map name, q.mReadyMessageList.tail.map name,
      _⟩ = _
    rw [List.map_append, List.map_singleton, hr, List.tail_cons]
    funext i
    cases i <;> rfl
  exact ⟨hstep.holds, fun k hk => h.node k (hperm k hk), h.heap, congrArg (· - 1) h.cnt, h.poolCnt,
    fun k hk => h.below k (hperm k hk), h.poolsBelow⟩

theorem drain_shows (h : Shows s q name pool) :
    Shows ((q.mReadyMessageList.map name).foldl moveReady s)
      (q.mReadyMessageList.foldl moveFirstReady q) name pool := by
  obtain ⟨ready, hready⟩ : ∃ ready, ready = q.mReadyMessageList := ⟨_, rfl⟩
  rw [← hready]
  induction ready generalizing s q with
  | nil => exact h
  | cons n ready ih =>
    refine ih (moveReady_shows h hready.symm) ?_
    show ready = q.mReadyMessageList.tail
    rw [← hready, List.tail_cons]

theorem freePayload_shows {n : Nat} (h : Shows s q name pool)
    (hn : n ∈ q.mIdleMessageList ++ q.mReadyMessageList) :
    Shows (freePayload s (name n)) (Pluto.freePayload q n) name pool := by
  unfold freePayload Pluto.freePayload
  rw [h.node n hn]
  cases (q.node n).mpData with
  | none => exact h
  | some a =>
    dsimp only
    by_cases hsize : (q.node n).mDataSize ≠ 0
    · rw [if_pos hsize, if_pos hsize]
      exact ⟨h.holds, h.update hn _, congrArg (·.free a) h.heap, h.cnt, h.poolCnt, h.below,
        h.poolsBelow⟩
    · rw [if_neg hsize, if_neg hsize]
      exact h

/-- the lists are not touched -/
theorem freePayload_lists (q : MessageQueueT) (n : Nat) :
    (Pluto.freePayload q n).mIdleMessageList = q.mIdleMessageList ∧
      (Pluto.freePayload q n).mReadyMessageList = q.mReadyMessageList := by
  unfold Pluto.freePayload
  cases (q.node n).mpData with
  | none => exact ⟨rfl, rfl⟩
  | some a =>
    dsimp only
    split
    · exact ⟨rfl, rfl⟩
    · exact ⟨rfl, rfl⟩

theorem foldl_freePayload_shows {ns : List Nat} (h : Shows s q name pool)
    (hns : ∀ n ∈ ns, n ∈ q.mIdleMessageList ++ q.mReadyMessageList) :
    Shows ((ns.map name).foldl freePayload s) (ns.foldl Pluto.freePayload q) name pool := by
  induction ns generalizing s q with
  | nil => exact h
  | cons n ns ih =>
    obtain ⟨hidle, hready⟩ := freePayload_lists q n
    refine ih (freePayload_shows h (hns n List.mem_cons_self)) fun k hk => ?_
    rw [hidle, hready]
    exact hns k (List.mem_cons_of_mem n hk)

theorem foldl_moveFirstReady_idle (ns : List Nat) (q : MessageQueueT) :
    (ns.foldl moveFirstReady q).mIdleMessageList = q.mIdleMessageList ++ ns := by
  induction ns generalizing q with
  | nil => exact (List.append_nil _).symm
  | cons n ns ih =>
    rw [List.foldl_cons, ih]
    exact (List.append_cons ..).symm

/-- **The end of a queue** on its links: with a round for every node it ends, with the payloads and
the count that the queue of lists ends with, and no list has a node left. -/
theorem destroy_represents (h : Shows s q name pool) {fuel : Nat}
    (hnodes : q.mIdleMessageList.length + q.mReadyMessageList.length < fuel)
    (hpools : q.mMessageBufList.length < fuel) :
    ∃ s', messageDestroy fuel s = some s' ∧ s'.Holds ⟨[], [], []⟩ ∧
      s'.heap = (Pluto.messageDestroy q).heap ∧
      s'.mMsgCnt = (Pluto.messageDestroy q).mMsgCnt := by
  have hrounds : (shown q name pool).idle.length + (shown q name pool).ready.length < fuel := by
    unfold shown
    rwa [List.length_map, List.length_map]
  have hrounds' : (shown q name pool).pools.length < fuel := by
    unfold shown
    rwa [List.length_map]
  obtain ⟨hrun, hholds, -⟩ := destroy_holds h.holds hrounds hrounds'
  have hidle := foldl_moveFirstReady_idle q.mReadyMessageList q
  have hmem : ∀ n ∈ (q.mReadyMessageList.foldl moveFirstReady q).mIdleMessageList.reverse,
      n ∈ (q.mReadyMessageList.foldl moveFirstReady q).mIdleMessageList
        ++ (q.mReadyMessageList.foldl moveFirstReady q).mReadyMessageList := fun n hn =>
    List.mem_append_left _ (List.mem_reverse.mp hn)
  have hshows := foldl_freePayload_shows (drain_shows h) hmem
  have hswept : s.swept (shown q name pool) = (q.mMessageBufList.map pool).foldl freePool
      (((q.mReadyMessageList.foldl moveFirstReady q).mIdleMessageList.reverse.map name).foldl
        freePayload
        ((q.mReadyMessageList.map name).foldl moveReady s)) := by
    rw [hidle, List.map_reverse, List.map_append]
    rfl
  obtain ⟨hheap, hcnt⟩ := foldl_freePool_keeps (q.mMessageBufList.map pool)
    (((q.mReadyMessageList.foldl moveFirstReady q).mIdleMessageList.reverse.map name).foldl
      freePayload
      ((q.mReadyMessageList.map name).foldl moveReady s))
  refine ⟨_, hrun, hholds, ?_, ?_⟩
  · show (s.swept (shown q name pool)).heap = _
    rw [hswept, hheap, hshows.heap]
    rfl
  · show (s.swept (shown q name pool)).mMsgCnt = _
    rw [hswept, hcnt, hshows.cnt]
    rfl

end

/-! ## runs -/

section
variable {s s' : LinkedQueue} {q : MessageQueueT}

def LinkedQueue.call (s : LinkedQueue) (m : Blocks) : QueueOp → QueueRet × LinkedQueue
  | .putMessage msg =>
    let r := putMessage m s msg
    (.put r.1, r.2)
  | .putMessageWithData msg =>
    let r := putMessageWithData m s msg
    (.put r.1, r.2)
  | .getMessage =>
    let r := getMessage s
    (.get r.1 (r.2.1.bind fun msg => msg.read r.2.2.heap), r.2.2)
  | .getMessageCount => (.count (getMessageCount s), s)

/-- calls one after the other, where every allocation succeeds and returns new memory -/
inductive Served : LinkedQueue → List QueueOp → List QueueRet → LinkedQueue → Prop where
  | done (s : LinkedQueue) : Served s [] [] s
  | call {s s' : LinkedQueue} {L : QueueLists} {m : Blocks} {op : QueueOp} {ops : List QueueOp}
      {rets : List QueueRet} : s.Holds L → m.mallocs = .allOk → m.Fresh s L →
        Served (s.call m op).2 ops rets s' →
      Served s (op :: ops) ((s.call m op).1 :: rets) s'

theorem call_represents {L : QueueLists} {m : Blocks} (h : Represents s q) (hL : s.Holds L)
    (hgrant : m.mallocs = .allOk) (hm : m.Fresh s L) (op : QueueOp) :
    (s.call m op).1 = (q.call op).1 ∧ Represents (s.call m op).2 (q.call op).2 := by
  obtain ⟨name, pool, h⟩ := h
  obtain rfl := hL.unique h.holds
  have hput : ∀ msg, (putMessageWithData m s msg).1 = (Pluto.putMessageWithData .allOk q msg).1 ∧
      Represents (putMessageWithData m s msg).2 (Pluto.putMessageWithData .allOk q msg).2 :=
    fun msg => hgrant ▸ put_represents h hm msg
  cases op with
  | putMessage msg =>
    obtain ⟨hret, hnext⟩ := hput msg.withoutData
    exact ⟨congrArg QueueRet.put hret, hnext⟩
  | putMessageWithData msg =>
    obtain ⟨hret, hnext⟩ := hput msg
    exact ⟨congrArg QueueRet.put hret, hnext⟩
  | getMessage =>
    obtain ⟨hret, hmsg, hnext⟩ := get_represents h
    refine ⟨?_, name, pool, hnext⟩
    show QueueRet.get (getMessage s).1
      ((getMessage s).2.1.bind fun msg => msg.read (getMessage s).2.2.heap)
      = QueueRet.get (Pluto.getMessage q).1 ((Pluto.getMessage q).2.1.bind _)
    rw [hret, hmsg, hnext.heap]
  | getMessageCount => exact ⟨congrArg QueueRet.count h.cnt, name, pool, h⟩

theorem served_represents {ops : List QueueOp} {rets : List QueueRet} (h : Represents s q)
    (hrun : Served s ops rets s') :
    (runQueue q ops).1 = rets ∧ Represents s' (runQueue q ops).2 := by
  induction hrun generalizing q with
  | done s => exact ⟨rfl, h⟩
  | call hL hgrant hm _ ih =>
    obtain ⟨hret, hnext⟩ := call_represents h hL hgrant hm _
    obtain ⟨hrets, hend⟩ := ih hnext
    exact ⟨congrArg₂ List.cons hret.symm hrets, hend⟩

/-- a new queue on its links represents the new queue of lists -/
theorem create_represents {m : Blocks} (hq : s.Apart) (hheap : s.heap = MessageQueueT.init.heap)
    (hgrant : m.mallocs = .allOk) (hm : m.Fresh s ⟨[], [], []⟩) :
    Represents (messageCreate m s).2 createdQueue := by
  have hinit : Shows (initQueue s) MessageQueueT.init id MessagePool.mpBuffer :=
    ⟨initQueue_holds hq, nofun, hheap, rfl, rfl, nofun, nofun⟩
  obtain ⟨-, hshows⟩ := increase_represents hinit ⟨hm.pool, hm.nodes, hm.apart⟩
  rw [hgrant] at hshows
  rw [messageCreate_eq, createdQueue, messageCreate_queue]
  exact hshows

/-- **The queue on its links is a FIFO.**  Any order of calls on a new queue, where every allocation
returns memory that no list has, gives the answers of the FIFO. -/
theorem linked_queue_fifo {m : Blocks} (hq : s.Apart) (hheap : s.heap = MessageQueueT.init.heap)
    (hgrant : m.mallocs = .allOk) (hm : m.Fresh s ⟨[], [], []⟩) {ops : List QueueOp}
    (hops : ∀ op ∈ ops, op.Wf) {rets : List QueueRet}
    (hrun : Served (messageCreate m s).2 ops rets s') : rets = (fifoRun [] ops).1 := by
  obtain ⟨hrets, -⟩ := served_represents (create_represents hq hheap hgrant hm) hrun
  exact hrets.symm.trans (runQueue_fifo inv_create ops hops).1

/-- a message is put into a new queue -/
example : ∃ rets t, Served newQueue [.putMessageWithData ⟨1, 10, 0, 0, some [7, 8], 2⟩] rets t := by
  have hm : Blocks.Fresh ⟨some 80, some 8192, true⟩ newQueue ⟨bufferNodes 4096, [], [64]⟩ :=
    fresh_some true (by decide) (by decide)
  exact ⟨_, _, .call newQueue_holds rfl hm (.done _)⟩

end

end Pluto.Linked

import Pluto.Message.Fifo

/-!
# How long a payload stays

A message that was got has the address of its node's own payload block, and the node goes to the
end of the idle list.  The next put that reuses the node frees the block.

* `DeepCopied`     what one copy into a node does to the blocks, whatever its allocation does;
* `Owns`           every block belongs to one node and is live; kept by every call (`owns_put`,
  `owns_get`);
* `Awaits q n a k` the node `n` with the block `a` has `k` idle nodes in front of it;
* `payload_kept_iff`   a block is freed by the first put behind `k` successful ones.
-/

namespace Pluto
open Octets

/-! ## one copy -/

/-- the copy of this message succeeds, where `ok` is the result of its allocation -/
def MsgIn.copies (ok : Bool) (src : MsgIn) : Bool :=
  src.mpData.isNone || decide (src.mDataSize < 0) || ok

structure DeepCopied (ok : Bool) (heap : PayloadHeap) (dst : MessageT) (src : MsgIn)
    (r : Int × MessageT × PayloadHeap) : Prop where
  ret : r.1 = 0 ↔ src.copies ok = true
  freed : r.2.2.freed = if dst.mDataSize = 0 then heap.freed else dst.mpData.toList ++ heap.freed
  next : heap.next ≤ r.2.2.next
  owned : ∀ a, r.2.1.mpData = some a →
    dst.mpData = some a ∧ dst.mDataSize = 0 ∧ r.2.1.mDataSize = 0 ∨
      a = heap.next ∧ heap.next < r.2.2.next
  block : ∀ a, a < heap.next → (dst.mpData = some a → dst.mDataSize = 0) →
    r.2.2.block a = heap.block a

/-- a node that owns no block, or one of size `0`, keeps what it has unless it gets a new block -/
theorem deepCopied_empty (ok : Bool) (heap : PayloadHeap) (dst : MessageT) (src : MsgIn)
    (hdst : dst.mpData ≠ none → dst.mDataSize = 0) :
    DeepCopied ok heap dst src (messageDeepCopyMessage ok heap dst src) := by
  obtain ⟨did, dcmd, dp0, dp1, ddata, dsize⟩ := dst
  obtain ⟨sid, scmd, sp0, sp1, sdata, ssize⟩ := src
  have hheap : heap.freed = if dsize = 0 then heap.freed else ddata.toList ++ heap.freed := by
    cases ddata with
    | none => exact (ite_self _).symm
    | some a => rw [if_pos (hdst (Option.some_ne_none a))]
  -- the old block stays where it is
  have hkeep : (MsgIn.mk sid scmd sp0 sp1 sdata ssize).copies ok = true →
      DeepCopied ok heap ⟨did, dcmd, dp0, dp1, ddata, dsize⟩ ⟨sid, scmd, sp0, sp1, sdata, ssize⟩
        (0, ⟨sid, scmd, sp0, sp1, ddata, dsize⟩, heap) := by
    intro hcopies
    refine ⟨iff_of_true rfl hcopies, hheap, le_rfl, fun a (ha : ddata = some a) => Or.inl ?_,
      fun _ _ _ => rfl⟩
    have hsize : dsize = 0 := hdst (by rw [ha]; exact Option.some_ne_none a)
    exact ⟨ha, hsize, hsize⟩
  rw [deepCopy_empty ok heap _ _ hdst]
  cases sdata with
  | none => exact hkeep rfl
  | some b =>
    dsimp only
    by_cases hs : ssize ≥ 0
    · rw [if_pos hs]
      cases ok with
      | true =>
        have hcopies : (MsgIn.mk sid scmd sp0 sp1 (some b) ssize).copies true = true :=
          Bool.or_true _
        refine ⟨iff_of_true rfl hcopies, hheap, Nat.le_succ _, ?_, ?_⟩
        · rintro a ⟨rfl⟩
          exact Or.inr ⟨rfl, Nat.lt_succ_self _⟩
        · intro a ha _
          exact Function.update_of_ne ha.ne ..
      | false =>
        have hcopies : ¬ (MsgIn.mk sid scmd sp0 sp1 (some b) ssize).copies false = true := by
          simp [MsgIn.copies, hs]
        have hfailed : (-1 : Int) ≠ 0 := by decide
        exact ⟨iff_of_false hfailed hcopies, hheap, le_rfl,
          fun a ha => absurd ha.symm (Option.some_ne_none a), fun _ _ _ => rfl⟩
    · rw [if_neg hs]
      exact hkeep (by simpa [MsgIn.copies] using Or.inl (lt_of_not_ge hs))

/-- **What one copy does to the blocks**: the old block of the node is freed unless its size is
`0`. -/
theorem deepCopied (ok : Bool) (heap : PayloadHeap) (dst : MessageT) (src : MsgIn) :
    DeepCopied ok heap dst src (messageDeepCopyMessage ok heap dst src) := by
  by_cases hdst : dst.mpData ≠ none → dst.mDataSize = 0
  · exact deepCopied_empty ok heap dst src hdst
  · obtain ⟨hdata, hsize⟩ := Classical.not_imp.mp hdst
    obtain ⟨a, ha⟩ := Option.ne_none_iff_exists'.mp hdata
    rw [deepCopy_release ok heap src ha hsize]
    obtain ⟨hret, hfreed, hnext, howned, hblock⟩ :=
      deepCopied_empty ok (heap.free a) { dst with mpData := none, mDataSize := 0 } src
        (fun h => absurd rfl h)
    refine ⟨hret, ?_, hnext, ?_, ?_⟩
    · rw [hfreed, if_pos rfl, if_neg hsize, ha]
      rfl
    · intro b hb
      rcases howned b hb with ⟨h, -⟩ | h
      · cases h
      · exact Or.inr h
    · intro b hb hold
      have hne : b ≠ a := fun e => hsize (hold (e ▸ ha))
      rw [hblock b hb nofun]
      exact Function.update_of_ne hne ..

theorem DeepCopied.fresh {ok : Bool} {heap : PayloadHeap} {dst : MessageT} {src : MsgIn}
    {r : Int × MessageT × PayloadHeap} (h : DeepCopied ok heap dst src r)
    (hdst : ∀ a, dst.mpData = some a → a < heap.next) (hfreed : ∀ a ∈ heap.freed, a < heap.next) :
    ∀ a ∈ r.2.2.freed, a < heap.next := by
  intro a ha
  rw [h.freed] at ha
  split at ha
  · exact hfreed a ha
  · rcases List.mem_append.mp ha with ha | ha
    · exact hdst a (Option.mem_toList.mp ha)
    · exact hfreed a ha

/-! ## every block belongs to one node -/

def MessageQueueT.nodes (q : MessageQueueT) : List Nat := q.mIdleMessageList ++ q.mReadyMessageList

structure Owns (q : MessageQueueT) : Prop where
  nodup : q.nodes.Nodup
  below : ∀ n ∈ q.nodes, n < q.brk
  live : ∀ n ∈ q.nodes, ∀ a, (q.node n).mpData = some a → a < q.heap.next ∧ a ∉ q.heap.freed
  owner : ∀ n ∈ q.nodes, ∀ k ∈ q.nodes, ∀ a, (q.node n).mpData = some a →
    (q.node k).mpData = some a → n = k
  freed : ∀ a ∈ q.heap.freed, a < q.heap.next

/-- nodes that only change places keep their blocks -/
theorem Owns.perm {q q' : MessageQueueT} (h : Owns q) (hperm : q'.nodes.Perm q.nodes)
    (hnode : q'.node = q.node) (hheap : q'.heap = q.heap) (hbrk : q'.brk = q.brk) : Owns q' := by
  have hmem : ∀ n ∈ q'.nodes, n ∈ q.nodes := fun n => hperm.mem_iff.mp
  refine ⟨hperm.nodup_iff.mpr h.nodup, ?_, ?_, ?_, ?_⟩
  · intro n hn
    rw [hbrk]
    exact h.below n (hmem n hn)
  · intro n hn a ha
    rw [hnode] at ha
    rw [hheap]
    exact h.live n (hmem n hn) a ha
  · intro n hn k hk a ha hb
    rw [hnode] at ha hb
    exact h.owner n (hmem n hn) k (hmem k hk) a ha hb
  · rw [hheap]
    exact h.freed

/-- a pool that is added has nodes at new addresses, without blocks -/
theorem owns_increase {q : MessageQueueT} (h : Owns q) (m : Mallocs) :
    Owns (messageIncreaseIdleMessageList m q).2 := by
  rcases increase_cases m q with hq | hq | hq
  · rw [hq]
    exact h
  · rw [hq]
    exact ⟨h.nodup, h.below, h.live, h.owner, h.freed⟩
  rw [hq]
  refine ⟨addPool_nodup h.nodup h.below, ?_, ?_, ?_, h.freed⟩
  · intro n hn
    show n < q.brk + maxMessageElements
    rcases List.mem_append.mp ((addPool_perm q).mem_iff.mp hn) with hn | hn
    · exact Nat.lt_add_right _ (h.below n hn)
    · exact (((MessagePool.mk q.brk).mem_nodes n).mp hn).2
  · intro n hn a ha
    obtain ⟨hold, hnode⟩ := addPool_node hn ha
    exact h.live n hold a (hnode ▸ ha)
  · intro n hn k hk a ha hb
    obtain ⟨hold, hnode⟩ := addPool_node hn ha
    obtain ⟨hold', hnode'⟩ := addPool_node hk hb
    exact h.owner n hold k hold' a (hnode ▸ ha) (hnode' ▸ hb)

/-- the first idle node gets the copy, and its old block is the only one that is freed -/
theorem owns_copy {q : MessageQueueT} (h : Owns q) {n : Nat} (hn : n ∈ q.nodes) {ok : Bool}
    {msg : MsgIn} {r : Int × MessageT × PayloadHeap} (hr : DeepCopied ok q.heap (q.node n) msg r) :
    Owns { q with node := Function.update q.node n r.2.1, heap := r.2.2 } := by
  have hblock := h.live n hn
  refine ⟨h.nodup, h.below, ?_, ?_, ?_⟩
  · intro k hk a ha
    show a < r.2.2.next ∧ a ∉ r.2.2.freed
    -- a block that stays: it is freed only where it is the old one of `n`, of another size than `0`
    have hstays : (q.node k).mpData = some a → (k = n → (q.node n).mDataSize = 0) →
        a < r.2.2.next ∧ a ∉ r.2.2.freed := by
      intro hold hsize
      obtain ⟨hlt, hlive⟩ := h.live k hk a hold
      refine ⟨hlt.trans_le hr.next, fun hf => ?_⟩
      rw [hr.freed] at hf
      split at hf
      · exact hlive hf
      · next hne =>
        rcases List.mem_append.mp hf with hf | hf
        · exact hne (hsize (h.owner k hk n hn a hold (Option.mem_toList.mp hf)))
        · exact hlive hf
    rcases update_block ha with ⟨rfl, hd⟩ | ⟨hne, hold⟩
    · rcases hr.owned a hd with ⟨hold, hsize, -⟩ | ⟨rfl, hlt⟩
      · exact hstays hold fun _ => hsize
      · exact ⟨hlt, fun hf => lt_irrefl _ (hr.fresh (fun a ha => (hblock a ha).1) h.freed _ hf)⟩
    · exact hstays hold fun e => absurd e hne
  · refine owner_update q.heap (fun k hk a ha => (h.live k hk a ha).1) h.owner hn fun a hd => ?_
    rcases hr.owned a hd with ⟨hold, -⟩ | ⟨rfl, -⟩
    · exact Or.inl hold
    · exact Or.inr (le_refl _)
  · intro a ha
    exact (hr.fresh (fun a ha => (hblock a ha).1) h.freed a ha).trans_le hr.next

/-- a put into the first idle node `n`: the copy, then the node moves if the copy succeeded -/
theorem putFirstIdle_cons (ok : Bool) {q : MessageQueueT} {n : Nat} {idle : List Nat}
    (hl : q.mIdleMessageList = n :: idle) (msg : MsgIn) :
    ∃ r, DeepCopied ok q.heap (q.node n) msg r ∧
      (putFirstIdle ok q msg).2.node = Function.update q.node n r.2.1 ∧
      (putFirstIdle ok q msg).2.heap = r.2.2 ∧
      (putFirstIdle ok q msg).2.brk = q.brk ∧
      if msg.copies ok then (putFirstIdle ok q msg).2.mIdleMessageList = idle ∧
          (putFirstIdle ok q msg).2.mReadyMessageList = q.mReadyMessageList ++ [n]
        else (putFirstIdle ok q msg).2.mIdleMessageList = n :: idle ∧
          (putFirstIdle ok q msg).2.mReadyMessageList = q.mReadyMessageList := by
  have hr := deepCopied ok q.heap (q.node n) msg
  refine ⟨_, hr, ?_⟩
  rw [putFirstIdle_eq hl rfl]
  by_cases h : msg.copies ok = true
  · rw [if_pos (hr.ret.mpr h), if_pos h]
    exact ⟨rfl, rfl, rfl, rfl, rfl⟩
  · rw [if_neg fun h0 => h (hr.ret.mp h0), if_neg h]
    exact ⟨rfl, rfl, rfl, hl, rfl⟩

/-- the copy moves a node at most -/
theorem putFirstIdle_perm (ok : Bool) (q : MessageQueueT) (msg : MsgIn) :
    (putFirstIdle ok q msg).2.nodes.Perm q.nodes := by
  show ((putFirstIdle ok q msg).2.mIdleMessageList
    ++ (putFirstIdle ok q msg).2.mReadyMessageList).Perm
    (q.mIdleMessageList ++ q.mReadyMessageList)
  cases hl : q.mIdleMessageList with
  | nil =>
    rw [putFirstIdle_nil ok hl, hl]
  | cons n idle =>
    obtain ⟨r, -, -, -, -, hlists⟩ := putFirstIdle_cons ok hl msg
    split at hlists
    · rw [hlists.1, hlists.2, ← List.append_assoc]
      exact List.perm_append_comm
    · rw [hlists.1, hlists.2]

theorem owns_putFirstIdle {q : MessageQueueT} (h : Owns q) (ok : Bool) (msg : MsgIn) :
    Owns (putFirstIdle ok q msg).2 := by
  cases hl : q.mIdleMessageList with
  | nil =>
    rw [putFirstIdle_nil ok hl]
    exact h
  | cons n idle =>
    obtain ⟨r, hr, hnode, hheap, hbrk, -⟩ := putFirstIdle_cons ok hl msg
    have hn : n ∈ q.nodes := List.mem_append_left _ (hl ▸ List.mem_cons_self)
    exact (owns_copy h hn hr).perm (putFirstIdle_perm ok q msg) hnode hheap hbrk

theorem owns_put {q : MessageQueueT} (h : Owns q) (m : Mallocs) (msg : MsgIn) :
    Owns (putMessageWithData m q msg).2 :=
  put_keeps h (owns_increase h m) fun _ h => owns_putFirstIdle h m.payload msg

theorem owns_get {q : MessageQueueT} (h : Owns q) : Owns (getMessage q).2.2 := by
  unfold getMessage
  split
  · exact h
  · next n ready hl =>
    refine h.perm ?_ rfl rfl rfl
    show (q.mIdleMessageList ++ [n] ++ ready).Perm (q.mIdleMessageList ++ q.mReadyMessageList)
    rw [hl, List.append_assoc, List.singleton_append]

theorem owns_init : Owns MessageQueueT.init := by
  refine ⟨List.nodup_nil, ?_, ?_, ?_, ?_⟩ <;> simp [MessageQueueT.nodes, MessageQueueT.init]

/-! ## puts and gets in any order -/

/-- a put, with the results of its allocations -/
inductive PutCall where
  | putMessage (m : Mallocs) (msg : MsgIn)
  | putMessageWithData (m : Mallocs) (msg : MsgIn)
deriving DecidableEq

/-- the copy of the message succeeds where there is an idle node -/
def PutCall.copies : PutCall → Bool
  | .putMessage m msg => msg.withoutData.copies m.payload
  | .putMessageWithData m msg => msg.copies m.payload

def MessageQueueT.put (q : MessageQueueT) : PutCall → MessageQueueT
  | .putMessage m msg => (Pluto.putMessage m q msg).2
  | .putMessageWithData m msg => (Pluto.putMessageWithData m q msg).2

def PutCall.mallocs : PutCall → Mallocs
  | .putMessage m _ => m
  | .putMessageWithData m _ => m

/-- the message that is copied -/
def PutCall.msg : PutCall → MsgIn
  | .putMessage _ msg => msg.withoutData
  | .putMessageWithData _ msg => msg

/-- `put_message` is `put_message_with_data` of a message without data -/
theorem put_eq (q : MessageQueueT) (p : PutCall) :
    q.put p = (putMessageWithData p.mallocs q p.msg).2 := by
  cases p with
  | putMessage m msg => rfl
  | putMessageWithData m msg => rfl

theorem PutCall.copies_eq (p : PutCall) : p.copies = p.msg.copies p.mallocs.payload := by
  cases p with
  | putMessage m msg => rfl
  | putMessageWithData m msg => rfl

def MessageQueueT.puts (q : MessageQueueT) (ps : List PutCall) : MessageQueueT :=
  ps.foldl MessageQueueT.put q

/-- the queues between the calls of producers and of a consumer -/
inductive Reached : MessageQueueT → Prop where
  | created {m : Mallocs} : (messageCreate m).1 = 0 → Reached (messageCreate m).2
  | put {q : MessageQueueT} : Reached q → ∀ p, Reached (q.put p)
  | get {q : MessageQueueT} : Reached q → Reached (getMessage q).2.2

theorem Reached.owns {q : MessageQueueT} (h : Reached q) : Owns q := by
  induction h with
  | @created m _ =>
    rw [messageCreate_queue]
    exact owns_increase owns_init m
  | put _ p ih =>
    rw [put_eq]
    exact owns_put ih p.mallocs p.msg
  | get _ ih => exact owns_get ih

/-- the first idle node of a queue that has one takes the copy -/
theorem put_cons (p : PutCall) {q : MessageQueueT} {n : Nat} {idle : List Nat}
    (hl : q.mIdleMessageList = n :: idle) :
    ∃ ok msg, p.copies = msg.copies ok ∧ q.put p = (putFirstIdle ok q msg).2 := by
  have hne : ¬ q.mIdleMessageList = [] := by
    rw [hl]
    exact List.cons_ne_nil n idle
  refine ⟨p.mallocs.payload, p.msg, p.copies_eq, ?_⟩
  rw [put_eq, putMessageWithData, if_neg hne]

theorem freed_putFirstIdle (ok : Bool) (q : MessageQueueT) (msg : MsgIn) {a : Nat}
    (ha : a ∈ q.heap.freed) :
    a ∈ (putFirstIdle ok q msg).2.heap.freed := by
  cases hl : q.mIdleMessageList with
  | nil =>
    rw [putFirstIdle_nil ok hl]
    exact ha
  | cons n idle =>
    obtain ⟨r, hr, -, hheap, -⟩ := putFirstIdle_cons ok hl msg
    rw [hheap, hr.freed]
    split
    · exact ha
    · exact List.mem_append_right _ ha

theorem increase_heap (m : Mallocs) (q : MessageQueueT) :
    (messageIncreaseIdleMessageList m q).2.heap = q.heap := by
  rcases increase_cases m q with hq | hq | hq <;> rw [hq]
  rfl

/-- what was freed stays freed -/
theorem freed_put (q : MessageQueueT) (p : PutCall) {a : Nat} (ha : a ∈ q.heap.freed) :
    a ∈ (q.put p).heap.freed := by
  rw [put_eq]
  refine put_keeps (P := fun q => a ∈ q.heap.freed) ha ?_ fun q ha =>
    freed_putFirstIdle p.mallocs.payload q p.msg ha
  rw [increase_heap]
  exact ha

theorem freed_puts (ps : List PutCall) (q : MessageQueueT) {a : Nat} (ha : a ∈ q.heap.freed) :
    a ∈ (q.puts ps).heap.freed := by
  induction ps generalizing q with
  | nil => exact ha
  | cons p ps ih => exact ih (q.put p) (freed_put q p ha)

theorem owns_puts (ps : List PutCall) {q : MessageQueueT} (h : Owns q) : Owns (q.puts ps) := by
  induction ps generalizing q with
  | nil => exact h
  | cons p ps ih =>
    refine ih ?_
    rw [put_eq]
    exact owns_put h p.mallocs p.msg

/-! ## the block of a message that was got -/

/-- the node `n` with the block `a` has `k` idle nodes in front of it -/
structure Awaits (q : MessageQueueT) (n a k : Nat) : Prop where
  place : ∃ front rest, q.mIdleMessageList = front ++ n :: rest ∧ front.length = k
  data : (q.node n).mpData = some a
  size : (q.node n).mDataSize ≠ 0

/-- a put in front of the node moves it on if the put succeeds, and leaves its block alone -/
theorem awaits_put {q : MessageQueueT} (h : Owns q) {n a k : Nat} (hw : Awaits q n a (k + 1))
    (p : PutCall) :
    Awaits (q.put p) n a (if p.copies then k else k + 1) ∧ a ∉ (q.put p).heap.freed ∧
      (q.put p).heap.block a = q.heap.block a := by
  obtain ⟨⟨front, rest, hidle, hlen⟩, hdata, hsize⟩ := hw
  obtain ⟨x, front, rfl⟩ := List.exists_cons_of_length_eq_add_one hlen
  rw [List.cons_append] at hidle
  obtain ⟨ok, msg, hcopies, hput⟩ := put_cons p hidle
  obtain ⟨r, hr, hnode, hheap, -, hlists⟩ := putFirstIdle_cons ok hidle msg
  rw [hput, hcopies]
  have hmem : ∀ y ∈ x :: (front ++ n :: rest), y ∈ q.nodes :=
    fun y hy => List.mem_append_left _ (hidle ▸ hy)
  have hx : x ∈ q.nodes := hmem x List.mem_cons_self
  have hn : n ∈ q.nodes :=
    hmem n (List.mem_cons_of_mem _ (List.mem_append_right _ List.mem_cons_self))
  have hne : n ≠ x := by
    rintro rfl
    have hnodup := h.nodup.sublist (List.sublist_append_left q.mIdleMessageList q.mReadyMessageList)
    rw [hidle] at hnodup
    exact (List.nodup_cons.mp hnodup).1 (List.mem_append_right _ List.mem_cons_self)
  have hother : (q.node x).mpData ≠ some a := fun hb => hne (h.owner n hn x hx a hdata hb)
  obtain ⟨hlt, hlive⟩ := h.live n hn a hdata
  refine ⟨⟨?_, ?_, ?_⟩, ?_, ?_⟩
  · split at hlists
    · next hc =>
      rw [if_pos hc]
      exact ⟨front, rest, hlists.1, Nat.succ.inj hlen⟩
    · next hc =>
      rw [if_neg hc]
      exact ⟨x :: front, rest, hlists.1, hlen⟩
  · rw [hnode, Function.update_of_ne hne]
    exact hdata
  · rw [hnode, Function.update_of_ne hne]
    exact hsize
  · rw [hheap, hr.freed]
    split
    · exact hlive
    · intro hf
      rcases List.mem_append.mp hf with hf | hf
      · exact hother (Option.mem_toList.mp hf)
      · exact hlive hf
  · rw [hheap]
    exact hr.block a hlt fun hb => absurd hb hother

/-- the put that takes the node frees its block, whether or not its own copy succeeds -/
theorem awaits_taken {q : MessageQueueT} {n a : Nat} (hw : Awaits q n a 0) (p : PutCall) :
    a ∈ (q.put p).heap.freed := by
  obtain ⟨⟨front, rest, hidle, hlen⟩, hdata, hsize⟩ := hw
  rw [List.length_eq_zero_iff.mp hlen, List.nil_append] at hidle
  obtain ⟨ok, msg, -, hput⟩ := put_cons p hidle
  obtain ⟨r, hr, -, hheap, -⟩ := putFirstIdle_cons ok hidle msg
  rw [hput, hheap, hr.freed, if_neg hsize, hdata]
  exact List.mem_cons_self

theorem Awaits.mem {q : MessageQueueT} {n a k : Nat} (h : Awaits q n a k) : n ∈ q.nodes := by
  obtain ⟨front, rest, hidle, -⟩ := h.place
  refine List.mem_append_left _ ?_
  rw [hidle]
  exact List.mem_append_right _ List.mem_cons_self

theorem awaits_puts (ps : List PutCall) {q : MessageQueueT} (h : Owns q) {n a k : Nat}
    (hw : Awaits q n a k) :
    (a ∉ (q.puts ps).heap.freed ↔ ps = [] ∨ ps.dropLast.countP PutCall.copies < k) ∧
      (a ∉ (q.puts ps).heap.freed → (q.puts ps).heap.block a = q.heap.block a) := by
  induction ps generalizing q k with
  | nil => exact ⟨iff_of_true (h.live n hw.mem a hw.data).2 (Or.inl rfl), fun _ => rfl⟩
  | cons p ps ih =>
    show (a ∉ ((q.put p).puts ps).heap.freed ↔ _) ∧
      (a ∉ ((q.put p).puts ps).heap.freed → ((q.put p).puts ps).heap.block a = _)
    cases k with
    | zero =>
      have hfreed := freed_puts ps (q.put p) (awaits_taken hw p)
      refine ⟨iff_of_false (not_not.mpr hfreed) ?_, fun hn => absurd hfreed hn⟩
      rintro (hnil | hlt)
      · cases hnil
      · exact absurd hlt (Nat.not_lt_zero _)
    | succ k =>
      obtain ⟨hw', -, hblock⟩ := awaits_put h hw p
      obtain ⟨hiff, hkept⟩ := ih (owns_puts [p] h) hw'
      refine ⟨hiff.trans ?_, fun hn => (hkept hn).trans hblock⟩
      by_cases hps : ps = []
      · rw [hps]
        exact iff_of_true (Or.inl rfl) (Or.inr (Nat.succ_pos k))
      · rw [List.dropLast_cons_of_ne_nil hps, List.countP_cons]
        simp only [hps, false_or, reduceCtorEq]
        split <;> omega

/-! ## an empty payload -/

/-- every node with the block `a` has size `0` in it -/
structure Keeps (q : MessageQueueT) (a : Nat) : Prop where
  lt : a < q.heap.next
  live : a ∉ q.heap.freed
  size : ∀ n ∈ q.nodes, (q.node n).mpData = some a → (q.node n).mDataSize = 0

theorem keeps_increase {q : MessageQueueT} {a : Nat} (h : Keeps q a) (m : Mallocs) :
    Keeps (messageIncreaseIdleMessageList m q).2 a := by
  rcases increase_cases m q with hq | hq | hq
  · rw [hq]
    exact h
  · rw [hq]
    exact ⟨h.lt, h.live, h.size⟩
  rw [hq]
  refine ⟨h.lt, h.live, fun n hn hdata => ?_⟩
  obtain ⟨hold, hnode⟩ := addPool_node hn hdata
  rw [hnode] at hdata ⊢
  exact h.size n hold hdata

theorem keeps_putFirstIdle {q : MessageQueueT} {a : Nat} (h : Keeps q a) (ok : Bool) (msg : MsgIn) :
    Keeps (putFirstIdle ok q msg).2 a ∧
      (putFirstIdle ok q msg).2.heap.block a = q.heap.block a := by
  cases hl : q.mIdleMessageList with
  | nil =>
    rw [putFirstIdle_nil ok hl]
    exact ⟨h, rfl⟩
  | cons n idle =>
    obtain ⟨r, hr, hnode, hheap, -⟩ := putFirstIdle_cons ok hl msg
    have hn : n ∈ q.nodes := List.mem_append_left _ (hl ▸ List.mem_cons_self)
    rw [hheap, hr.block a h.lt (h.size n hn)]
    refine ⟨⟨?_, ?_, ?_⟩, rfl⟩
    · rw [hheap]
      exact h.lt.trans_le hr.next
    · rw [hheap, hr.freed]
      split
      · exact h.live
      · next hne =>
        intro hf
        rcases List.mem_append.mp hf with hf | hf
        · exact hne (h.size n hn (Option.mem_toList.mp hf))
        · exact h.live hf
    · intro k hk hdata
      rw [hnode] at hdata ⊢
      by_cases e : k = n
      · subst e
        rw [Function.update_self] at hdata ⊢
        rcases hr.owned a hdata with ⟨-, -, hsize⟩ | ⟨rfl, -⟩
        · exact hsize
        · exact absurd h.lt (lt_irrefl _)
      · rw [Function.update_of_ne e] at hdata ⊢
        exact h.size k ((putFirstIdle_perm ok q msg).mem_iff.mp hk) hdata

theorem keeps_put {q : MessageQueueT} {a : Nat} (h : Keeps q a) (p : PutCall) :
    Keeps (q.put p) a ∧ (q.put p).heap.block a = q.heap.block a := by
  rw [put_eq]
  refine put_keeps (P := fun q' => Keeps q' a ∧ q'.heap.block a = q.heap.block a)
    ⟨h, rfl⟩ ?_ fun q' hq => ?_
  · exact ⟨keeps_increase h p.mallocs, by rw [increase_heap]⟩
  · obtain ⟨hk, hb⟩ := keeps_putFirstIdle hq.1 p.mallocs.payload p.msg
    exact ⟨hk, hb.trans hq.2⟩

theorem keeps_puts (ps : List PutCall) {q : MessageQueueT} {a : Nat} (h : Keeps q a) :
    Keeps (q.puts ps) a ∧ (q.puts ps).heap.block a = q.heap.block a := by
  induction ps generalizing q with
  | nil => exact ⟨h, rfl⟩
  | cons p ps ih =>
    obtain ⟨hk, hb⟩ := keeps_put h p
    obtain ⟨hks, hbs⟩ := ih hk
    exact ⟨hks, hbs.trans hb⟩

/-! ## between two gets -/

/-- **How long a payload stays.**  The block of a message that was got is not freed by the puts
behind it if and only if it is empty, or fewer successful puts than there were idle nodes stand in
front of the last put; and as long as it is not freed its bytes stay. -/
theorem payload_kept_iff {q q' : MessageQueueT} (h : Reached q) {msg : MessageT}
    (hget : getMessage q = (0, some msg, q')) {a : Nat} (ha : msg.mpData = some a)
    (ps : List PutCall) :
    (a ∉ (q'.puts ps).heap.freed ↔ msg.mDataSize = 0 ∨ ps = [] ∨
        ps.dropLast.countP PutCall.copies < q.mIdleMessageList.length) ∧
      (a ∉ (q'.puts ps).heap.freed → (q'.puts ps).heap.block a = q'.heap.block a) := by
  have howns : Owns q' := by
    have hq := owns_get h.owns
    rwa [hget] at hq
  unfold getMessage at hget
  split at hget
  · cases hget
  next n ready hl =>
  cases hget
  have hn : n ∈ (takeFirstReady q n ready).2.nodes :=
    List.mem_append_left _ (List.mem_append_right _ List.mem_cons_self)
  by_cases hsize : (q.node n).mDataSize = 0
  · obtain ⟨hlt, hlive⟩ := howns.live n hn a ha
    have hkeeps : Keeps (takeFirstReady q n ready).2 a := by
      refine ⟨hlt, hlive, fun k hk hb => ?_⟩
      rw [howns.owner k hk n hn a hb ha]
      exact hsize
    obtain ⟨hks, hbs⟩ := keeps_puts ps hkeeps
    exact ⟨iff_of_true hks.live (Or.inl hsize), fun _ => hbs⟩
  · have hw : Awaits (takeFirstReady q n ready).2 n a q.mIdleMessageList.length :=
      ⟨⟨q.mIdleMessageList, [], rfl, rfl⟩, ha, hsize⟩
    obtain ⟨hiff, hkept⟩ := awaits_puts ps howns hw
    refine ⟨hiff.trans ?_, hkept⟩
    have hne : ¬ (takeFirstReady q n ready).1.mDataSize = 0 := hsize
    simp only [hne, false_or]

def hello : PutCall := .putMessageWithData .allOk ⟨7, 0, 0, 0, some [104, 105], 2⟩

/-- a new queue into which one message was put -/
def helloQueue : MessageQueueT := createdQueue.put hello

theorem payload_kept_iff_fifteen :
    0 ∉ ((getMessage helloQueue).2.2.puts (List.replicate 15 hello)).heap.freed ∧
      ((getMessage helloQueue).2.2.puts (List.replicate 15 hello)).heap.block 0
        = some [104, 105] := by
  obtain ⟨hiff, hkept⟩ :=
    payload_kept_iff (.put (.created (m := .allOk) rfl) hello) (q := helloQueue) rfl rfl
      (List.replicate 15 hello)
  have hlive := hiff.mpr (by decide)
  exact ⟨hlive, hkept hlive⟩

/-- the consumer still holds the message that it got when the sixteenth put behind it frees the
payload -/
theorem payload_freed :
    (getMessage helloQueue).2.1 = some ⟨7, 0, 0, 0, some 0, 2⟩ ∧
      0 ∈ ((getMessage helloQueue).2.2.puts (List.replicate 16 hello)).heap.freed := by
  decide

end Pluto

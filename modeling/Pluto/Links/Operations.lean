import Pluto.Links.Heads
import Pluto.Links.MmList
import Mathlib.Data.List.Rotate

/-!
# `mm_list.h`: the operations on whole lists

The functions of the header that `Links.MmList` leaves out, and what any sequence of them does.
Each address may be a head, so the lists are those of `Links.Heads`.

* `listAdd`, `listReplace`, `listCutPosition`, `listSplice` and so on   the functions of the source;
* `ListOp`, `Effect` a call, and what the header promises of it: which lists there are behind it;
* `list_runs_refine`     the links keep that promise along any run.
-/

namespace Pluto
open Links

/-! ## the functions -/

section
variable (l : Links Addr)

def listAdd (new1 head : Addr) : Links Addr := rawListAdd l new1 head (l.next head)

def listReplace (old new1 : Addr) : Links Addr :=
  let l := setNext l new1 (l.next old)
  let l := setPrev l (l.next new1) new1
  let l := setPrev l new1 (l.prev old)
  setNext l (l.prev new1) new1

def listReplaceInit (old new1 : Addr) : Links Addr := initListHead (listReplace l old new1) old

def listDelInit (entry : Addr) : Links Addr := initListHead (rawListDelEntry l entry) entry

def listMove (list head : Addr) : Links Addr := listAdd (rawListDelEntry l list) list head

def listIsLast (list head : Addr) : Bool := l.next list == head

def listEmptyCareful (head : Addr) : Bool :=
  let next := l.next head
  next == head && next == l.prev head

def listRotateLeft (head : Addr) : Links Addr :=
  if !listEmpty l head then
    let first := l.next head
    listMoveTail l first head
  else l

def listIsSingular (head : Addr) : Bool := !listEmpty l head && l.next head == l.prev head

/-- `__list_cut_position` -/
def rawListCutPosition (list head entry : Addr) : Links Addr :=
  let new_first := l.next entry
  let l := setNext l list (l.next head)
  let l := setPrev l (l.next list) list
  let l := setPrev l list entry
  let l := setNext l entry list
  let l := setNext l head new_first
  setPrev l new_first head

def listCutPosition (list head entry : Addr) : Links Addr :=
  if listEmpty l head then l
  else if listIsSingular l head && (l.next head != entry && head != entry) then l
  else if entry == head then initListHead l list
  else rawListCutPosition l list head entry

/-- `__list_splice` -/
def rawListSplice (list prev next : Addr) : Links Addr :=
  let first := l.next list
  let last := l.prev list
  let l := setPrev l first prev
  let l := setNext l prev first
  let l := setNext l last next
  setPrev l next last

def listSplice (list head : Addr) : Links Addr :=
  if !listEmpty l list then rawListSplice l list head (l.next head) else l

def listSpliceTail (list head : Addr) : Links Addr :=
  if !listEmpty l list then rawListSplice l list (l.prev head) head else l

def listSpliceInit (list head : Addr) : Links Addr :=
  if !listEmpty l list then initListHead (rawListSplice l list head (l.next head)) list else l

def listSpliceTailInit (list head : Addr) : Links Addr :=
  if !listEmpty l list then initListHead (rawListSplice l list (l.prev head) head) list else l

end

/-! ## which links they write -/

section
variable {l : Links Addr}

theorem initListHead_relinked (l : Links Addr) (list : Addr) :
    Relinked l (initListHead l list) [list] [list] := by
  constructor
  · intro a ha
    exact Function.update_of_ne (List.ne_of_not_mem_cons ha) ..
  · intro b hb
    exact Function.update_of_ne (List.ne_of_not_mem_cons hb) ..

/-- the new node is linked between the neighbours of the old one; where the old one is an empty
head, its own `next->prev` has become `new1` before `old->prev` is read -/
theorem listReplace_eq (l : Links Addr) (old new1 : Addr) :
    listReplace l old new1 = rawListAdd l new1 (if l.next old = old then new1 else l.prev old)
      (l.next old) := by
  have hnext : Function.update l.next new1 (l.next old) new1 = l.next old := Function.update_self ..
  have hprev : Function.update l.prev (l.next old) new1 old = if l.next old = old then
      new1 else l.prev old := by
    rw [Function.update_apply]
    simp only [eq_comm]
  show setNext
    (setPrev (setPrev (setNext l new1 (l.next old))
      (Function.update l.next new1 (l.next old) new1) new1) new1
    (Function.update l.prev (Function.update l.next new1 (l.next old) new1) new1 old))
    (Function.update (Function.update l.prev (Function.update l.next new1 (l.next old) new1) new1)
      new1
      (Function.update l.prev (Function.update l.next new1 (l.next old) new1) new1 old) new1) new1
        = _
  rw [hnext, hprev, Function.update_self]
  rfl

theorem rawListCutPosition_linked {list head entry : Addr} (hle : list ≠ entry) (hlh : list ≠ head)
    (heh : entry ≠ head) (hlf : l.next head ≠ list) (hfn : l.next head ≠ l.next entry)
    (hln : list ≠ l.next entry) :
    Relinked l (rawListCutPosition l list head entry) [list, entry, head]
      [l.next head, list, l.next entry] ∧
      (rawListCutPosition l list head entry).Linked list (l.next head) ∧
      (rawListCutPosition l list head entry).Linked entry list ∧
      (rawListCutPosition l list head entry).Linked head (l.next entry) := by
  have hnext : (rawListCutPosition l list head entry).next
      = Function.update (Function.update (Function.update l.next list (l.next head)) entry list)
        head (l.next entry) := rfl
  have hprev : (rawListCutPosition l list head entry).prev
      = Function.update (Function.update (Function.update l.prev (l.next head) list) list entry)
          (l.next entry) head := by
    show Function.update
      (Function.update (Function.update l.prev (Function.update l.next list (l.next head) list)
        list)
      list entry) (l.next entry) head = _
    rw [Function.update_self]
  refine ⟨⟨fun a ha => ?_, fun b hb => ?_⟩, ⟨?_, ?_⟩, ⟨?_, ?_⟩, ?_, ?_⟩
  · simp only [List.mem_cons, List.not_mem_nil, or_false, not_or] at ha
    rw [hnext, Function.update_of_ne ha.2.2, Function.update_of_ne ha.2.1,
      Function.update_of_ne ha.1]
  · simp only [List.mem_cons, List.not_mem_nil, or_false, not_or] at hb
    rw [hprev, Function.update_of_ne hb.2.2, Function.update_of_ne hb.2.1,
      Function.update_of_ne hb.1]
  · rw [hnext, Function.update_of_ne hlh, Function.update_of_ne hle, Function.update_self]
  · rw [hprev, Function.update_of_ne hfn, Function.update_of_ne hlf, Function.update_self]
  · rw [hnext, Function.update_of_ne heh, Function.update_self]
  · rw [hprev, Function.update_of_ne hln, Function.update_self]
  · rw [hnext, Function.update_self]
  · rw [hprev, Function.update_self]

theorem rawListSplice_linked {list p n : Addr} (hp : p ≠ l.prev list) (hn : l.next list ≠ n) :
    Relinked l (rawListSplice l list p n) [p, l.prev list] [l.next list, n] ∧
      (rawListSplice l list p n).Linked p (l.next list) ∧
      (rawListSplice l list p n).Linked (l.prev list) n := by
  have hnext : (rawListSplice l list p n).next
      = Function.update (Function.update l.next p (l.next list)) (l.prev list) n := rfl
  have hprev : (rawListSplice l list p n).prev
      = Function.update (Function.update l.prev (l.next list) p) n (l.prev list) := rfl
  refine ⟨⟨fun a ha => ?_, fun b hb => ?_⟩, ⟨?_, ?_⟩, ?_, ?_⟩
  · simp only [List.mem_cons, List.not_mem_nil, or_false, not_or] at ha
    rw [hnext, Function.update_of_ne ha.2, Function.update_of_ne ha.1]
  · simp only [List.mem_cons, List.not_mem_nil, or_false, not_or] at hb
    rw [hprev, Function.update_of_ne hb.2, Function.update_of_ne hb.1]
  · rw [hnext, Function.update_of_ne hp, Function.update_self]
  · rw [hprev, Function.update_of_ne hn, Function.update_self]
  · rw [hnext, Function.update_self]
  · rw [hprev, Function.update_self]

end

/-! ## what a call does to the lists -/

/-- a call -/
inductive ListOp
  | init (list : Addr)
  | add (new1 head : Addr)
  | addTail (new1 head : Addr)
  | del (entry : Addr)
  | delInit (entry : Addr)
  | replace (old new1 : Addr)
  | replaceInit (old new1 : Addr)
  | move (list head : Addr)
  | moveTail (list head : Addr)
  | rotateLeft (head : Addr)
  | cutPosition (list head entry : Addr)
  | splice (list head : Addr)
  | spliceTail (list head : Addr)
  | spliceInit (list head : Addr)
  | spliceTailInit (list head : Addr)
  deriving DecidableEq, Repr

def ListOp.exec (l : Links Addr) : ListOp → Links Addr
  | .init list => initListHead l list
  | .add new1 head => listAdd l new1 head
  | .addTail new1 head => listAddTail l new1 head
  | .del entry => listDel l entry
  | .delInit entry => listDelInit l entry
  | .replace old new1 => listReplace l old new1
  | .replaceInit old new1 => listReplaceInit l old new1
  | .move list head => listMove l list head
  | .moveTail list head => listMoveTail l list head
  | .rotateLeft head => listRotateLeft l head
  | .cutPosition list head entry => listCutPosition l list head entry
  | .splice list head => listSplice l list head
  | .spliceTail list head => listSpliceTail l list head
  | .spliceInit list head => listSpliceInit l list head
  | .spliceTailInit list head => listSpliceTailInit l list head

/-- the arguments -/
def ListOp.named : ListOp → List Addr
  | .init list | .rotateLeft list | .del list | .delInit list => [list]
  | .add a b | .addTail a b | .replace a b | .replaceInit a b | .move a b | .moveTail a b | .splice
    a b
  | .spliceTail a b | .spliceInit a b | .spliceTailInit a b => [a, b]
  | .cutPosition list head entry => [list, head, entry]

section
variable (ls : Heads Addr)

/-- a list that was spliced into another one is one no more, unless it was empty -/
def spliced (list : Addr) (ys : List Addr) : Heads Addr :=
  Function.update ls list (if ys = [] then some [] else none)

/-- which lists there are behind a call, and what must hold in front of it -/
inductive Effect : ListOp → Heads Addr → Prop
  | init {h} : Apart ls h → Effect (.init h) (Function.update ls h (some []))
  | add {x h xs} :
    ls h = some xs → Loose ls x → Effect (.add x h) (Function.update ls h (some (x :: xs)))
  | addTail {x h xs} :
    ls h = some xs → Loose ls x → Effect (.addTail x h) (Function.update ls h (some (xs ++ [x])))
  | del {x h as bs} :
    ls h = some (as ++ x :: bs) → Effect (.del x) (Function.update ls h (some (as ++ bs)))
  | delInit {x h as bs} : ls h = some (as ++ x :: bs) →
      Effect (.delInit x) (Function.update (Function.update ls h (some (as ++ bs))) x (some []))
  | replace {x y h as bs} : ls h = some (as ++ x :: bs) → Loose ls y →
      Effect (.replace x y) (Function.update ls h (some (as ++ y :: bs)))
  | replaceHead {h k xs} : ls h = some xs → Loose ls k →
      Effect (.replace h k) (Function.update (Function.update ls h none) k (some xs))
  | replaceInit {x y h as bs} : ls h = some (as ++ x :: bs) → Loose ls y →
      Effect (.replaceInit x y)
        (Function.update (Function.update ls h (some (as ++ y :: bs))) x (some []))
  | replaceInitHead {h k xs} : ls h = some xs → Loose ls k →
      Effect (.replaceInit h k) (Function.update (Function.update ls k (some xs)) h (some []))
  | move {x h k as bs ys} :
    ls h = some (as ++ x :: bs) → Function.update ls h (some (as ++ bs)) k = some ys →
      Effect (.move x k) (Function.update (Function.update ls h (some (as ++ bs))) k
        (some (x :: ys)))
  | moveTail {x h k as bs ys} :
    ls h = some (as ++ x :: bs) → Function.update ls h (some (as ++ bs)) k = some ys →
      Effect (.moveTail x k)
        (Function.update (Function.update ls h (some (as ++ bs))) k (some (ys ++ [x])))
  | rotateLeft {h xs} :
    ls h = some xs → Effect (.rotateLeft h) (Function.update ls h (some (xs.rotate 1)))
  | cutEmpty {k h x} : ls h = some [] → Effect (.cutPosition k h x) ls
  | cutForeign {k h x y} : ls h = some [y] → x ≠ y → x ≠ h → Effect (.cutPosition k h x) ls
  | cutHead {k h xs} : ls h = some xs → xs ≠ [] → Apart ls k →
      Effect (.cutPosition k h h) (Function.update ls k (some []))
  | cut {k h x as bs} : ls h = some (as ++ x :: bs) → k ≠ h → Apart ls k →
      Effect (.cutPosition k h x)
        (Function.update (Function.update ls k (some (as ++ [x]))) h (some bs))
  | splice {k h xs ys} : ls h = some xs → ls k = some ys → k ≠ h →
      Effect (.splice k h) (Function.update (spliced ls k ys) h (some (ys ++ xs)))
  | spliceTail {k h xs ys} : ls h = some xs → ls k = some ys → k ≠ h →
      Effect (.spliceTail k h) (Function.update (spliced ls k ys) h (some (xs ++ ys)))
  | spliceInit {k h xs ys} : ls h = some xs → ls k = some ys → k ≠ h →
      Effect (.spliceInit k h)
        (Function.update (Function.update ls k (some [])) h (some (ys ++ xs)))
  | spliceTailInit {k h xs ys} : ls h = some xs → ls k = some ys → k ≠ h →
      Effect (.spliceTailInit k h)
        (Function.update (Function.update ls k (some [])) h (some (xs ++ ys)))

end

/-! ## each call keeps the lists -/

section
variable {l : Links Addr} {ls : Heads Addr} {h k x y : Addr} {as bs xs ys : List Addr}

theorem listEmpty_iff (hl : Holds l ls) (hh : ls h = some xs) : listEmpty l h = true ↔ xs = [] := by
  unfold listEmpty
  rw [beq_iff_eq, (hl.circular hh).next_head_eq]

theorem holds_initListHead (hl : Holds l ls) (hx : Apart ls x) :
    Holds (initListHead l x) (Function.update ls x (some [])) :=
  hl.reset hx (initListHead_relinked l x) (initListHead_linked l x)

theorem rawListAdd_between (hh : ls h = some (as ++ bs)) (hx : Loose ls x) :
    Inserted l (rawListAdd l x (as.getLastD h) (bs.headD h)) x (as.getLastD h) (bs.headD h) := by
  obtain ⟨hp, hn⟩ := around_mem h as bs
  refine rawListAdd_inserted (fun e => hx h _ hh ?_) fun e => hx h _ hh ?_
  · rwa [e]
  · rwa [e]

theorem holds_listAdd (hl : Holds l ls) (hh : ls h = some xs) (hx : Loose ls x) :
    Holds (listAdd l x h) (Function.update ls h (some (x :: xs))) := by
  have hold : ls h = some ([] ++ ([] ++ xs)) := hh
  have hnext : l.next h = xs.headD h := (hl.circular hh).next_head
  unfold listAdd
  rw [hnext]
  exact hl.exchange hold hx (rawListAdd_between hold hx)

theorem holds_listAddTail (hl : Holds l ls) (hh : ls h = some xs) (hx : Loose ls x) :
    Holds (listAddTail l x h) (Function.update ls h (some (xs ++ [x]))) := by
  have hold : ls h = some (xs ++ ([] ++ [])) := hh.trans (congrArg some (List.append_nil xs).symm)
  have hprev : l.prev h = xs.getLastD h := (hl.circular hh).prev_head
  unfold listAddTail
  rw [hprev]
  exact hl.exchange hold hx (rawListAdd_between hold hx)

theorem holds_rawListDelEntry (hl : Holds l ls) (hh : ls h = some (as ++ x :: bs)) :
    Holds (rawListDelEntry l x) (Function.update ls h (some (as ++ bs))) ∧
      Loose (Function.update ls h (some (as ++ bs))) x :=
  hl.delete hh (rawListDelEntry_bypassed x)

theorem holds_listDel (hl : Holds l ls) (hh : ls h = some (as ++ x :: bs)) :
    Holds (listDel l x) (Function.update ls h (some (as ++ bs))) := by
  have hc := hl.circular hh
  exact (hl.delete hh (listDel_bypassed hc.prev_ne hc.next_ne)).1

theorem holds_listReplace (hl : Holds l ls) (hh : ls h = some (as ++ x :: bs)) (hy : Loose ls y) :
    Holds (listReplace l x y) (Function.update ls h (some (as ++ y :: bs))) ∧
      Loose (Function.update ls h (some (as ++ y :: bs))) x := by
  have hc := hl.circular hh
  have hold : ls h = some (as ++ ([x] ++ bs)) := hh
  obtain ⟨hpmem, hnmem⟩ := hc.neighbours_mem
  have hi : Inserted l (listReplace l x y) y (as.getLastD h) (bs.headD h) := by
    rw [listReplace_eq, if_neg hc.next_ne, ← hc.prev_node, ← hc.next_node]
    exact rawListAdd_inserted (fun e => hy h _ hh (e ▸ hpmem)) fun e => hy h _ hh (e ▸ hnmem)
  refine ⟨hl.exchange hold hy hi, fun k ys hk hmem => ?_⟩
  have hx : x ∈ h :: (as ++ x :: bs) :=
    List.mem_cons_of_mem h (List.mem_append_right as List.mem_cons_self)
  by_cases hne : k = h
  · rw [hne, Function.update_self, Option.some.injEq] at hk
    rw [hne, ← hk] at hmem
    rcases List.mem_append.mp (show x ∈ (h :: as) ++ y :: bs from hmem) with hmem | hmem
    · exact hc.not_mem_rest (List.mem_append_left bs hmem)
    · rcases List.mem_cons.mp hmem with rfl | hmem
      · exact hy h _ hh hx
      · exact hc.not_mem_rest (List.mem_append_right (h :: as) hmem)
  · rw [Function.update_of_ne hne] at hk
    exact hl.disjoint hk hh hne hmem hx

/-- an empty head is overwritten, one with nodes gives them away -/
theorem holds_listReplace_head (hl : Holds l ls) (hh : ls h = some xs) (hk : Loose ls k) :
    Holds (listReplace l h k) (Function.update (Function.update ls h none) k (some xs)) := by
  have hc := hl.circular hh
  have hkh : k ≠ h := fun e => hk h xs hh (e ▸ List.mem_cons_self)
  rw [listReplace_eq]
  by_cases hxs : xs = []
  · subst hxs
    have hnext : l.next h = h := hc.next_head
    rw [hnext, if_pos rfl]
    have hr : Relinked l (rawListAdd l k k h) [k] [k, h] := by
      constructor
      · intro a ha
        have hak : a ≠ k := List.ne_of_not_mem_cons ha
        show Function.update (Function.update l.next k h) k k a = l.next a
        rw [Function.update_of_ne hak, Function.update_of_ne hak]
      · intro b hb
        simp only [List.mem_cons, List.not_mem_nil, or_false, not_or] at hb
        show Function.update (Function.update l.prev h k) k k b = l.prev b
        rw [Function.update_of_ne hb.1, Function.update_of_ne hb.2]
    have hself : (rawListAdd l k k h).Linked k k :=
      ⟨Function.update_self .., Function.update_self ..⟩
    refine hl.rehead hh hk hr (fun a ha => Or.inl (List.mem_singleton.mp ha))
      (fun b hb => ?_) hself hself
    simp only [List.mem_cons, List.not_mem_nil, or_false] at hb
    exact hb.imp_right Or.inl
  · have hne : l.next h ≠ h := fun e => hxs (hc.next_head_eq.mp e)
    have hlast : xs.getLast? = some (l.prev h) := by
      rw [hc.prev_head, List.getLastD_eq_getLast?]
      obtain ⟨x, xs, rfl⟩ := List.exists_cons_of_ne_nil hxs
      rw [List.getLast?_cons, Option.getD_some]
    have hfirst : xs.head? = some (l.next h) := by
      rw [hc.next_head]
      obtain ⟨x, xs, rfl⟩ := List.exists_cons_of_ne_nil hxs
      rfl
    rw [if_neg hne]
    have hout : ∀ a ∈ xs, k ≠ a := fun a ha e => hk h xs hh (e ▸ List.mem_cons_of_mem h ha)
    have hi :=
      rawListAdd_inserted (l := l) (hout _ (List.mem_of_getLast? hlast))
        (hout _ (List.mem_of_head? hfirst))
    refine hl.rehead hh hk hi.relinked (fun a ha => ?_) (fun b hb => ?_) ?_ ?_
    · simp only [List.mem_cons, List.not_mem_nil, or_false] at ha
      rcases ha with rfl | rfl
      · exact Or.inr hlast
      · exact Or.inl rfl
    · simp only [List.mem_cons, List.not_mem_nil, or_false] at hb
      rcases hb with rfl | rfl
      · exact Or.inr (Or.inr hfirst)
      · exact Or.inl rfl
    · rw [List.headD_eq_head?_getD, hfirst]
      exact hi.back
    · rw [List.getLastD_eq_getLast?, hlast]
      exact hi.front

theorem holds_rawListCutPosition (hl : Holds l ls) (hh : ls h = some (as ++ x :: bs)) (hkh : k ≠ h)
    (hk : Apart ls k) :
    Holds (rawListCutPosition l k h x)
      (Function.update (Function.update ls k (some (as ++ [x]))) h (some bs)) := by
  have hhh : ls h = some ((as ++ [x]) ++ bs) := by rw [hh, List.append_assoc, List.singleton_append]
  have hc := hl.circular hhh
  have hout := hk h _ hkh.symm hhh
  have hx : x ∈ as ++ [x] := List.mem_append_right as List.mem_cons_self
  have hnodup := List.nodup_cons.mp hc.nodup
  -- the first node, and the node behind the cut
  obtain ⟨f, hf⟩ : ∃ f, (as ++ [x]).head? = some f := by cases as <;> exact ⟨_, rfl⟩
  have hfas : f ∈ as ++ [x] := List.mem_of_head? hf
  have hfirst : l.next h = f := by
    rw [hc.next_head, List.headD_eq_head?_getD, List.head?_append, hf]
    rfl
  have hnext : l.next x = bs.headD h := (hl.circular hh).next_node
  have hfront : ∀ a ∈ as ++ [x], a ∈ h :: (as ++ [x] ++ bs) := fun a ha =>
    List.mem_cons_of_mem h (List.mem_append_left bs ha)
  have hxh : x ≠ h := fun e => hnodup.1 (e ▸ List.mem_append_left bs hx)
  have hfn : f ≠ bs.headD h := by
    intro e
    rcases List.mem_cons.mp (headD_mem_cons h bs) with hb | hb
    · exact hnodup.1 (hb ▸ e ▸ List.mem_append_left bs hfas)
    · exact List.disjoint_of_nodup_append hnodup.2 hfas (e ▸ hb)
  have hkn : k ≠ bs.headD h := fun e => hout (e ▸ (around_mem h (as ++ [x]) bs).2)
  have hkx : k ≠ x := fun e => hout (e ▸ hfront x hx)
  have hfk : f ≠ k := fun e => hout (e ▸ hfront f hfas)
  obtain ⟨hr, hkf, hxk, hhn⟩ :=
    rawListCutPosition_linked (l := l) hkx hkh hxh (hfirst ▸ hfk) (hfirst ▸ hnext ▸ hfn)
      (hnext ▸ hkn)
  rw [hfirst, hnext] at hr
  rw [hfirst] at hkf
  rw [hnext] at hhn
  exact hl.cut hhh hkh hk hf List.getLast?_concat hr hkf hxk hhn

/-- the list at `k` between two nodes of the list at `h` -/
theorem holds_rawListSplice (hl : Holds l ls) (hh : ls h = some (as ++ bs)) (hk : ls k = some ys)
    (hys : ys ≠ []) (hkh : k ≠ h) : Holds (rawListSplice l k (as.getLastD h) (bs.headD h))
      (Function.update (Function.update ls k none) h (some (as ++ (ys ++ bs)))) := by
  have hc := hl.circular hk
  have hlast : ys.getLast? = some (l.prev k) := by
    rw [hc.prev_head, List.getLastD_eq_getLast?]
    obtain ⟨y, ys, rfl⟩ := List.exists_cons_of_ne_nil hys
    rw [List.getLast?_cons, Option.getD_some]
  have hfirst : ys.head? = some (l.next k) := by
    rw [hc.next_head]
    obtain ⟨y, ys, rfl⟩ := List.exists_cons_of_ne_nil hys
    rfl
  obtain ⟨hp, hn⟩ := around_mem h as bs
  have hdisj := hl.disjoint hh hk hkh.symm
  have hpl : as.getLastD h ≠ l.prev k := fun e =>
    hdisj hp (e ▸ List.mem_cons_of_mem k (List.mem_of_getLast? hlast))
  have hfn : l.next k ≠ bs.headD h := fun e =>
    hdisj hn (e ▸ List.mem_cons_of_mem k (List.mem_of_head? hfirst))
  obtain ⟨hr, hfront, hback⟩ := rawListSplice_linked hpl hfn
  exact hl.splice hh hk hkh hfirst hlast hr hfront hback

theorem listIsSingular_iff (hl : Holds l ls) (hh : ls h = some xs) :
    listIsSingular l h = true ↔ ∃ x, xs = [x] := by
  have hc := hl.circular hh
  unfold listIsSingular
  rw [Bool.and_eq_true, Bool.not_eq_true', ← Bool.not_eq_true, listEmpty_iff hl hh, beq_iff_eq,
    hc.next_head, hc.prev_head]
  constructor
  · rintro ⟨hne, hnp⟩
    obtain ⟨x, xs, rfl⟩ := List.exists_cons_of_ne_nil hne
    cases xs with
    | nil => exact ⟨x, rfl⟩
    | cons y ys =>
      rw [List.headD_cons, List.getLastD_cons, List.getLastD_cons] at hnp
      have hmem : x ∈ y :: ys := hnp ▸ List.getLastD_mem_cons
      exact absurd hmem (List.nodup_cons.mp (List.nodup_cons.mp hc.nodup).2).1
  · rintro ⟨x, rfl⟩
    exact ⟨List.cons_ne_nil x [], rfl⟩

theorem listEmptyCareful_iff (hl : Holds l ls) (hh : ls h = some xs) :
    listEmptyCareful l h = true ↔ xs = [] := by
  have hc := hl.circular hh
  unfold listEmptyCareful
  dsimp only
  rw [Bool.and_eq_true, beq_iff_eq, beq_iff_eq, hc.next_head_eq, hc.prev_head, hc.next_head]
  constructor
  · exact fun he => he.1
  · rintro rfl
    exact ⟨rfl, rfl⟩

theorem listIsLast_iff (hl : Holds l ls) (hh : ls h = some (as ++ x :: bs)) :
    listIsLast l x h = true ↔ bs = [] := by
  have hc := hl.circular hh
  unfold listIsLast
  rw [beq_iff_eq, hc.next_node]
  cases bs with
  | nil => exact iff_of_true rfl rfl
  | cons b bs =>
    refine iff_of_false (fun e => ?_) (List.cons_ne_nil b bs)
    exact (List.nodup_cons.mp hc.nodup).1
      (e ▸ List.mem_append_right as (List.mem_cons_of_mem x List.mem_cons_self))

theorem listCutPosition_eq (hl : Holds l ls) (hh : ls h = some (as ++ x :: bs)) (k : Addr) :
    listCutPosition l k h x = rawListCutPosition l k h x := by
  have hc := hl.circular hh
  have hempty : listEmpty l h = false := by
    rw [← Bool.not_eq_true, listEmpty_iff hl hh]
    exact List.append_ne_nil_of_right_ne_nil as (List.cons_ne_nil x bs)
  have hforeign : (listIsSingular l h && (l.next h != x && h != x)) = false := by
    rw [← Bool.not_eq_true, Bool.and_eq_true, listIsSingular_iff hl hh]
    rintro ⟨⟨y, hy⟩, hother⟩
    obtain ⟨rfl, hxy⟩ := List.append_eq_singleton_iff.mp hy |>.resolve_right (by simp)
    have hnext : l.next h = x := hc.next_head
    rw [hnext, bne_self_eq_false, Bool.false_and] at hother
    cases hother
  have hne : x ≠ h :=
    fun e => (List.nodup_cons.mp hc.nodup).1 (e ▸ List.mem_append_right as List.mem_cons_self)
  unfold listCutPosition
  rw [hempty, if_neg Bool.false_ne_true, hforeign, if_neg Bool.false_ne_true,
    if_neg (by rwa [beq_iff_eq])]

theorem nonempty_not (hl : Holds l ls) (hk : ls k = some ys) :
    (!listEmpty l k) = true ↔ ys ≠ [] := by
  rw [Bool.not_eq_true', ← Bool.not_eq_true, listEmpty_iff hl hk]

/-- an empty list goes into another one -/
theorem splice_nil (hh : ls h = some (as ++ bs)) (hk : ls k = some []) :
    Function.update (Function.update ls k (some [])) h (some (as ++ ([] ++ bs))) = ls := by
  have hsame : Function.update ls k (some []) = ls := Function.update_eq_self_iff.mpr hk.symm
  rw [hsame, List.nil_append]
  exact Function.update_eq_self_iff.mpr hh.symm

theorem holds_splice (hl : Holds l ls) (hh : ls h = some (as ++ bs)) (hk : ls k = some ys)
    (hkh : k ≠ h) :
    Holds (if !listEmpty l k then rawListSplice l k (as.getLastD h) (bs.headD h) else l)
      (Function.update (spliced ls k ys) h (some (as ++ (ys ++ bs)))) := by
  unfold spliced
  by_cases hys : ys = []
  · subst hys
    rw [if_neg fun hne => (nonempty_not hl hk).mp hne rfl, if_pos rfl, splice_nil hh hk]
    exact hl
  · rw [if_pos ((nonempty_not hl hk).mpr hys), if_neg hys]
    exact holds_rawListSplice hl hh hk hys hkh

theorem holds_splice_init (hl : Holds l ls) (hh : ls h = some (as ++ bs)) (hk : ls k = some ys)
    (hkh : k ≠ h) :
    Holds (if !listEmpty l k then initListHead (rawListSplice l k (as.getLastD h) (bs.headD h)) k
      else l)
      (Function.update (Function.update ls k (some [])) h (some (as ++ (ys ++ bs)))) := by
  by_cases hys : ys = []
  · subst hys
    rw [if_neg fun hne => (nonempty_not hl hk).mp hne rfl, splice_nil hh hk]
    exact hl
  · rw [if_pos ((nonempty_not hl hk).mpr hys)]
    have hkys := (List.nodup_cons.mp (hl.circular hk).nodup).1
    have hkout : k ∉ h :: (as ++ bs) :=
      fun hmem => hl.disjoint hh hk hkh.symm hmem List.mem_cons_self
    have hloose : Loose (Function.update (Function.update ls k none) h (some (as ++ (ys ++ bs))))
        k := by
      refine (hl.loose_clear hk List.mem_cons_self).new fun hmem => ?_
      simp only [List.mem_cons, List.mem_append] at hmem hkout
      rcases hmem with hmem | hmem | hmem | hmem
      · exact hkh hmem
      · exact hkout (Or.inr (Or.inl hmem))
      · exact hkys hmem
      · exact hkout (Or.inr (Or.inr hmem))
    have hinit := holds_initListHead (holds_rawListSplice hl hh hk hys hkh) hloose.apart
    rwa [Function.update_comm hkh, Function.update_idem, Function.update_comm hkh.symm] at hinit

theorem holds_listReplaceInit_head (hl : Holds l ls) (hh : ls h = some xs) (hk : Loose ls k) :
    Holds (listReplaceInit l h k)
      (Function.update (Function.update ls k (some xs)) h (some [])) := by
  have hkh : h ≠ k := fun e => hk h xs hh (e ▸ List.mem_cons_self)
  have hloose : Loose (Function.update (Function.update ls h none) k (some xs)) h := by
    refine (hl.loose_clear hh List.mem_cons_self).new fun hmem => ?_
    exact (List.nodup_cons.mp (hl.circular hh).nodup).1 ((List.mem_cons.mp hmem).resolve_left hkh)
  have hnew := holds_initListHead (holds_listReplace_head hl hh hk) hloose.apart
  rwa [Function.update_comm hkh.symm, Function.update_idem, Function.update_comm hkh] at hnew

theorem holds_listRotateLeft (hl : Holds l ls) (hh : ls h = some xs) :
    Holds (listRotateLeft l h) (Function.update ls h (some (xs.rotate 1))) := by
  unfold listRotateLeft
  cases xs with
  | nil =>
    rw [if_neg fun hne => (nonempty_not hl hh).mp hne rfl, List.rotate_nil,
      Function.update_eq_self_iff.mpr hh.symm]
    exact hl
  | cons x xs =>
    have hnext : l.next h = x := (hl.circular hh).next_head
    have hfirst : ls h = some ([] ++ x :: xs) := hh
    obtain ⟨hdel, hx⟩ := holds_rawListDelEntry hl hfirst
    have hadd := holds_listAddTail hdel (Function.update_self ..) hx
    rw [if_pos ((nonempty_not hl hh).mpr (List.cons_ne_nil x xs)), hnext, List.rotate_cons_succ,
      List.rotate_zero]
    rwa [Function.update_idem] at hadd

/-- an entry that is not of the list, where the list has a single one, is noticed -/
theorem listCutPosition_foreign (hl : Holds l ls) (hh : ls h = some [y]) (hxy : x ≠ y) (hxh : x ≠ h)
    (k : Addr) :
    listCutPosition l k h x = l := by
  have hnext : l.next h = y := (hl.circular hh).next_head
  have hforeign : (listIsSingular l h && (l.next h != x && h != x)) = true := by
    rw [Bool.and_eq_true, Bool.and_eq_true, bne_iff_ne, bne_iff_ne, hnext]
    exact ⟨(listIsSingular_iff hl hh).mpr ⟨y, rfl⟩, hxy.symm, hxh.symm⟩
  have hsome : ¬ listEmpty l h = true :=
    fun he => List.cons_ne_nil y [] ((listEmpty_iff hl hh).mp he)
  rw [listCutPosition, if_neg hsome, if_pos hforeign]

theorem listCutPosition_head (hl : Holds l ls) (hh : ls h = some xs) (hxs : xs ≠ []) (k : Addr) :
    listCutPosition l k h h = initListHead l k := by
  have hsome : ¬ listEmpty l h = true := fun he => hxs ((listEmpty_iff hl hh).mp he)
  rw [listCutPosition, if_neg hsome, bne_self_eq_false, Bool.and_false, Bool.and_false,
    if_neg Bool.false_ne_true, if_pos (beq_self_eq_true h)]

/-- **A call does to the links what it does to the lists.** -/
theorem effect_exec {op : ListOp} {ls' : Heads Addr} (hl : Holds l ls) (he : Effect ls op ls') :
    Holds (op.exec l) ls' := by
  cases he with
  | init hx => exact holds_initListHead hl hx
  | add hh hx => exact holds_listAdd hl hh hx
  | addTail hh hx => exact holds_listAddTail hl hh hx
  | del hh => exact holds_listDel hl hh
  | delInit hh =>
    obtain ⟨hdel, hx⟩ := holds_rawListDelEntry hl hh
    exact holds_initListHead hdel hx.apart
  | replace hh hy => exact (holds_listReplace hl hh hy).1
  | replaceHead hh hk => exact holds_listReplace_head hl hh hk
  | replaceInit hh hy =>
    obtain ⟨hnew, hx⟩ := holds_listReplace hl hh hy
    exact holds_initListHead hnew hx.apart
  | replaceInitHead hh hk => exact holds_listReplaceInit_head hl hh hk
  | move hh hk =>
    obtain ⟨hdel, hx⟩ := holds_rawListDelEntry hl hh
    exact holds_listAdd hdel hk hx
  | moveTail hh hk =>
    obtain ⟨hdel, hx⟩ := holds_rawListDelEntry hl hh
    exact holds_listAddTail hdel hk hx
  | rotateLeft hh => exact holds_listRotateLeft hl hh
  | cutEmpty hh =>
    show Holds (listCutPosition l _ _ _) ls
    rw [listCutPosition, if_pos ((listEmpty_iff hl hh).mpr rfl)]
    exact hl
  | cutForeign hh hxy hxh =>
    show Holds (listCutPosition l _ _ _) ls
    rw [listCutPosition_foreign hl hh hxy hxh]
    exact hl
  | cutHead hh hxs hk =>
    show Holds (listCutPosition l _ _ _) _
    rw [listCutPosition_head hl hh hxs]
    exact holds_initListHead hl hk
  | cut hh hkh hk =>
    show Holds (listCutPosition l _ _ _) _
    rw [listCutPosition_eq hl hh]
    exact holds_rawListCutPosition hl hh hkh hk
  | @splice k h xs ys hh hk hkh =>
    have hfront : ls h = some ([] ++ xs) := hh
    have hsplice := holds_splice hl hfront hk hkh
    rwa [List.getLastD_nil, ← (hl.circular hh).next_head] at hsplice
  | @spliceTail k h xs ys hh hk hkh =>
    have hback : ls h = some (xs ++ []) := hh.trans (congrArg some (List.append_nil xs).symm)
    have hsplice := holds_splice hl hback hk hkh
    rwa [List.headD_nil, ← (hl.circular hh).prev_head, List.append_nil] at hsplice
  | @spliceInit k h xs ys hh hk hkh =>
    have hfront : ls h = some ([] ++ xs) := hh
    have hsplice := holds_splice_init hl hfront hk hkh
    rwa [List.getLastD_nil, ← (hl.circular hh).next_head] at hsplice
  | @spliceTailInit k h xs ys hh hk hkh =>
    have hback : ls h = some (xs ++ []) := hh.trans (congrArg some (List.append_nil xs).symm)
    have hsplice := holds_splice_init hl hback hk hkh
    rwa [List.headD_nil, ← (hl.circular hh).prev_head, List.append_nil] at hsplice

/-! ## what a call leaves alone -/

section
variable {a : Addr}

theorem initListHead_sameAt (hx : a ≠ x) : SameAt l (initListHead l x) a :=
  (initListHead_relinked l x).sameAt (fun hmem => hx (List.mem_singleton.mp hmem)) fun hmem =>
    hx (List.mem_singleton.mp hmem)

theorem rawListAdd_sameAt {p n : Addr} (hp : a ≠ p) (hn : a ≠ n) (hx : a ≠ x) :
    SameAt l (rawListAdd l x p n) a := by
  constructor
  · show Function.update (Function.update l.next x n) p x a = l.next a
    rw [Function.update_of_ne hp, Function.update_of_ne hx]
  · show Function.update (Function.update l.prev n x) x p a = l.prev a
    rw [Function.update_of_ne hx, Function.update_of_ne hn]

theorem rawListSplice_sameAt {p n : Addr} (hp : a ≠ p) (hn : a ≠ n) (hf : a ≠ l.next k)
    (hg : a ≠ l.prev k) :
    SameAt l (rawListSplice l k p n) a := by
  constructor
  · show Function.update (Function.update l.next p (l.next k)) (l.prev k) n a = l.next a
    rw [Function.update_of_ne hg, Function.update_of_ne hp]
  · show Function.update (Function.update l.prev (l.next k) p) n (l.prev k) a = l.prev a
    rw [Function.update_of_ne hn, Function.update_of_ne hf]

theorem rawListDelEntry_sameAt (hl : Holds l ls) (hh : ls h = some (as ++ x :: bs))
    (ha : Loose ls a) :
    SameAt l (rawListDelEntry l x) a :=
  (hl.circular hh).remove_sameAt (rawListDelEntry_bypassed x) (ha h _ hh)

theorem listAdd_sameAt (hl : Holds l ls) (hh : ls h = some xs) (ha : Loose ls a) (hx : a ≠ x) :
    SameAt l (listAdd l x h) a := by
  obtain ⟨hah, hnext, -⟩ := ha.ne_around hl hh
  exact rawListAdd_sameAt hah hnext hx

theorem addTail_sameAt (hl : Holds l ls) (hh : ls h = some xs) (ha : Loose ls a) (hx : a ≠ x) :
    SameAt l (listAddTail l x h) a := by
  obtain ⟨hah, -, hprev⟩ := ha.ne_around hl hh
  exact rawListAdd_sameAt hprev hah hx

theorem spliced_loose (ha : Loose ls a) (hk : a ≠ k) (ys : List Addr) :
    Loose (spliced ls k ys) a := by
  unfold spliced
  split
  · exact ha.new fun hmem => hk (List.mem_singleton.mp hmem)
  · exact ha.clear k

theorem listReplace_sameAt (hx : a ≠ x ∧ a ≠ l.next x ∧ a ≠ l.prev x) (hy : a ≠ y) :
    SameAt l (listReplace l x y) a := by
  rw [listReplace_eq]
  refine rawListAdd_sameAt ?_ hx.2.1 hy
  split
  · exact hy
  · exact hx.2.2

/-- a node of no list that is no argument gets into none -/
theorem effect_loose {op : ListOp} {ls' : Heads Addr} (he : Effect ls op ls') (ha : Loose ls a)
    (hn : a ∉ op.named) :
    Loose ls' a := by
  -- the nodes of the lists behind a call are arguments, or nodes of the lists in front of it
  cases he with
  | @splice k h xs ys hh hk _ | @spliceTail k h xs ys hh hk _ =>
    have hout := ha _ _ hh
    have hout' := ha _ _ hk
    refine (spliced_loose ha (fun e => hn (e ▸ List.mem_cons_self)) ys).new ?_
    simp only [List.mem_cons, List.mem_append] at hout hout' ⊢
    tauto
  | _ =>
    intro j zs hj
    grind [Loose, ListOp.named, List.mem_rotate, Function.update_apply]

theorem splice_sameAt (hl : Holds l ls) (hh : ls h = some xs) (hk : ls k = some ys)
    (ha : Loose ls a) :
    SameAt l (rawListSplice l k h (l.next h)) a ∧ SameAt l (rawListSplice l k (l.prev h) h) a := by
  obtain ⟨hah, hnext, hprev⟩ := ha.ne_around hl hh
  obtain ⟨-, hf, hg⟩ := ha.ne_around hl hk
  exact ⟨rawListSplice_sameAt hah hnext hf hg, rawListSplice_sameAt hprev hah hf hg⟩

theorem rawListCutPosition_sameAt (hk : a ≠ k) (hx : a ≠ x) (hh : a ≠ h) (hf : a ≠ l.next h)
    (hn : a ≠ l.next x) :
    SameAt l (rawListCutPosition l k h x) a := by
  constructor
  · show Function.update (Function.update (Function.update l.next k (l.next h)) x k) h (l.next x) a
      = l.next a
    rw [Function.update_of_ne hh, Function.update_of_ne hx, Function.update_of_ne hk]
  · show Function.update
      (Function.update (Function.update l.prev (Function.update l.next k (l.next h) k) k) k x)
      (l.next x) h a = l.prev a
    rw [Function.update_of_ne hn, Function.update_of_ne hk, Function.update_self,
      Function.update_of_ne hf]

theorem listRotateLeft_sameAt (hl : Holds l ls) (hh : ls h = some xs) (ha : Loose ls a) :
    SameAt l (listRotateLeft l h) a := by
  unfold listRotateLeft
  cases xs with
  | nil =>
    rw [if_neg fun hne => (nonempty_not hl hh).mp hne rfl]
    exact SameAt.refl l a
  | cons x xs =>
    have hnext : l.next h = x := (hl.circular hh).next_head
    have hfirst : ls h = some ([] ++ x :: xs) := hh
    obtain ⟨hdel, -⟩ := holds_rawListDelEntry hl hfirst
    obtain ⟨hax, -, -⟩ := ha.ne_beside hl hfirst
    have hloose : Loose (Function.update ls h (some ([] ++ xs))) a :=
      ha.new fun hmem => ha h _ hh (by
        rcases List.mem_cons.mp hmem with rfl | hmem
        · exact List.mem_cons_self
        · exact List.mem_cons_of_mem h (List.mem_cons_of_mem x hmem))
    rw [if_pos ((nonempty_not hl hh).mpr (List.cons_ne_nil x xs)), hnext]
    exact (rawListDelEntry_sameAt hl hfirst ha).trans
      (addTail_sameAt hdel (Function.update_self ..) hloose hax)

/-- **A call changes no other node.** -/
theorem effect_sameAt {op : ListOp} {ls' : Heads Addr} (hl : Holds l ls) (he : Effect ls op ls')
    (ha : Loose ls a) (hn : a ∉ op.named) : SameAt l (op.exec l) a := by
  have hfirst : ∀ {b : Addr} {bs : List Addr}, op.named = b :: bs → a ≠ b := fun hnamed e =>
    hn (hnamed ▸ e ▸ List.mem_cons_self)
  have hsecond : ∀ {b c : Addr} {bs : List Addr}, op.named = b :: c :: bs → a ≠ c := fun hnamed e =>
    hn (hnamed ▸ e ▸ List.mem_cons_of_mem _ List.mem_cons_self)
  cases he with
  | init _ => exact initListHead_sameAt (hfirst rfl)
  | add hh _ => exact listAdd_sameAt hl hh ha (hfirst rfl)
  | addTail hh _ => exact addTail_sameAt hl hh ha (hfirst rfl)
  | del hh =>
    have hc := hl.circular hh
    exact hc.remove_sameAt (listDel_bypassed hc.prev_ne hc.next_ne) (ha _ _ hh)
  | delInit hh => exact (rawListDelEntry_sameAt hl hh ha).trans (initListHead_sameAt (hfirst rfl))
  | replace hh _ => exact listReplace_sameAt (ha.ne_beside hl hh) (hsecond rfl)
  | replaceHead hh _ => exact listReplace_sameAt (ha.ne_around hl hh) (hsecond rfl)
  | replaceInit hh _ =>
    exact (listReplace_sameAt (ha.ne_beside hl hh) (hsecond rfl)).trans
      (initListHead_sameAt (hfirst rfl))
  | replaceInitHead hh _ =>
    exact (listReplace_sameAt (ha.ne_around hl hh) (hsecond rfl)).trans
      (initListHead_sameAt (hfirst rfl))
  | move hh hk =>
    obtain ⟨hdel, -⟩ := holds_rawListDelEntry hl hh
    have hloose := effect_loose (.del hh) ha fun hmem => hfirst rfl (List.mem_singleton.mp hmem)
    exact (rawListDelEntry_sameAt hl hh ha).trans (listAdd_sameAt hdel hk hloose (hfirst rfl))
  | moveTail hh hk =>
    obtain ⟨hdel, -⟩ := holds_rawListDelEntry hl hh
    have hloose := effect_loose (.del hh) ha fun hmem => hfirst rfl (List.mem_singleton.mp hmem)
    exact (rawListDelEntry_sameAt hl hh ha).trans (addTail_sameAt hdel hk hloose (hfirst rfl))
  | rotateLeft hh => exact listRotateLeft_sameAt hl hh ha
  | @cutEmpty k h x hh =>
    show SameAt l (listCutPosition l k h x) a
    rw [listCutPosition, if_pos ((listEmpty_iff hl hh).mpr rfl)]
    exact SameAt.refl l a
  | @cutForeign k h x y hh hxy hxh =>
    show SameAt l (listCutPosition l k h x) a
    rw [listCutPosition_foreign hl hh hxy hxh]
    exact SameAt.refl l a
  | @cutHead k h xs hh hxs _ =>
    show SameAt l (listCutPosition l k h h) a
    rw [listCutPosition_head hl hh hxs]
    exact initListHead_sameAt (hfirst rfl)
  | @cut k h x as bs hh _ _ =>
    show SameAt l (listCutPosition l k h x) a
    rw [listCutPosition_eq hl hh]
    obtain ⟨hah, hnext, -⟩ := ha.ne_around hl hh
    obtain ⟨hax, hnext', -⟩ := ha.ne_beside hl hh
    exact rawListCutPosition_sameAt (hfirst rfl) hax hah hnext hnext'
  | splice hh hk _ =>
    show SameAt l (listSplice l _ _) a
    unfold listSplice
    split
    · exact (splice_sameAt hl hh hk ha).1
    · exact SameAt.refl l a
  | spliceTail hh hk _ =>
    show SameAt l (listSpliceTail l _ _) a
    unfold listSpliceTail
    split
    · exact (splice_sameAt hl hh hk ha).2
    · exact SameAt.refl l a
  | spliceInit hh hk _ =>
    show SameAt l (listSpliceInit l _ _) a
    unfold listSpliceInit
    split
    · exact (splice_sameAt hl hh hk ha).1.trans (initListHead_sameAt (hfirst rfl))
    · exact SameAt.refl l a
  | spliceTailInit hh hk _ =>
    show SameAt l (listSpliceTailInit l _ _) a
    unfold listSpliceTailInit
    split
    · exact (splice_sameAt hl hh hk ha).2.trans (initListHead_sameAt (hfirst rfl))
    · exact SameAt.refl l a

/-! ## runs -/

/-- the calls of a run one after the other, each with what must hold in front of it -/
inductive Effects : Heads Addr → List ListOp → Heads Addr → Prop
  | nil {ls : Heads Addr} : Effects ls [] ls
  | cons {ls ls' ls'' : Heads Addr} {op : ListOp} {ops : List ListOp} :
      Effect ls op ls' → Effects ls' ops ls'' → Effects ls (op :: ops) ls''

theorem effects_exec {ops : List ListOp} {ls' : Heads Addr} (hl : Holds l ls)
    (he : Effects ls ops ls') :
    Holds (ops.foldl ListOp.exec l) ls' := by
  induction he generalizing l with
  | nil => exact hl
  | cons hop _ ih => exact ih (effect_exec hl hop)

theorem effects_sameAt {ops : List ListOp} {ls' : Heads Addr} (hl : Holds l ls)
    (he : Effects ls ops ls') (ha : Loose ls a) (hn : ∀ op ∈ ops, a ∉ op.named) :
    Loose ls' a ∧ SameAt l (ops.foldl ListOp.exec l) a := by
  induction he generalizing l with
  | nil => exact ⟨ha, SameAt.refl l a⟩
  | cons hop _ ih =>
    have hn' := hn _ List.mem_cons_self
    obtain ⟨hloose, hsame⟩ := ih (effect_exec hl hop) (effect_loose hop ha hn') fun op hmem =>
      hn op (List.mem_cons_of_mem _ hmem)
    exact ⟨hloose, (effect_sameAt hl hop ha hn').trans hsame⟩

/-- **Along any run of calls the links are those of the lists**, which change as the header says; a
node that is in no list and no argument of a call keeps its links, and stays in no list. -/
theorem list_runs_refine {ops : List ListOp} {ls' : Heads Addr} (hl : Holds l ls)
    (he : Effects ls ops ls') :
    Holds (ops.foldl ListOp.exec l) ls' ∧
      ∀ a, Loose ls a → (∀ op ∈ ops, a ∉ op.named) →
        Loose ls' a ∧ SameAt l (ops.foldl ListOp.exec l) a :=
  ⟨effects_exec hl he, fun _ ha hn => effects_sameAt hl he ha hn⟩

/-- two nodes behind a head: the first one gets a head of its own, and is put in front again -/
theorem list_runs_refine_two :
    ∃ ls', Holds ([.init 1, .addTail 3 1, .addTail 4 1, .cutPosition 2 1 3, .splice 2 1].foldl
      ListOp.exec ⟨id, id⟩) ls' ∧
      ls' 1 = some [3, 4] := by
  refine ⟨_, (list_runs_refine (holds_none _)
    (.cons (.init (loose_none 1).apart) (.cons (.addTail rfl ?_) (.cons (.addTail rfl ?_)
    (.cons (.cut (show _ = some ([] ++ 3 :: [4]) from rfl) (by decide) ?_)
      (.cons (.splice rfl rfl (by decide)) .nil)))))).1, rfl⟩
  · exact (loose_none 3).new (by decide)
  · exact ((loose_none 4).new (by decide)).new (by decide)
  · exact (((loose_none 2).new (by decide)).new (by decide)).new (by decide) |>.apart

end

end

end Pluto

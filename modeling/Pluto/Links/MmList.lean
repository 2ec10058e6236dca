import Pluto.Links.Circular

/-!
# `mm_list.h`: intrusive lists

A `struct list_head` is named by its address, and so is the entry that it is a field of:
`container_of` takes the same number of bytes off every address.

* `initListHead`, `rawListAdd`, `listAddTail`, `rawListDel`, `rawListDelEntry`, `listDel`,
  `listMoveTail`, `listEmpty` the functions of the source, assignment by assignment;
* `listForEachEntrySafe`, `listForEachEntryReverse`   the loops, over a state that has the links;
* `rings_listAddTail`, `rings_listDel`, `rings_listMoveTail`   what becomes of lists side by side;
* `forEachEntrySafe_foldl`, `forEachEntryReverse_foldl`        which nodes the loops visit.
-/

namespace Pluto
open Links

/-- the address of a `struct list_head` -/
abbrev Addr := Nat

/-! ## the functions -/

section
variable (l : Links Addr)

/-- `a->next = b` -/
def setNext (a b : Addr) : Links Addr := { l with next := Function.update l.next a b }

/-- `a->prev = b` -/
def setPrev (a b : Addr) : Links Addr := { l with prev := Function.update l.prev a b }

def initListHead (list : Addr) : Links Addr := setPrev (setNext l list list) list list

/-- `__list_add` -/
def rawListAdd (new1 prev1 next1 : Addr) : Links Addr :=
  let l := setPrev l next1 new1
  let l := setNext l new1 next1
  let l := setPrev l new1 prev1
  setNext l prev1 new1

def listAddTail (new1 head : Addr) : Links Addr := rawListAdd l new1 (l.prev head) head

/-- `__list_del` -/
def rawListDel (prev next : Addr) : Links Addr := setNext (setPrev l next prev) prev next

/-- `__list_del_entry` -/
def rawListDelEntry (entry : Addr) : Links Addr := rawListDel l (l.prev entry) (l.next entry)

/-- `LIST_POISON1` -/
def listPoison1 : Addr := 0x00100100

/-- `LIST_POISON2` -/
def listPoison2 : Addr := 0x00200200

def listDel (entry : Addr) : Links Addr :=
  let l := rawListDel l (l.prev entry) (l.next entry)
  let l := setNext l entry listPoison1
  setPrev l entry listPoison2

def listMoveTail (list head : Addr) : Links Addr := listAddTail (rawListDelEntry l list) list head

def listEmpty (head : Addr) : Bool := l.next head == head

end

/-! ## the loops -/

section
variable {σ : Type*} (links : σ → Links Addr) (head : Addr) (body : σ → Addr → σ)

/-- `list_for_each_entry_safe` from its second round on: `n` was read before the body ran for the
entry in front -/
def forEachEntrySafeFrom : Nat → σ → Addr → Addr → Option σ
  | 0, _, _, _ => none
  | fuel + 1, s, pos, n =>
    if pos = head then some s
    else
      let s := body s pos
      forEachEntrySafeFrom fuel s n ((links s).next n)

def listForEachEntrySafe (fuel : Nat) (s : σ) : Option σ :=
  let pos := (links s).next head
  forEachEntrySafeFrom links head body fuel s pos ((links s).next pos)

def forEachEntryReverseFrom : Nat → σ → Addr → Option σ
  | 0, _, _ => none
  | fuel + 1, s, pos =>
    if pos = head then some s
    else
      let s := body s pos
      forEachEntryReverseFrom fuel s ((links s).prev pos)

def listForEachEntryReverse (fuel : Nat) (s : σ) : Option σ :=
  forEachEntryReverseFrom links head body fuel s ((links s).prev head)

end

/-! ## the assignments -/

section
variable {l : Links Addr}

theorem rawListAdd_inserted {new1 prev1 next1 : Addr} (hp : new1 ≠ prev1) (hn : new1 ≠ next1) :
    Inserted l (rawListAdd l new1 prev1 next1) new1 prev1 next1 where
  front := ⟨Function.update_self .., Function.update_self ..⟩
  back := by
    constructor
    · show Function.update (Function.update l.next new1 next1) prev1 new1 new1 = next1
      rw [Function.update_of_ne hp, Function.update_self]
    · show Function.update (Function.update l.prev next1 new1) new1 prev1 next1 = new1
      rw [Function.update_of_ne hn.symm, Function.update_self]
  next := by
    intro a hap hax
    show Function.update (Function.update l.next new1 next1) prev1 new1 a = l.next a
    rw [Function.update_of_ne hap, Function.update_of_ne hax]
  prev := by
    intro a han hax
    show Function.update (Function.update l.prev next1 new1) new1 prev1 a = l.prev a
    rw [Function.update_of_ne hax, Function.update_of_ne han]

theorem rawListDelEntry_bypassed (entry : Addr) :
    Bypassed l (rawListDelEntry l entry) entry (l.prev entry) (l.next entry) where
  linked := ⟨Function.update_self .., Function.update_self ..⟩
  next := fun _ ha _ => Function.update_of_ne ha ..
  prev := fun _ ha _ => Function.update_of_ne ha ..

theorem listDel_bypassed {entry : Addr} (hp : l.prev entry ≠ entry) (hn : l.next entry ≠ entry) :
    Bypassed l (listDel l entry) entry (l.prev entry) (l.next entry) where
  linked := by
    constructor
    · show Function.update (Function.update l.next (l.prev entry) (l.next entry)) entry listPoison1
        (l.prev entry) = _
      rw [Function.update_of_ne hp, Function.update_self]
    · show Function.update (Function.update l.prev (l.next entry) (l.prev entry)) entry listPoison2
        (l.next entry) = _
      rw [Function.update_of_ne hn, Function.update_self]
  next := by
    intro a hap hax
    show Function.update (Function.update l.next (l.prev entry) (l.next entry)) entry listPoison1 a
      = l.next a
    rw [Function.update_of_ne hax, Function.update_of_ne hap]
  prev := by
    intro a han hax
    show Function.update (Function.update l.prev (l.next entry) (l.prev entry)) entry listPoison2 a
      = l.prev a
    rw [Function.update_of_ne hax, Function.update_of_ne han]

theorem initListHead_linked (l : Links Addr) (list : Addr) :
    (initListHead l list).Linked list list :=
  ⟨Function.update_self .., Function.update_self ..⟩

/-- a head that is set up stays so, also when it is set up again -/
theorem initListHead_keeps {h : Addr} (hl : l.Linked h h) (list : Addr) :
    (initListHead l list).Linked h h := by
  by_cases hne : h = list
  · rw [hne]
    exact initListHead_linked l list
  · exact ⟨(Function.update_of_ne hne ..).trans hl.1, (Function.update_of_ne hne ..).trans hl.2⟩

end

/-! ## lists side by side -/

section
variable {ι : Type*} {l : Links Addr} {head : ι → Addr} {xs : ι → List Addr} {x a : Addr}

/-- a new node has no part in the lists -/
theorem rings_listAddTail_inserted (h : Rings l head xs) (hx : ∀ j, x ∉ head j :: xs j) (i : ι) :
    Inserted l (listAddTail l x (head i)) x (l.prev (head i)) (head i) :=
  rawListAdd_inserted (fun e => hx i (e ▸ (h.circular i).prev_head_mem)) fun e =>
    hx i (e ▸ List.mem_cons_self)

theorem listAddTail_sameAt (h : Rings l head xs) (hx : ∀ j, x ∉ head j :: xs j) {i : ι}
    (ha : a ∉ head i :: xs i) (hax : a ≠ x) : SameAt l (listAddTail l x (head i)) a :=
  (h.circular i).append_sameAt (rings_listAddTail_inserted h hx i) ha hax

variable [DecidableEq ι]

/-- `list_add_tail` -/
theorem rings_listAddTail (h : Rings l head xs) (hx : ∀ j, x ∉ head j :: xs j) (i : ι) :
    Rings (listAddTail l x (head i)) head (Function.update xs i (xs i ++ [x])) :=
  h.append hx (rings_listAddTail_inserted h hx i)

/-- new nodes one after the other -/
theorem rings_addNodes (i : ι) {ns : List Addr} (h : Rings l head xs) (hnodup : ns.Nodup)
    (hns : ∀ x ∈ ns, ∀ j, x ∉ head j :: xs j) :
    Rings (ns.foldl (fun l x => listAddTail l x (head i)) l) head
      (Function.update xs i (xs i ++ ns)) ∧
      ∀ a, a ∉ head i :: xs i → a ∉ ns →
        SameAt l (ns.foldl (fun l x => listAddTail l x (head i)) l) a := by
  induction ns generalizing l xs with
  | nil =>
    rw [List.append_nil, Function.update_eq_self]
    exact ⟨h, fun a _ _ => SameAt.refl l a⟩
  | cons x ns ih =>
    obtain ⟨hx, hrest⟩ := List.nodup_cons.mp hnodup
    have hnew := hns x List.mem_cons_self
    have hadd := rings_listAddTail h hnew i
    -- the others are still new
    have hothers : ∀ y ∈ ns, ∀ j, y ∉ head j :: Function.update xs i (xs i ++ [x]) j :=
      fun y hy j =>
        not_mem_appended (hns y (List.mem_cons_of_mem x hy) j) (ne_of_mem_of_not_mem hy hx) i
    obtain ⟨hrings, hsame⟩ := ih hadd hrest hothers
    rw [Function.update_self, Function.update_idem, List.append_assoc,
      List.singleton_append] at hrings
    refine ⟨hrings, fun a hai hans => ?_⟩
    rw [List.mem_cons, not_or] at hans
    exact (listAddTail_sameAt h hnew hai hans.1).trans
      (hsame a (not_mem_appended hai hans.1 i) hans.2)

/-- `list_move_tail`, from the list `i` to the end of another one -/
theorem rings_listMoveTail {i j : ι} {as bs : List Addr} (h : Rings l head xs)
    (hxs : xs i = as ++ x :: bs) (hij : j ≠ i) : Rings (listMoveTail l x (head j)) head
      (Function.update (Function.update xs i (as ++ bs)) j (xs j ++ [x])) := by
  have hdel := h.remove hxs (rawListDelEntry_bypassed x)
  have hadd := rings_listAddTail hdel (h.removed hxs) j
  rwa [Function.update_of_ne hij] at hadd

theorem listMoveTail_sameAt {i j : ι} {as bs : List Addr} (h : Rings l head xs)
    (hxs : xs i = as ++ x :: bs) (hij : j ≠ i) (hai : a ∉ head i :: xs i)
    (haj : a ∉ head j :: xs j) : SameAt l (listMoveTail l x (head j)) a := by
  have hc := h.circular i
  rw [hxs] at hc
  have hdel := h.remove hxs (rawListDelEntry_bypassed x)
  have hax : a ≠ x := by
    rintro rfl
    rw [hxs] at hai
    exact hai (List.mem_cons_of_mem _ (List.mem_append_right as List.mem_cons_self))
  refine (hc.remove_sameAt (rawListDelEntry_bypassed x) (hxs ▸ hai)).trans ?_
  refine listAddTail_sameAt hdel (h.removed hxs) ?_ hax
  rwa [Function.update_of_ne hij]

/-- `list_del` -/
theorem rings_listDel {i : ι} {as bs : List Addr} (h : Rings l head xs)
    (hxs : xs i = as ++ x :: bs) :
    Rings (listDel l x) head (Function.update xs i (as ++ bs)) := by
  have hc := h.circular i
  rw [hxs] at hc
  exact h.remove hxs (listDel_bypassed hc.prev_ne hc.next_ne)

end

/-! ## the iterations -/

section
variable {σ : Type*} {links : σ → Links Addr} {head : Addr} {body : σ → Addr → σ}

/-- **The safe iteration** visits the nodes in order, where the body takes the node that it gets out
of the list. -/
theorem forEachEntrySafe_foldl {I : σ → List Addr → Prop}
    (hI : ∀ s xs, I s xs → Circular (links s) head xs)
    (hstep : ∀ s x xs, I s (x :: xs) → I (body s x) xs) {s : σ} {xs : List Addr} (h : I s xs)
    {fuel : Nat} (hfuel : xs.length < fuel) :
    listForEachEntrySafe links head body fuel s = some (xs.foldl body s) ∧
      I (xs.foldl body s) [] := by
  unfold listForEachEntrySafe
  dsimp only
  induction xs generalizing s fuel with
  | nil =>
    obtain ⟨fuel, rfl⟩ := Nat.exists_eq_add_one.mpr hfuel
    have hnext : (links s).next head = head := (hI s [] h).next_head
    rw [forEachEntrySafeFrom, if_pos hnext]
    exact ⟨rfl, h⟩
  | cons x xs ih =>
    obtain ⟨fuel, rfl⟩ := Nat.exists_eq_add_one.mpr (Nat.zero_lt_of_lt hfuel)
    have hc := hI s (x :: xs) h
    have hne : x ≠ head := fun e => (List.nodup_cons.mp hc.nodup).1 (e ▸ List.mem_cons_self)
    have hbody := hstep s x xs h
    -- the next node was read before `x` left the list, and is the first one now
    have hnext : (links s).next x = (links (body s x)).next head := by
      rw [hc.next_first, (hI _ xs hbody).next_head]
    rw [hc.next_head, List.headD_cons, forEachEntrySafeFrom, if_neg hne, hnext]
    exact ih hbody (Nat.lt_of_succ_lt_succ hfuel)

/-- **The iteration from the last node on**, where the body keeps the links. -/
theorem forEachEntryReverse_foldl (hbody : ∀ s x, links (body s x) = links s) {s : σ}
    {xs : List Addr} (hc : Circular (links s) head xs) {fuel : Nat} (hfuel : xs.length < fuel) :
    listForEachEntryReverse links head body fuel s = some (xs.reverse.foldl body s) := by
  -- from a node of the list on
  have hfrom : ∀ (ys zs : List Addr) (s : σ) (fuel : Nat), Circular (links s) head (ys ++ zs) →
      ys.length < fuel →
      forEachEntryReverseFrom links head body fuel s (ys.getLastD head)
          = some (ys.reverse.foldl body s) := by
    intro ys
    induction ys using List.reverseRecOn with
    | nil =>
      intro zs s fuel _ hfuel
      obtain ⟨fuel, rfl⟩ := Nat.exists_eq_add_one.mpr hfuel
      exact if_pos rfl
    | append_singleton ys y ih =>
      intro zs s fuel hc hfuel
      obtain ⟨fuel, rfl⟩ := Nat.exists_eq_add_one.mpr (Nat.zero_lt_of_lt hfuel)
      rw [List.append_assoc, List.singleton_append] at hc
      have hne : y ≠ head := by
        rintro rfl
        exact (List.nodup_cons.mp hc.nodup).1 (List.mem_append_right ys List.mem_cons_self)
      have hprev : (links (body s y)).prev y = ys.getLastD head := by rw [hbody, hc.prev_node]
      rw [List.length_append, List.length_singleton] at hfuel
      rw [List.getLastD_concat, forEachEntryReverseFrom, if_neg hne, List.reverse_concat,
        List.foldl_cons]
      dsimp only
      rw [hprev]
      exact ih (y :: zs) (body s y) fuel (hbody s y ▸ hc) (Nat.lt_of_succ_lt_succ hfuel)
  unfold listForEachEntryReverse
  rw [hc.prev_head]
  exact hfrom xs [] s fuel ((List.append_nil xs).symm ▸ hc) hfuel

end

end Pluto

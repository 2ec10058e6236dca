import Mathlib.Data.List.Chain
import Mathlib.Data.List.Nodup
import Mathlib.Logic.Function.Basic

/-!
# Circular doubly linked lists

The links of a heap are two functions on its nodes.  A list is a circle through its head; lists that
share no node lie side by side in one heap.

* `Links.Linked`         the link from a node to the next, and the link back;
* `Links.Circular`       the list with a head and the nodes behind it, in order;
* `Links.Rings`          a family of lists without common nodes;
* `Links.Inserted`, `Links.Bypassed` the links after a node was put between two others, or left out;
* `Rings.append`, `Rings.remove`       the lists then.
-/

structure Links (α : Type*) where
  next : α → α
  prev : α → α

namespace Links

section
variable {α : Type*}

/-- `b` comes behind `a` -/
def Linked (l : Links α) (a b : α) : Prop := l.next a = b ∧ l.prev b = a

/-- the links of `a` are the same -/
def SameAt (l l' : Links α) (a : α) : Prop := l'.next a = l.next a ∧ l'.prev a = l.prev a

theorem SameAt.refl (l : Links α) (a : α) : SameAt l l a := ⟨rfl, rfl⟩

theorem SameAt.trans {l l' l'' : Links α} {a : α} (h : SameAt l l' a) (h' : SameAt l' l'' a) :
    SameAt l l'' a :=
  ⟨h'.1.trans h.1, h'.2.trans h.2⟩

/-- a chain reads the forward links of all nodes but the last, and the backward links of all but the
first -/
theorem chain_congr {l l' : Links α} {xs : List α} (h : xs.IsChain l.Linked)
    (hnext : ∀ a ∈ xs.dropLast, l'.next a = l.next a)
    (hprev : ∀ b ∈ xs.tail, l'.prev b = l.prev b) :
    xs.IsChain l'.Linked := by
  induction xs with
  | nil => exact List.isChain_nil
  | cons a xs ih =>
    cases xs with
    | nil => exact List.isChain_singleton a
    | cons b xs =>
      obtain ⟨⟨hab, hba⟩, hrest⟩ := List.isChain_cons_cons.mp h
      rw [List.dropLast_cons_cons] at hnext
      refine List.isChain_cons_cons.mpr ⟨⟨?_, ?_⟩, ?_⟩
      · rw [hnext a List.mem_cons_self, hab]
      · rw [hprev b List.mem_cons_self, hba]
      · exact ih hrest (fun c hc => hnext c (List.mem_cons_of_mem a hc)) fun c hc =>
          hprev c (List.mem_cons_of_mem b hc)

/-- the nodes behind one, with the head at the end of the circle, or at its start -/
theorem mem_concat_head {h b : α} {bs : List α} : b ∈ bs ++ [h] ↔ b ∈ h :: bs := by
  rw [List.mem_append, List.mem_singleton, List.mem_cons, or_comm]

/-- the last node in front of one, where the head is in front of all -/
theorem getLastD_of_concat {h p : α} {as us : List α} (hus : h :: as = us ++ [p]) :
    as.getLastD h = p := by
  have hlast := congrArg List.getLast? hus
  rw [List.getLast?_cons, List.getLast?_concat, Option.some.injEq] at hlast
  rw [List.getLastD_eq_getLast?, hlast]

/-! ## one list -/

/-- the list with head `h` and nodes `xs`: a circle without repetition -/
structure Circular (l : Links α) (h : α) (xs : List α) : Prop where
  chain : (h :: (xs ++ [h])).IsChain l.Linked
  nodup : (h :: xs).Nodup

section
variable {l l' : Links α} {h x : α} {xs : List α}

theorem Circular.congr (hc : Circular l h xs) (hsame : ∀ a ∈ h :: xs, SameAt l l' a) :
    Circular l' h xs := by
  refine ⟨chain_congr hc.chain ?_ ?_, hc.nodup⟩
  · intro a ha
    rw [← List.cons_append, List.dropLast_concat] at ha
    exact (hsame a ha).1
  · intro b hb
    exact (hsame b (mem_concat_head.mp hb)).2

theorem circular_nil : Circular l h [] ↔ l.Linked h h :=
  ⟨fun hc => List.isChain_pair.mp hc.chain,
    fun hl => ⟨List.isChain_pair.mpr hl, List.nodup_singleton h⟩⟩

/-- the node behind the head -/
theorem Circular.next_head (hc : Circular l h xs) : l.next h = xs.headD h := by
  have hchain := hc.chain
  cases xs with
  | nil => exact (List.isChain_pair.mp hchain).1
  | cons a xs => exact (List.isChain_cons_cons.mp hchain).1.1

theorem Circular.next_head_eq (hc : Circular l h xs) : l.next h = h ↔ xs = [] := by
  rw [hc.next_head]
  cases xs with
  | nil => exact iff_of_true rfl rfl
  | cons a xs =>
    have hne : a ≠ h := fun e => (List.nodup_cons.mp hc.nodup).1 (e ▸ List.mem_cons_self)
    exact iff_of_false hne (List.cons_ne_nil a xs)

/-- the node behind the first one -/
theorem Circular.next_first (hc : Circular l h (x :: xs)) : l.next x = xs.headD h := by
  have hchain := (List.isChain_cons_cons.mp hc.chain).2
  cases xs with
  | nil => exact (List.isChain_pair.mp hchain).1
  | cons a xs => exact (List.isChain_cons_cons.mp hchain).1.1

/-- the links say which nodes the list has -/
theorem Circular.unique {ys : List α} (hc : Circular l h xs) (hc' : Circular l h ys) : xs = ys := by
  -- from any node on, up to the head
  have hfrom : ∀ (xs ys : List α) (a : α), (a :: (xs ++ [h])).IsChain l.Linked →
      (a :: (ys ++ [h])).IsChain l.Linked →
      h ∉ xs → h ∉ ys → xs = ys := by
    intro xs
    induction xs with
    | nil =>
      intro ys a hx hy _ hys
      cases ys with
      | nil => rfl
      | cons y ys =>
        have hxa := (List.isChain_pair.mp hx).1
        have hya := (List.isChain_cons_cons.mp hy).1.1
        exact absurd (hxa.symm.trans hya ▸ List.mem_cons_self) hys
    | cons x xs ih =>
      intro ys a hx hy hxs hys
      obtain ⟨⟨hxa, -⟩, hx⟩ := List.isChain_cons_cons.mp hx
      cases ys with
      | nil =>
        have hya := (List.isChain_pair.mp hy).1
        exact absurd (hya.symm.trans hxa ▸ List.mem_cons_self) hxs
      | cons y ys =>
        obtain ⟨⟨hya, -⟩, hy⟩ := List.isChain_cons_cons.mp hy
        obtain rfl : x = y := hxa.symm.trans hya
        rw [ih ys x hx hy (fun hmem => hxs (List.mem_cons_of_mem x hmem)) fun hmem =>
          hys (List.mem_cons_of_mem x hmem)]
  exact hfrom xs ys h hc.chain hc'.chain (List.nodup_cons.mp hc.nodup).1
    (List.nodup_cons.mp hc'.nodup).1

/-- the node in front of the head -/
theorem Circular.last (hc : Circular l h xs) :
    ∃ us p, h :: xs = us ++ [p] ∧ l.prev h = p ∧ (us ++ [p]).IsChain l.Linked := by
  have hlast : h :: xs = (h :: xs).dropLast ++ [(h :: xs).getLast (List.cons_ne_nil h xs)] :=
    (List.dropLast_append_getLast _).symm
  have hchain := hc.chain
  rw [← List.cons_append, hlast, List.append_assoc, List.singleton_append,
    List.isChain_append_cons_cons] at hchain
  exact ⟨_, _, hlast, hchain.2.1.2, hchain.1⟩

theorem Circular.prev_head (hc : Circular l h xs) : l.prev h = xs.getLastD h := by
  obtain ⟨us, p, hus, hp, -⟩ := hc.last
  rw [hp, getLastD_of_concat hus]

/-- a node with its neighbours -/
theorem Circular.around {as bs : List α} (hc : Circular l h (as ++ x :: bs)) :
    ∃ us p n vs, h :: as = us ++ [p] ∧ bs ++ [h] = n :: vs ∧ l.prev x = p ∧ l.next x = n ∧
      (us ++ [p]).IsChain l.Linked ∧ (n :: vs).IsChain l.Linked := by
  have hfront : h :: as = (h :: as).dropLast ++ [(h :: as).getLast (List.cons_ne_nil h as)] :=
    (List.dropLast_append_getLast _).symm
  obtain ⟨n, vs, hback⟩ :=
    List.exists_cons_of_ne_nil (List.append_ne_nil_of_right_ne_nil bs (List.cons_ne_nil h []))
  have hchain := hc.chain
  rw [List.append_assoc, List.cons_append, hback, ← List.cons_append, hfront, List.append_assoc,
    List.singleton_append, List.isChain_append_cons_cons, List.isChain_cons_cons] at hchain
  obtain ⟨hus, hpx, hxn, hvs⟩ := hchain
  exact ⟨_, _, n, vs, hfront, hback, hpx.2, hxn.1, hus, hvs⟩

/-- the node in front of one -/
theorem Circular.prev_node {as bs : List α} (hc : Circular l h (as ++ x :: bs)) :
    l.prev x = as.getLastD h := by
  obtain ⟨us, p, n, vs, hus, -, hp, -⟩ := hc.around
  rw [hp, getLastD_of_concat hus]

/-- the neighbours of a node are in front of it and behind it -/
theorem Circular.neighbours {as bs : List α} (hc : Circular l h (as ++ x :: bs)) :
    l.prev x ∈ h :: as ∧ l.next x ∈ h :: bs := by
  obtain ⟨us, p, n, vs, hus, hvs, hp, hn, -, -⟩ := hc.around
  constructor
  · rw [hp, hus]
    exact List.mem_append_right us (List.mem_singleton_self p)
  · rw [hn, ← mem_concat_head, hvs]
    exact List.mem_cons_self

/-- a node is not in the rest of its list -/
theorem Circular.not_mem_rest {as bs : List α} (hc : Circular l h (as ++ x :: bs)) :
    x ∉ h :: as ++ bs :=
  (List.nodup_cons.mp (List.nodup_middle.mp (show (h :: as ++ x :: bs).Nodup from hc.nodup))).1

/-- no node is its own neighbour -/
theorem Circular.prev_ne {as bs : List α} (hc : Circular l h (as ++ x :: bs)) : l.prev x ≠ x :=
  fun e => hc.not_mem_rest (List.mem_append_left bs (e ▸ hc.neighbours.1))

theorem Circular.next_ne {as bs : List α} (hc : Circular l h (as ++ x :: bs)) : l.next x ≠ x := by
  intro e
  rcases List.mem_cons.mp (e ▸ hc.neighbours.2) with hx | hx
  · exact hc.not_mem_rest (List.mem_append_left bs (hx ▸ List.mem_cons_self))
  · exact hc.not_mem_rest (List.mem_append_right _ hx)

end

/-! ## one node more, one node less -/

/-- `x` stands between `p` and `n`, and no other link has changed -/
structure Inserted (l l' : Links α) (x p n : α) : Prop where
  front : l'.Linked p x
  back : l'.Linked x n
  next : ∀ a, a ≠ p → a ≠ x → l'.next a = l.next a
  prev : ∀ a, a ≠ n → a ≠ x → l'.prev a = l.prev a

/-- `n` stands behind `p`, and no other link has changed but those of `x` -/
structure Bypassed (l l' : Links α) (x p n : α) : Prop where
  linked : l'.Linked p n
  next : ∀ a, a ≠ p → a ≠ x → l'.next a = l.next a
  prev : ∀ a, a ≠ n → a ≠ x → l'.prev a = l.prev a

section
variable {l l' : Links α} {h x a : α} {xs as bs : List α}

/-- the chain up to the last node in front of the change -/
theorem front_congr {us : List α} {p n : α} (hchain : (us ++ [p]).IsChain l.Linked)
    (hus : h :: as = us ++ [p]) (hnodup : (h :: as).Nodup) (hx : x ∉ h :: as) (hn : n ∉ as)
    (hnext : ∀ a, a ≠ p → a ≠ x → l'.next a = l.next a)
    (hprev : ∀ a, a ≠ n → a ≠ x → l'.prev a = l.prev a) :
    (us ++ [p]).IsChain l'.Linked := by
  rw [hus] at hnodup
  refine chain_congr hchain (fun a ha => ?_) fun b hb => ?_
  · rw [List.dropLast_concat] at ha
    have hmem : a ∈ h :: as := hus ▸ List.mem_append_left [p] ha
    refine hnext a (fun e => ?_) fun e => hx (e ▸ hmem)
    exact List.disjoint_of_nodup_append hnodup ha (e ▸ List.mem_singleton_self p)
  · rw [← hus] at hb
    exact hprev b (fun e => hn (e ▸ hb)) fun e => hx (e ▸ List.mem_cons_of_mem h hb)

/-- the chain from the first node behind the change on -/
theorem back_congr {vs : List α} {p n : α} (hchain : (n :: vs).IsChain l.Linked)
    (hvs : bs ++ [h] = n :: vs) (hnodup : (h :: bs).Nodup) (hx : x ∉ h :: bs) (hp : p ∉ bs)
    (hnext : ∀ a, a ≠ p → a ≠ x → l'.next a = l.next a)
    (hprev : ∀ a, a ≠ n → a ≠ x → l'.prev a = l.prev a) :
    (n :: vs).IsChain l'.Linked := by
  have hlast : (n :: vs).Nodup := by
    rw [← hvs]
    exact List.nodup_append_comm.mp hnodup
  refine chain_congr hchain (fun a ha => ?_) fun b hb => ?_
  · rw [← hvs, List.dropLast_concat] at ha
    exact hnext a (fun e => hp (e ▸ ha)) fun e => hx (e ▸ List.mem_cons_of_mem h ha)
  · have hmem : b ∈ h :: bs := by
      rw [← mem_concat_head, hvs]
      exact List.mem_cons_of_mem n hb
    exact hprev b (fun e => (List.nodup_cons.mp hlast).1 (e ▸ hb)) fun e => hx (e ▸ hmem)

theorem Circular.append (hc : Circular l h xs) (hx : x ∉ h :: xs)
    (hi : Inserted l l' x (l.prev h) h) :
    Circular l' h (xs ++ [x]) := by
  obtain ⟨us, p, hus, hp, hchain⟩ := hc.last
  rw [hp] at hi
  refine ⟨?_, ?_⟩
  · have hlist : h :: (xs ++ [x] ++ [h]) = us ++ p :: x :: [h] := by
      rw [← List.cons_append, ← List.cons_append, hus, List.append_assoc, List.append_assoc]
      rfl
    have hh : h ∉ xs := (List.nodup_cons.mp hc.nodup).1
    rw [hlist, List.isChain_append_cons_cons, List.isChain_pair]
    exact ⟨front_congr hchain hus hc.nodup hx hh hi.next hi.prev, hi.front, hi.back⟩
  · rw [← List.cons_append]
    exact hc.nodup.append (List.nodup_singleton x) fun b hb hbx =>
      hx (List.mem_singleton.mp hbx ▸ hb)

theorem Circular.remove (hc : Circular l h (as ++ x :: bs))
    (hb : Bypassed l l' x (l.prev x) (l.next x)) :
    Circular l' h (as ++ bs) := by
  have hnodup : (h :: as ++ x :: bs).Nodup := hc.nodup
  have hrest : (h :: as ++ bs).Nodup := (List.nodup_cons.mp (List.nodup_middle.mp hnodup)).2
  have hx := hc.not_mem_rest
  obtain ⟨hprev, hnext⟩ := hc.neighbours
  obtain ⟨us, p, n, vs, hus, hvs, hp, hn, hfront, hback⟩ := hc.around
  rw [hp] at hb hprev
  rw [hn] at hb hnext
  have hdisj : List.Disjoint (h :: as) bs := List.disjoint_of_nodup_append hrest
  have hh : h ∉ as ++ bs := (List.nodup_cons.mp hrest).1
  -- neither neighbour is on the other side, but for the head
  have hn' : n ∉ as := by
    rcases List.mem_cons.mp hnext with rfl | hmem
    · exact fun ha => hh (List.mem_append_left bs ha)
    · exact fun ha => hdisj (List.mem_cons_of_mem h ha) hmem
  have hp' : p ∉ bs := fun hmem => hdisj hprev hmem
  have hxas : x ∉ h :: as := fun ha => hx (List.mem_append_left bs ha)
  have hxbs : x ∉ h :: bs := by
    intro hmem
    rcases List.mem_cons.mp hmem with e | hmem
    · exact hxas (e ▸ List.mem_cons_self)
    · exact hx (List.mem_append_right _ hmem)
  have hhbs : (h :: bs).Nodup :=
    List.nodup_cons.mpr ⟨fun hmem => hh (List.mem_append_right as hmem), hrest.of_append_right⟩
  have hlist : h :: (as ++ bs ++ [h]) = us ++ p :: n :: vs := by
    rw [List.append_assoc, hvs, ← List.cons_append, hus, List.append_assoc]
    rfl
  refine ⟨?_, hrest⟩
  rw [hlist, List.isChain_append_cons_cons]
  exact ⟨front_congr hfront hus hrest.of_append_left hxas hn' hb.next hb.prev, hb.linked,
    back_congr hback hvs hhbs hxbs hp' hb.next hb.prev⟩

/-- the node in front of the head is one of the list -/
theorem Circular.prev_head_mem (hc : Circular l h xs) : l.prev h ∈ h :: xs := by
  obtain ⟨us, p, hus, hp, -⟩ := hc.last
  rw [hp, hus]
  exact List.mem_append_right us (List.mem_singleton_self p)

/-- the neighbours of a node are in its list -/
theorem Circular.neighbours_mem (hc : Circular l h (as ++ x :: bs)) :
    l.prev x ∈ h :: (as ++ x :: bs) ∧ l.next x ∈ h :: (as ++ x :: bs) := by
  obtain ⟨hp, hn⟩ := hc.neighbours
  constructor
  · exact List.mem_append_left (x :: bs) hp
  · rcases List.mem_cons.mp hn with hn | hn
    · exact List.mem_cons.mpr (Or.inl hn)
    · exact List.mem_cons_of_mem h (List.mem_append_right as (List.mem_cons_of_mem x hn))

theorem Inserted.sameAt {p n : α} (hi : Inserted l l' x p n) (hp : a ≠ p) (hn : a ≠ n)
    (hx : a ≠ x) : SameAt l l' a :=
  ⟨hi.next a hp hx, hi.prev a hn hx⟩

theorem Bypassed.sameAt {p n : α} (hb : Bypassed l l' x p n) (hp : a ≠ p) (hn : a ≠ n)
    (hx : a ≠ x) : SameAt l l' a :=
  ⟨hb.next a hp hx, hb.prev a hn hx⟩

/-- a node outside the list keeps its neighbours -/
theorem Circular.append_sameAt (hc : Circular l h xs) (hi : Inserted l l' x (l.prev h) h)
    (ha : a ∉ h :: xs) (hx : a ≠ x) : SameAt l l' a :=
  hi.sameAt (fun e => ha (e ▸ hc.prev_head_mem)) (fun e => ha (e ▸ List.mem_cons_self)) hx

theorem Circular.remove_sameAt (hc : Circular l h (as ++ x :: bs))
    (hb : Bypassed l l' x (l.prev x) (l.next x)) (ha : a ∉ h :: (as ++ x :: bs)) :
    SameAt l l' a := by
  obtain ⟨hp, hn⟩ := hc.neighbours_mem
  refine hb.sameAt (fun e => ha (e ▸ hp)) (fun e => ha (e ▸ hn)) fun e => ha (e ▸ ?_)
  exact List.mem_cons_of_mem h (List.mem_append_right as List.mem_cons_self)

end

end

/-! ## lists side by side -/

section
variable {α ι : Type*} {l l' : Links α} {head : ι → α} {xs : ι → List α} {i : ι} {x a : α}

/-- a family of lists, each with its head; no node or head is in two of them -/
structure Rings (l : Links α) (head : ι → α) (xs : ι → List α) : Prop where
  circular : ∀ i, Circular l (head i) (xs i)
  disjoint : Pairwise fun i j => List.Disjoint (head i :: xs i) (head j :: xs j)

theorem Rings.congr (h : Rings l head xs) (hsame : ∀ i, ∀ a ∈ head i :: xs i, SameAt l l' a) :
    Rings l' head xs :=
  ⟨fun i => (h.circular i).congr (hsame i), h.disjoint⟩

/-- a node of one list is in no other -/
theorem Rings.not_mem {j : ι} (h : Rings l head xs) (ha : a ∈ head j :: xs j) (hj : j ≠ i) :
    a ∉ head i :: xs i :=
  fun hi => h.disjoint hj ha hi

variable [DecidableEq ι]

/-- one list has changed: it has nodes of its own, or new ones, and the others have kept their
links -/
theorem Rings.update {ys : List α} (h : Rings l head xs) (hc : Circular l' (head i) ys)
    (hnew : ∀ b ∈ ys, b ∈ xs i ∨ ∀ j, b ∉ head j :: xs j)
    (hsame : ∀ j, j ≠ i → ∀ a ∈ head j :: xs j, SameAt l l' a) :
    Rings l' head (Function.update xs i ys) := by
  -- the changed list against another one
  have hdisj : ∀ j, j ≠ i → List.Disjoint (head i :: ys) (head j :: xs j) := by
    intro j hj b hb hbj
    rcases List.mem_cons.mp hb with rfl | hb
    · exact h.disjoint hj hbj List.mem_cons_self
    · rcases hnew b hb with hb | hb
      · exact h.disjoint hj hbj (List.mem_cons_of_mem _ hb)
      · exact hb j hbj
  refine ⟨fun j => ?_, fun j k hjk => ?_⟩
  · by_cases hj : j = i
    · subst hj
      rwa [Function.update_self]
    · rw [Function.update_of_ne hj]
      exact (h.circular j).congr (hsame j hj)
  · show List.Disjoint (head j :: Function.update xs i ys j) (head k :: Function.update xs i ys k)
    by_cases hj : j = i
    · subst hj
      rw [Function.update_self, Function.update_of_ne hjk.symm]
      exact hdisj k hjk.symm
    · rw [Function.update_of_ne hj]
      by_cases hk : k = i
      · subst hk
        rw [Function.update_self]
        exact fun b hb hbk => hdisj j hj hbk hb
      · rw [Function.update_of_ne hk]
        exact h.disjoint hjk

/-- a list with one node more has this node and the old ones -/
theorem not_mem_appended {j : ι} (ha : a ∉ head j :: xs j) (hax : a ≠ x) (i : ι) :
    a ∉ head j :: Function.update xs i (xs i ++ [x]) j := by
  by_cases hj : j = i
  · subst hj
    rw [Function.update_self, ← List.cons_append]
    intro hmem
    rcases List.mem_append.mp hmem with hmem | hmem
    · exact ha hmem
    · exact hax (List.mem_singleton.mp hmem)
  · rwa [Function.update_of_ne hj]

/-- **A new node at the end of a list.** -/
theorem Rings.append (h : Rings l head xs) (hx : ∀ j, x ∉ head j :: xs j)
    (hi : Inserted l l' x (l.prev (head i)) (head i)) :
    Rings l' head (Function.update xs i (xs i ++ [x])) := by
  refine h.update ((h.circular i).append (hx i) hi) ?_ ?_
  · intro b hb
    rcases List.mem_append.mp hb with hb | hb
    · exact Or.inl hb
    · rw [List.mem_singleton.mp hb]
      exact Or.inr hx
  · intro j hj a ha
    exact (h.circular i).append_sameAt hi (h.not_mem ha hj) fun e => hx j (e ▸ ha)

/-- **A node taken out of a list.** -/
theorem Rings.remove {as bs : List α} (h : Rings l head xs) (hxs : xs i = as ++ x :: bs)
    (hb : Bypassed l l' x (l.prev x) (l.next x)) :
    Rings l' head (Function.update xs i (as ++ bs)) := by
  have hc := h.circular i
  rw [hxs] at hc
  refine h.update (hc.remove hb) ?_ ?_
  · intro b hb
    rw [hxs]
    exact Or.inl ((List.Sublist.append_left (List.sublist_cons_self x bs) as).subset hb)
  · intro j hj a ha
    exact hc.remove_sameAt hb (hxs ▸ h.not_mem ha hj)

/-- a node that was taken out is in no list -/
theorem Rings.removed {as bs : List α} (h : Rings l head xs) (hxs : xs i = as ++ x :: bs) (j : ι) :
    x ∉ head j :: Function.update xs i (as ++ bs) j := by
  have hmem : x ∈ head i :: xs i := by
    rw [hxs]
    exact List.mem_cons_of_mem _ (List.mem_append_right as List.mem_cons_self)
  by_cases hj : j = i
  · subst hj
    have hnodup := (h.circular j).nodup
    rw [hxs, ← List.cons_append, List.nodup_middle] at hnodup
    rw [Function.update_self]
    exact (List.nodup_cons.mp hnodup).1
  · rw [Function.update_of_ne hj]
    exact h.not_mem hmem (Ne.symm hj)

end

end Links

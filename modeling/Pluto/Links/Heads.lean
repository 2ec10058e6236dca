import Pluto.Links.Circular

/-!
# Heads that come and go

Any node may be the head of a list, and stop being one.  `Heads α` says which nodes are heads, and
which nodes are behind each; in `Rings` the heads are fixed.

* `Links.Relinked`        where links may have changed;
* `Relinked.segment`      a segment of a list that is still one;
* `Circular.exchange`, `Circular.leave_out` a segment that gives its place to another one, or is
  left out;
* `Links.Holds`           the links of the lists of `Heads α`;
* `Holds.relink`, `Holds.clear`, `Holds.new`   lists that are kept, forgotten and new;
* `Holds.change`          one list with other nodes.
-/

namespace Links

/-! ## segments -/

section
variable {α : Type*} {l l' l'' : Links α} {h : α} {A B as bs xs ys : List α}

/-- only the nodes `A` may have got another next node, and only the nodes `B` another previous
one -/
structure Relinked (l l' : Links α) (A B : List α) : Prop where
  next : ∀ a, a ∉ A → l'.next a = l.next a
  prev : ∀ b, b ∉ B → l'.prev b = l.prev b

theorem Relinked.sameAt (hr : Relinked l l' A B) {a : α} (hA : a ∉ A) (hB : a ∉ B) :
    SameAt l l' a :=
  ⟨hr.next a hA, hr.prev a hB⟩

theorem Inserted.relinked {x p n : α} (hi : Inserted l l' x p n) : Relinked l l' [p, x] [n, x] := by
  constructor
  · intro a ha
    exact hi.next a (List.ne_of_not_mem_cons ha)
      (List.ne_of_not_mem_cons (List.not_mem_of_not_mem_cons ha))
  · intro b hb
    exact hi.prev b (List.ne_of_not_mem_cons hb)
      (List.ne_of_not_mem_cons (List.not_mem_of_not_mem_cons hb))

theorem Bypassed.relinked {x p n : α} (hb : Bypassed l l' x p n) : Relinked l l' [p, x] [n, x] := by
  constructor
  · intro a ha
    exact hb.next a (List.ne_of_not_mem_cons ha)
      (List.ne_of_not_mem_cons (List.not_mem_of_not_mem_cons ha))
  · intro b hb'
    exact hb.prev b (List.ne_of_not_mem_cons hb')
      (List.ne_of_not_mem_cons (List.not_mem_of_not_mem_cons hb'))

/-- a segment whose last node alone has another next node, and whose first one alone has another
previous node -/
theorem Relinked.segment (hr : Relinked l l' A B) (hc : xs.IsChain l.Linked) (hnodup : xs.Nodup)
    (hA : ∀ a ∈ A, a ∈ xs → xs.getLast? = some a) (hB : ∀ b ∈ B, b ∈ xs → xs.head? = some b) :
    xs.IsChain l'.Linked := by
  refine chain_congr hc (fun a ha => hr.next a fun hmem => ?_) fun b hb => hr.prev b fun hmem => ?_
  · have hlast := List.dropLast_append_getLast? a (hA a hmem (List.dropLast_subset xs ha))
    rw [← hlast] at hnodup
    exact List.disjoint_of_nodup_append hnodup ha List.mem_cons_self
  · obtain ⟨ys, rfl⟩ := List.head?_eq_some_iff.mp (hB b hmem (List.mem_of_mem_tail hb))
    exact (List.nodup_cons.mp hnodup).1 hb

theorem forall_mem_pair {P : α → Prop} {x y : α} : (∀ a ∈ [x, y], P a) ↔ P x ∧ P y := by
  rw [List.forall_mem_cons, List.forall_mem_singleton]

theorem headD_mem_cons (h : α) (bs : List α) : bs.headD h ∈ h :: bs := by
  cases bs with
  | nil => exact List.mem_cons_self
  | cons b bs => exact List.mem_cons_of_mem h List.mem_cons_self

/-- the nodes around a place of a list are in it -/
theorem around_mem (h : α) (as bs : List α) :
    as.getLastD h ∈ h :: (as ++ bs) ∧ bs.headD h ∈ h :: (as ++ bs) := by
  constructor
  · exact List.mem_append_left bs List.getLastD_mem_cons
  · rcases List.mem_cons.mp (headD_mem_cons h bs) with hb | hb
    · rw [hb]
      exact List.mem_cons_self
    · exact List.mem_append_right (h :: as) hb

/-- a list opened between two nodes -/
theorem circular_append_iff : Circular l h (as ++ bs) ↔
    ((h :: as).IsChain l.Linked ∧ (bs ++ [h]).IsChain l.Linked ∧
      l.Linked (as.getLastD h) (bs.headD h)) ∧
      (h :: (as ++ bs)).Nodup := by
  have hopen : h :: (as ++ bs ++ [h]) = (h :: as) ++ (bs ++ [h]) := by simp
  have hchain : (h :: (as ++ bs ++ [h])).IsChain l.Linked ↔
      (h :: as).IsChain l.Linked ∧ (bs ++ [h]).IsChain l.Linked ∧
          l.Linked (as.getLastD h) (bs.headD h) := by
    have hlast : (h :: as).getLast? = some (as.getLastD h) := by
      rw [List.getLast?_cons, List.getLastD_eq_getLast?]
    have hfirst : (bs ++ [h]).head? = some (bs.headD h) := by cases bs <;> rfl
    rw [hopen, List.isChain_append, hlast, hfirst]
    simp only [Option.mem_some_iff, forall_eq']
  constructor
  · intro hc
    exact ⟨hchain.mp hc.chain, hc.nodup⟩
  · intro hc
    exact ⟨hchain.mpr hc.1, hc.2⟩

/-- both sides of the place where a list was opened -/
theorem Relinked.sides (hr : Relinked l l' A B) (hfront : (h :: as).IsChain l.Linked)
    (hback : (bs ++ [h]).IsChain l.Linked) (hnodup : (h :: (as ++ bs)).Nodup)
    (hA : ∀ a ∈ A, a ∈ h :: (as ++ bs) → a = as.getLastD h)
    (hB : ∀ b ∈ B, b ∈ h :: (as ++ bs) → b = bs.headD h) :
    (h :: as).IsChain l'.Linked ∧ (bs ++ [h]).IsChain l'.Linked := by
  have hsplit : ((h :: as) ++ bs).Nodup := hnodup
  have hdisj : List.Disjoint (h :: as) bs := List.disjoint_of_nodup_append hsplit
  have hbsh : (bs ++ [h]).Nodup := by
    refine List.nodup_append_comm.mp (List.nodup_cons.mpr ⟨fun hmem => ?_, ?_⟩)
    · exact hdisj List.mem_cons_self hmem
    · exact hsplit.of_append_right
  constructor
  · refine hr.segment hfront hsplit.of_append_left (fun a ha hmem => ?_) fun b hb hmem => ?_
    · rw [hA a ha (List.mem_append_left bs hmem)]
      simp [List.getLast?_cons]
    · have hfirst := hB b hb (List.mem_append_left bs hmem)
      cases bs with
      | nil =>
        rw [hfirst]
        rfl
      | cons n bs =>
        rw [hfirst] at hmem
        exact absurd List.mem_cons_self (hdisj hmem)
  · refine hr.segment hback hbsh (fun a ha hmem => ?_) fun b hb hmem => ?_
    · rw [List.getLast?_concat]
      rcases List.mem_append.mp hmem with hmem | hmem
      · have hlast := hA a ha (List.mem_append_right (h :: as) hmem)
        have hin : a ∈ h :: as := hlast ▸ List.getLastD_mem_cons
        exact absurd hmem (hdisj hin)
      · rw [List.mem_singleton.mp hmem]
    · have hmem' : b ∈ h :: (as ++ bs) := by
        rcases List.mem_append.mp hmem with hmem | hmem
        · exact List.mem_append_right (h :: as) hmem
        · rw [List.mem_singleton.mp hmem]
          exact List.mem_cons_self
      rw [hB b hb hmem']
      cases bs <;> rfl

/-- what is in front of a segment, and what is behind it -/
theorem Circular.outside (hc : Circular l h (as ++ (ys ++ bs))) :
    (h :: as).IsChain l.Linked ∧ (bs ++ [h]).IsChain l.Linked := by
  obtain ⟨⟨has, hbs, -⟩, -⟩ := circular_append_iff.mp hc
  rw [List.append_assoc] at hbs
  exact ⟨has, hbs.right_of_append⟩

/-- **A segment of a list that gives its place to another one.** -/
theorem Circular.exchange {zs : List α} {f g : α} (hc : Circular l h (as ++ (zs ++ bs)))
    (hys : ys.IsChain l.Linked) (hf : ys.head? = some f) (hg : ys.getLast? = some g)
    (hnodup : (h :: (as ++ (ys ++ bs))).Nodup) (hr : Relinked l l' A B)
    (hA : ∀ a ∈ A, (a ∈ h :: (as ++ bs) → a = as.getLastD h) ∧ (a ∈ ys → a = g))
    (hB : ∀ b ∈ B, (b ∈ h :: (as ++ bs) → b = bs.headD h) ∧ (b ∈ ys → b = f))
    (hfront : l'.Linked (as.getLastD h) f) (hback : l'.Linked g (bs.headD h)) :
    Circular l' h (as ++ (ys ++ bs)) := by
  obtain ⟨has, hbs⟩ := hc.outside
  have hrest : (h :: (as ++ bs)).Nodup :=
    hnodup.sublist (((List.sublist_append_right ys bs).append_left as).cons_cons h)
  obtain ⟨has', hbs'⟩ := hr.sides has hbs hrest (fun a ha => (hA a ha).1) fun b hb => (hB b hb).1
  have hys' : ys.IsChain l'.Linked := by
    refine hr.segment hys ?_ (fun a ha hmem => ?_) fun b hb hmem => ?_
    · have hsplit : ((h :: as) ++ (ys ++ bs)).Nodup := hnodup
      exact hsplit.of_append_right.of_append_left
    · rw [hg, (hA a ha).2 hmem]
    · rw [hf, (hB b hb).2 hmem]
  refine circular_append_iff.mpr ⟨⟨has', ?_, ?_⟩, hnodup⟩
  · rw [List.append_assoc, List.isChain_append]
    refine ⟨hys', hbs', fun x hx y hy => ?_⟩
    have hy' : (bs ++ [h]).head? = some (bs.headD h) := by cases bs <;> rfl
    rw [hg] at hx
    rw [hy'] at hy
    cases hx
    cases hy
    exact hback
  · have hhead : (ys ++ bs).headD h = f := by
      rw [List.headD_eq_head?_getD, List.head?_append, hf]
      rfl
    rwa [hhead]

/-- **A list without a segment.** -/
theorem Circular.leave_out (hc : Circular l h (as ++ (ys ++ bs))) (hr : Relinked l l' A B)
    (hA : ∀ a ∈ A, a ∈ h :: (as ++ bs) → a = as.getLastD h)
    (hB : ∀ b ∈ B, b ∈ h :: (as ++ bs) → b = bs.headD h)
    (hlinked : l'.Linked (as.getLastD h) (bs.headD h)) : Circular l' h (as ++ bs) := by
  obtain ⟨has, hbs⟩ := hc.outside
  have hrest : (h :: (as ++ bs)).Nodup :=
    hc.nodup.sublist (((List.sublist_append_right ys bs).append_left as).cons_cons h)
  obtain ⟨hfront, hback⟩ := hr.sides has hbs hrest hA hB
  exact circular_append_iff.mpr ⟨⟨hfront, hback, hlinked⟩, hrest⟩

/-- a segment and a head that closes it -/
theorem circular_of_segment (hxs : xs.IsChain l.Linked) (hfirst : l.Linked h (xs.headD h))
    (hlast : l.Linked (xs.getLastD h) h) (hnodup : (h :: xs).Nodup) : Circular l h xs := by
  rw [← List.append_nil xs] at hnodup ⊢
  refine circular_append_iff.mpr ⟨⟨?_, List.isChain_singleton h, hlast⟩, hnodup⟩
  cases xs with
  | nil => exact List.isChain_singleton h
  | cons x xs => exact List.isChain_cons_cons.mpr ⟨hfirst, hxs⟩

/-- two nodes next to each other -/
theorem Circular.linked (hc : Circular l h (as ++ bs)) : l.Linked (as.getLastD h) (bs.headD h) :=
  (circular_append_iff.mp hc).1.2.2

/-- the node behind one -/
theorem Circular.next_node {x : α} (hc : Circular l h (as ++ x :: bs)) : l.next x = bs.headD h := by
  rw [← List.singleton_append, ← List.append_assoc] at hc
  have hlinked := hc.linked.1
  rwa [List.getLastD_concat] at hlinked

/-- the nodes behind a head -/
theorem Circular.segment (hc : Circular l h xs) : xs.IsChain l.Linked := by
  rw [← List.append_nil xs] at hc
  exact (circular_append_iff.mp hc).1.1.tail

/-- the first nodes of a list behind another head, and the rest behind its own -/
theorem Circular.cut {k f g : α} (hc : Circular l h (as ++ bs)) (hk : k ∉ h :: (as ++ bs))
    (hf : as.head? = some f) (hg : as.getLast? = some g)
    (hr : Relinked l l' [k, g, h] [f, k, bs.headD h]) (hfirst : l'.Linked k f)
    (hlast : l'.Linked g k) (hrest : l'.Linked h (bs.headD h)) :
    Circular l' k as ∧ Circular l' h bs := by
  have hsplit : ((h :: as) ++ bs).Nodup := hc.nodup
  have hdisj : List.Disjoint (h :: as) bs := List.disjoint_of_nodup_append hsplit
  have hfas : f ∈ as := List.mem_of_head? hf
  have hgas : g ∈ as := List.mem_of_getLast? hg
  have hnodup := List.nodup_cons.mp hc.nodup
  have hkas : k ∉ as := fun hmem => hk (List.mem_cons_of_mem h (List.mem_append_left bs hmem))
  have hkbs : k ∉ h :: bs :=
    fun hmem => hk (List.mem_cons.mpr
      ((List.mem_cons.mp hmem).imp_right (List.mem_append_right as)))
  have hhas : h ∉ as := fun hmem => hnodup.1 (List.mem_append_left bs hmem)
  have hout : ∀ a ∈ as, a ∉ h :: bs := by
    intro a ha hmem
    rcases List.mem_cons.mp hmem with rfl | hmem
    · exact hhas ha
    · exact hdisj (List.mem_cons_of_mem h ha) hmem
  constructor
  · have hkept : as.IsChain l'.Linked := by
      refine hr.segment hc.segment.left_of_append hnodup.2.of_append_left (fun a ha hmem => ?_)
        fun b hb hmem => ?_
      · simp only [List.mem_cons, List.not_mem_nil, or_false] at ha
        rcases ha with rfl | rfl | rfl
        · exact absurd hmem hkas
        · exact hg
        · exact absurd hmem hhas
      · simp only [List.mem_cons, List.not_mem_nil, or_false] at hb
        rcases hb with rfl | rfl | rfl
        · exact hf
        · exact absurd hmem hkas
        · exact absurd (headD_mem_cons h bs) (hout _ hmem)
    refine circular_of_segment hkept ?_ ?_ (List.nodup_cons.mpr ⟨hkas, hnodup.2.of_append_left⟩)
    · rwa [List.headD_eq_head?_getD, hf]
    · rwa [List.getLastD_eq_getLast?, hg]
  · have hold : Circular l h ([] ++ (as ++ bs)) := hc
    refine hold.leave_out hr (fun a ha hmem => ?_) (fun b hb hmem => ?_) hrest
    · simp only [List.mem_cons, List.not_mem_nil, or_false] at ha
      rcases ha with rfl | rfl | rfl
      · exact absurd hmem hkbs
      · exact absurd hmem (hout _ hgas)
      · rfl
    · simp only [List.mem_cons, List.not_mem_nil, or_false] at hb
      rcases hb with rfl | rfl | rfl
      · exact absurd hmem (hout _ hfas)
      · exact absurd hmem hkbs
      · rfl

end

/-! ## lists side by side -/

/-- the nodes that are heads, and the nodes behind each -/
abbrev Heads (α : Type*) := α → Option (List α)

section
variable {α : Type*} {l l' : Links α} {ls : Heads α} {h x : α} {xs ys : List α}

/-- the links are those of the lists, which have no node in common -/
structure Holds (l : Links α) (ls : Heads α) : Prop where
  circular : ∀ {h xs}, ls h = some xs → Circular l h xs
  disjoint : ∀ {h k xs ys}, ls h = some xs → ls k = some ys → h ≠ k →
    List.Disjoint (h :: xs) (k :: ys)

/-- a node of no list -/
def Loose (ls : Heads α) (x : α) : Prop := ∀ h xs, ls h = some xs → x ∉ h :: xs

/-- a node of no list but its own, if it is a head -/
def Apart (ls : Heads α) (h : α) : Prop := ∀ k ys, k ≠ h → ls k = some ys → h ∉ k :: ys

theorem Loose.apart (hx : Loose ls x) : Apart ls x := fun k ys _ hk => hx k ys hk

/-- a loose node is none of those next to a head -/
theorem Loose.ne_around {a : α} (hl : Holds l ls) (hh : ls h = some xs) (ha : Loose ls a) :
    a ≠ h ∧ a ≠ l.next h ∧ a ≠ l.prev h := by
  have hc := hl.circular hh
  have hout := ha h xs hh
  refine ⟨fun e => hout (e ▸ List.mem_cons_self), fun e => hout ?_, fun e => hout ?_⟩
  · rw [e, hc.next_head]
    exact headD_mem_cons h xs
  · rw [e]
    exact hc.prev_head_mem

theorem Loose.ne_beside {a : α} {as bs : List α} (hl : Holds l ls)
    (hh : ls h = some (as ++ x :: bs)) (ha : Loose ls a) :
    a ≠ x ∧ a ≠ l.next x ∧ a ≠ l.prev x := by
  have hout := ha h _ hh
  obtain ⟨hp, hn⟩ := (hl.circular hh).neighbours_mem
  refine ⟨fun e => hout ?_, fun e => hout (e ▸ hn), fun e => hout (e ▸ hp)⟩
  exact e ▸ List.mem_cons_of_mem h (List.mem_append_right as List.mem_cons_self)

theorem loose_none (x : α) : Loose (fun _ : α => none) x := by
  intro h xs hh
  cases hh

theorem holds_none (l : Links α) : Holds l fun _ => none := by
  constructor
  · intro h xs hh
    cases hh
  · intro h k xs ys hh
    cases hh

/-- no link of a list has changed -/
theorem Holds.relink {A B : List α} (hl : Holds l ls) (hr : Relinked l l' A B)
    (hA : ∀ a ∈ A, Loose ls a) (hB : ∀ b ∈ B, Loose ls b) : Holds l' ls := by
  refine ⟨fun hh => (hl.circular hh).congr fun a ha => ?_, hl.disjoint⟩
  exact hr.sameAt (fun hmem => hA a hmem _ _ hh ha) fun hmem => hB a hmem _ _ hh ha

variable [DecidableEq α] {a : α}

theorem clear_some {k : α} (hk : Function.update ls h none k = some xs) :
    k ≠ h ∧ ls k = some xs := by
  have hne : k ≠ h := by
    rintro rfl
    rw [Function.update_self] at hk
    cases hk
  rw [Function.update_of_ne hne] at hk
  exact ⟨hne, hk⟩

/-- a head that is forgotten -/
theorem Holds.clear (hl : Holds l ls) (h : α) : Holds l (Function.update ls h none) :=
  ⟨fun hk => hl.circular (clear_some hk).2,
    fun hk hj => hl.disjoint (clear_some hk).2 (clear_some hj).2⟩

theorem Loose.clear (ha : Loose ls a) (h : α) : Loose (Function.update ls h none) a := fun k _ hk =>
  ha k _ (clear_some hk).2

/-- the nodes of a list whose head is forgotten -/
theorem Holds.loose_clear (hl : Holds l ls) (hh : ls h = some xs) (ha : a ∈ h :: xs) :
    Loose (Function.update ls h none) a := by
  intro k ys hk hmem
  obtain ⟨hne, hk⟩ := clear_some hk
  exact hl.disjoint hk hh hne hmem ha

/-- a new list -/
theorem Holds.new (hl : Holds l ls) (hc : Circular l h xs)
    (hloose : ∀ a ∈ h :: xs, Loose (Function.update ls h none) a) :
    Holds l (Function.update ls h (some xs)) := by
  have hold : ∀ {k ys}, Function.update ls h (some xs) k = some ys →
      k = h ∧ ys = xs ∨ k ≠ h ∧ ls k = some ys := by
    intro k ys hk
    by_cases hne : k = h
    · rw [hne, Function.update_self, Option.some.injEq] at hk
      exact Or.inl ⟨hne, hk.symm⟩
    · rw [Function.update_of_ne hne] at hk
      exact Or.inr ⟨hne, hk⟩
  have hother : ∀ {k ys}, k ≠ h → ls k = some ys → List.Disjoint (h :: xs) (k :: ys) :=
    fun {k ys} hne hk a ha => hloose a ha k ys ((Function.update_of_ne hne ..).trans hk)
  constructor
  · intro k ys hk
    rcases hold hk with ⟨rfl, rfl⟩ | ⟨-, hk⟩
    · exact hc
    · exact hl.circular hk
  · intro k j ys zs hk hj hkj
    rcases hold hk with ⟨rfl, rfl⟩ | ⟨hkh, hk'⟩
    · rcases hold hj with ⟨rfl, -⟩ | ⟨hjh, hj'⟩
      · exact absurd rfl hkj
      · exact hother hjh hj'
    · rcases hold hj with ⟨rfl, rfl⟩ | ⟨-, hj'⟩
      · exact fun a ha hb => hother hkh hk' hb ha
      · exact hl.disjoint hk' hj' hkj

theorem Loose.new (ha : Loose ls a) (hne : a ∉ h :: xs) :
    Loose (Function.update ls h (some xs)) a := by
  intro k ys hk
  by_cases hkh : k = h
  · rw [hkh, Function.update_self] at hk
    cases hk
    rwa [hkh]
  · rw [Function.update_of_ne hkh] at hk
    exact ha k ys hk

/-- **One list with other nodes.**  They come from the list itself or from none. -/
theorem Holds.change {A B : List α} (hl : Holds l ls) (hh : ls h = some xs) (hr : Relinked l l' A B)
    (hA : ∀ a ∈ A, a ∈ h :: xs ∨ Loose ls a) (hB : ∀ b ∈ B, b ∈ h :: xs ∨ Loose ls b)
    (hc : Circular l' h ys) (hys : ∀ a ∈ ys, a ∈ h :: xs ∨ Loose ls a) :
    Holds l' (Function.update ls h (some ys)) := by
  have hloose : ∀ a, a ∈ h :: xs ∨ Loose ls a → Loose (Function.update ls h none) a := by
    rintro a (ha | ha)
    · exact hl.loose_clear hh ha
    · exact ha.clear h
  have hrest : Holds l' (Function.update ls h none) :=
    (hl.clear h).relink hr (fun a ha => hloose a (hA a ha)) fun b hb => hloose b (hB b hb)
  have hnew := hrest.new hc fun a ha => by
    rw [Function.update_idem]
    rcases List.mem_cons.mp ha with rfl | ha
    · exact hloose a (Or.inl List.mem_cons_self)
    · exact hloose a (hys a ha)
  rwa [Function.update_idem] at hnew

/-! ## the operations -/

/-- an empty list at a new head, or at one that loses its nodes -/
theorem Holds.reset (hl : Holds l ls) (hx : Apart ls x) (hr : Relinked l l' [x] [x])
    (hlinked : l'.Linked x x) :
    Holds l' (Function.update ls x (some [])) := by
  have hloose : Loose (Function.update ls x none) x := by
    intro k ys hk
    obtain ⟨hne, hk⟩ := clear_some hk
    exact hx k ys hne hk
  have hrest := (hl.clear x).relink hr (fun a ha => List.mem_singleton.mp ha ▸ hloose) fun b hb =>
    List.mem_singleton.mp hb ▸ hloose
  have hnew := hrest.new (circular_nil.mpr hlinked) fun a ha => by
    rw [List.mem_singleton.mp ha, Function.update_idem]
    exact hloose
  rwa [Function.update_idem] at hnew

/-- a loose node in the place of a segment -/
theorem Holds.exchange {as bs zs : List α} (hl : Holds l ls) (hh : ls h = some (as ++ (zs ++ bs)))
    (hx : Loose ls x) (hi : Inserted l l' x (as.getLastD h) (bs.headD h)) :
    Holds l' (Function.update ls h (some (as ++ x :: bs))) := by
  have hc := hl.circular hh
  have hsub : ∀ a, a ∈ h :: (as ++ bs) → a ∈ h :: (as ++ (zs ++ bs)) :=
    fun a ha => (((List.sublist_append_right zs bs).append_left as).cons_cons h).subset ha
  have hrest : (h :: (as ++ bs)).Nodup :=
    hc.nodup.sublist (((List.sublist_append_right zs bs).append_left as).cons_cons h)
  have hx' : x ∉ h :: (as ++ bs) := fun hmem => hx h _ hh (hsub x hmem)
  obtain ⟨hp, hn⟩ := around_mem h as bs
  have hnodup : (h :: (as ++ x :: bs)).Nodup := by
    have hmid : h :: (as ++ x :: bs) = (h :: as) ++ x :: bs := rfl
    rw [hmid, List.nodup_middle]
    exact List.nodup_cons.mpr ⟨hx', hrest⟩
  have hcase : ∀ c : α, c ∈ h :: (as ++ bs) →
      ∀ a ∈ [c, x], (a ∈ h :: (as ++ bs) → a = c) ∧ (a ∈ [x] → a = x) := by
    intro c hc a ha
    simp only [List.mem_cons, List.not_mem_nil, or_false] at ha
    refine ⟨fun hmem => ha.resolve_right ?_, List.mem_singleton.mp⟩
    rintro rfl
    exact hx' hmem
  have hnew :=
    hc.exchange (List.isChain_singleton x) rfl rfl hnodup hi.relinked (hcase _ hp) (hcase _ hn)
      hi.front hi.back
  refine hl.change hh hi.relinked ?_ ?_ hnew ?_
  · exact forall_mem_pair.mpr ⟨Or.inl (hsub _ hp), Or.inr hx⟩
  · exact forall_mem_pair.mpr ⟨Or.inl (hsub _ hn), Or.inr hx⟩
  · intro a ha
    rcases List.mem_append.mp ha with ha | ha
    · exact Or.inl (hsub a (List.mem_cons_of_mem h (List.mem_append_left bs ha)))
    · rcases List.mem_cons.mp ha with rfl | ha
      · exact Or.inr hx
      · exact Or.inl (hsub a (List.mem_cons_of_mem h (List.mem_append_right as ha)))

/-- a list without one of its nodes -/
theorem Holds.delete {as bs : List α} (hl : Holds l ls) (hh : ls h = some (as ++ x :: bs))
    (hb : Bypassed l l' x (l.prev x) (l.next x)) :
    Holds l' (Function.update ls h (some (as ++ bs))) ∧
      Loose (Function.update ls h (some (as ++ bs))) x := by
  have hc := hl.circular hh
  obtain ⟨hp, hn⟩ := hc.neighbours_mem
  have hx : x ∈ h :: (as ++ x :: bs) :=
    List.mem_cons_of_mem h (List.mem_append_right as List.mem_cons_self)
  have hsub : ∀ a ∈ as ++ bs, a ∈ h :: (as ++ x :: bs) := fun a ha =>
    List.mem_cons_of_mem h (((List.sublist_cons_self x bs).append_left as).subset ha)
  constructor
  · refine hl.change hh hb.relinked ?_ ?_ (hc.remove hb) fun a ha => Or.inl (hsub a ha)
    · exact forall_mem_pair.mpr ⟨Or.inl hp, Or.inl hx⟩
    · exact forall_mem_pair.mpr ⟨Or.inl hn, Or.inl hx⟩
  · intro k ys hk hmem
    by_cases hne : k = h
    · rw [hne, Function.update_self, Option.some.injEq] at hk
      rw [hne, ← hk] at hmem
      exact hc.not_mem_rest hmem
    · rw [Function.update_of_ne hne] at hk
      exact hl.disjoint hk hh hne hmem hx

/-- the nodes of a list behind another head -/
theorem Holds.rehead {k : α} {A B : List α} (hl : Holds l ls) (hh : ls h = some xs)
    (hk : Loose ls k) (hr : Relinked l l' A B) (hA : ∀ a ∈ A, a = k ∨ xs.getLast? = some a)
    (hB : ∀ b ∈ B, b = k ∨ b = h ∨ xs.head? = some b) (hfirst : l'.Linked k (xs.headD k))
    (hlast : l'.Linked (xs.getLastD k) k) :
    Holds l' (Function.update (Function.update ls h none) k (some xs)) := by
  have hc := hl.circular hh
  obtain ⟨hhxs, hnodup⟩ := List.nodup_cons.mp hc.nodup
  have hkxs := hk h xs hh
  have hloose : ∀ a ∈ h :: xs, Loose (Function.update ls h none) a :=
    fun a ha => hl.loose_clear hh ha
  have hrest : Holds l' (Function.update ls h none) := by
    refine (hl.clear h).relink hr (fun a ha => ?_) fun b hb => ?_
    · rcases hA a ha with rfl | ha
      · exact hk.clear h
      · exact hloose a (List.mem_cons_of_mem h (List.mem_of_getLast? ha))
    · rcases hB b hb with rfl | rfl | hb
      · exact hk.clear h
      · exact hloose b List.mem_cons_self
      · exact hloose b (List.mem_cons_of_mem h (List.mem_of_head? hb))
  have hkept : xs.IsChain l'.Linked := by
    refine hr.segment hc.segment hnodup (fun a ha hmem => (hA a ha).resolve_left ?_)
      fun b hb hmem => ?_
    · rintro rfl
      exact hkxs (List.mem_cons_of_mem h hmem)
    · rcases hB b hb with rfl | rfl | hb
      · exact absurd (List.mem_cons_of_mem h hmem) hkxs
      · exact absurd hmem hhxs
      · exact hb
  have hkout : k ∉ xs := fun hmem => hkxs (List.mem_cons_of_mem h hmem)
  refine hrest.new (circular_of_segment hkept hfirst hlast (List.nodup_cons.mpr ⟨hkout, hnodup⟩))
    fun a ha => ?_
  rcases List.mem_cons.mp ha with rfl | ha
  · exact (hk.clear h).clear _
  · exact (hloose a (List.mem_cons_of_mem h ha)).clear k

/-- **A list that goes into another one**, between two of its nodes. -/
theorem Holds.splice {k f g : α} {as bs : List α} (hl : Holds l ls) (hh : ls h = some (as ++ bs))
    (hk : ls k = some ys) (hne : k ≠ h) (hf : ys.head? = some f) (hg : ys.getLast? = some g)
    (hr : Relinked l l' [as.getLastD h, g] [f, bs.headD h]) (hfront : l'.Linked (as.getLastD h) f)
    (hback : l'.Linked g (bs.headD h)) :
    Holds l' (Function.update (Function.update ls k none) h (some (as ++ (ys ++ bs)))) := by
  have hdisj := hl.disjoint hh hk hne.symm
  have hfys : f ∈ ys := List.mem_of_head? hf
  have hgys : g ∈ ys := List.mem_of_getLast? hg
  obtain ⟨hp, hn⟩ := around_mem h as bs
  have hout : ∀ a ∈ ys, a ∉ h :: (as ++ bs) :=
    fun a ha hmem => hdisj hmem (List.mem_cons_of_mem k ha)
  have hsegment := (hl.circular hk).segment
  have hkys := List.nodup_cons.mp (hl.circular hk).nodup
  have hnodup : (h :: (as ++ (ys ++ bs))).Nodup := by
    have hperm : (h :: (as ++ (ys ++ bs))).Perm (h :: (as ++ bs) ++ ys) := by
      rw [List.cons_append, List.append_assoc]
      exact ((List.perm_append_comm).append_left as).cons h
    exact hperm.nodup_iff.mpr ((hl.circular hh).nodup.append hkys.2 fun a ha hmem => hout a hmem ha)
  -- the list and the one that goes into it are taken out together
  have hclear := hl.clear k
  have hh' : Function.update ls k none h = some (as ++ bs) :=
    (Function.update_of_ne hne.symm ..).trans hh
  have hloose : ∀ a ∈ ys, Loose (Function.update ls k none) a := fun a ha =>
    hl.loose_clear hk (List.mem_cons_of_mem k ha)
  have hc : Circular l (h) (as ++ ([] ++ bs)) := hl.circular hh
  refine hclear.change hh' hr ?_ ?_ (hc.exchange hsegment hf hg hnodup hr ?_ ?_ hfront hback) ?_
  · exact forall_mem_pair.mpr ⟨Or.inl hp, Or.inr (hloose _ hgys)⟩
  · exact forall_mem_pair.mpr ⟨Or.inr (hloose _ hfys), Or.inl hn⟩
  · intro a ha
    simp only [List.mem_cons, List.not_mem_nil, or_false] at ha
    constructor
    · intro hmem
      refine ha.resolve_right ?_
      rintro rfl
      exact hout _ hgys hmem
    · intro hmem
      refine ha.resolve_left ?_
      rintro rfl
      exact hout _ hmem hp
  · intro a ha
    simp only [List.mem_cons, List.not_mem_nil, or_false] at ha
    constructor
    · intro hmem
      refine ha.resolve_left ?_
      rintro rfl
      exact hout _ hfys hmem
    · intro hmem
      refine ha.resolve_right ?_
      rintro rfl
      exact hout _ hmem hn
  · intro a ha
    rcases List.mem_append.mp ha with ha | ha
    · exact Or.inl (List.mem_cons_of_mem h (List.mem_append_left bs ha))
    · rcases List.mem_append.mp ha with ha | ha
      · exact Or.inr (hloose a ha)
      · exact Or.inl (List.mem_cons_of_mem h (List.mem_append_right as ha))

/-- **The first nodes of a list that get a head of their own.** -/
theorem Holds.cut {k f g : α} {as bs : List α} (hl : Holds l ls) (hh : ls h = some (as ++ bs))
    (hne : k ≠ h) (hk : Apart ls k) (hf : as.head? = some f) (hg : as.getLast? = some g)
    (hr : Relinked l l' [k, g, h] [f, k, bs.headD h]) (hfirst : l'.Linked k f)
    (hlast : l'.Linked g k) (hrest : l'.Linked h (bs.headD h)) :
    Holds l' (Function.update (Function.update ls k (some as)) h (some bs)) := by
  have hkout := hk h _ hne.symm hh
  obtain ⟨hfront, hback⟩ := (hl.circular hh).cut hkout hf hg hr hfirst hlast hrest
  have hmemAs : ∀ a ∈ as, a ∈ h :: (as ++ bs) :=
    fun a ha => List.mem_cons_of_mem h (List.mem_append_left bs ha)
  have hmemBs : ∀ a ∈ h :: bs, a ∈ h :: (as ++ bs) := fun a ha =>
    List.mem_cons.mpr ((List.mem_cons.mp ha).imp_right (List.mem_append_right as))
  -- neither list is there any more
  have hcleared : Holds l (Function.update (Function.update ls k none) h none) :=
    (hl.clear k).clear h
  have hhk : Function.update ls k none h = some (as ++ bs) :=
    (Function.update_of_ne hne.symm ..).trans hh
  have hgone : ∀ a ∈ h :: (as ++ bs),
      Loose (Function.update (Function.update ls k none) h none) a := fun a ha =>
    (hl.clear k).loose_clear hhk ha
  have hkloose : Loose (Function.update (Function.update ls k none) h none) k := by
    intro j ys hj
    obtain ⟨-, hj⟩ := clear_some hj
    obtain ⟨hjk, hj⟩ := clear_some hj
    exact hk j ys hjk hj
  have hheld : Holds l' (Function.update (Function.update ls k none) h none) := by
    have hgloose := hgone g (hmemAs g (List.mem_of_getLast? hg))
    have hfloose := hgone f (hmemAs f (List.mem_of_head? hf))
    refine hcleared.relink hr (fun a ha => ?_) fun b hb => ?_
    · simp only [List.mem_cons, List.not_mem_nil, or_false] at ha
      rcases ha with rfl | rfl | rfl
      · exact hkloose
      · exact hgloose
      · exact hgone a List.mem_cons_self
    · simp only [List.mem_cons, List.not_mem_nil, or_false] at hb
      rcases hb with rfl | rfl | rfl
      · exact hfloose
      · exact hkloose
      · exact hgone _ (around_mem h as bs).2
  have hfirst' := hheld.new hfront fun a ha => by
    rw [Function.update_comm hne, Function.update_idem, Function.update_comm hne.symm]
    rcases List.mem_cons.mp ha with rfl | ha
    · exact hkloose
    · exact hgone a (hmemAs a ha)
  rw [Function.update_comm hne, Function.update_idem, Function.update_comm hne.symm] at hfirst'
  have hsecond := hfirst'.new hback fun a ha => by
    rw [Function.update_idem, Function.update_comm hne]
    refine (hl.loose_clear hh (hmemBs a ha)).new fun hak => ?_
    have hsplit : (h :: as ++ bs).Nodup := (hl.circular hh).nodup
    rcases List.mem_cons.mp hak with rfl | hak
    · exact hkout (hmemBs a ha)
    · rcases List.mem_cons.mp ha with rfl | ha
      · exact (List.nodup_cons.mp (hl.circular hh).nodup).1 (List.mem_append_left bs hak)
      · exact List.disjoint_of_nodup_append hsplit (List.mem_cons_of_mem h hak) ha
  rwa [Function.update_idem] at hsecond

end

end Links

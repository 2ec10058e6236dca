import Pluto.Links.Operations

/-!
# `mm_list.h`: the loops

`Links.MmList` has the safe loop from the first node on and the plain one from the last.  The others
start at a node, or go the other way round: the links with `next` and `prev` exchanged are those of
the reversed list.

* `Links.flip`, `Circular.flip`         the other way round;
* `listForEachEntryContinue`, `listForEachEntrySafeFrom` and so on   the loops of the source;
* `plain_loops`                         the nodes that the plain loops visit;
* `safe_loops`                          what becomes of the lists where a safe loop moves nodes.
-/

namespace Links

section
variable {α : Type*} {l : Links α} {h : α} {xs : List α}

/-- the links the other way round -/
def flip (l : Links α) : Links α := ⟨l.prev, l.next⟩

theorem Circular.flip (hc : Circular l h xs) : Circular l.flip h xs.reverse := by
  constructor
  · have hrev : h :: (xs.reverse ++ [h]) = (h :: (xs ++ [h])).reverse := by simp
    rw [hrev, List.isChain_reverse]
    exact hc.chain.imp fun a b hab => ⟨hab.2, hab.1⟩
  · rw [List.nodup_cons, List.mem_reverse, List.nodup_reverse, ← List.nodup_cons]
    exact hc.nodup

end

end Links

namespace Pluto
open Links

/-! ## the loops of the source -/

section
variable {σ : Type*} (links : σ → Links Addr) (head : Addr) (body : σ → Addr → σ)

def forEachEntryFrom : Nat → σ → Addr → Option σ
  | 0, _, _ => none
  | fuel + 1, s, pos =>
    if pos = head then some s
    else
      let s := body s pos
      forEachEntryFrom fuel s ((links s).next pos)

/-- `list_for_each_entry`, `list_for_each` and `__list_for_each` -/
def listForEachEntry (fuel : Nat) (s : σ) : Option σ :=
  forEachEntryFrom links head body fuel s ((links s).next head)

def listForEachEntryContinue (fuel : Nat) (s : σ) (pos : Addr) : Option σ :=
  forEachEntryFrom links head body fuel s ((links s).next pos)

def listForEachEntryContinueReverse (fuel : Nat) (s : σ) (pos : Addr) : Option σ :=
  forEachEntryReverseFrom links head body fuel s ((links s).prev pos)

/-- `list_for_each_entry_from` -/
def listForEachEntryFrom (fuel : Nat) (s : σ) (pos : Addr) : Option σ :=
  forEachEntryFrom links head body fuel s pos

def listForEachEntrySafeContinue (fuel : Nat) (s : σ) (pos : Addr) : Option σ :=
  let pos := (links s).next pos
  forEachEntrySafeFrom links head body fuel s pos ((links s).next pos)

/-- `list_for_each_entry_safe_from` -/
def listForEachEntrySafeFrom (fuel : Nat) (s : σ) (pos : Addr) : Option σ :=
  forEachEntrySafeFrom links head body fuel s pos ((links s).next pos)

/-- `list_for_each_entry_safe_reverse` and `list_for_each_prev_safe` -/
def listForEachEntrySafeReverse (fuel : Nat) (s : σ) : Option σ :=
  let pos := (links s).prev head
  forEachEntrySafeFrom (fun s => (links s).flip) head body fuel s pos ((links s).prev pos)

end

/-! ## which nodes they visit -/

section
variable {σ : Type*} {links : σ → Links Addr} {head : Addr} {body : σ → Addr → σ}

/-- a plain loop from a node on, where the body keeps the links -/
theorem forEachEntryFrom_foldl (hbody : ∀ s x, links (body s x) = links s) {as bs : List Addr}
    {s : σ} (hc : Circular (links s) head (as ++ bs)) {fuel : Nat} (hfuel : bs.length < fuel) :
    forEachEntryFrom links head body fuel s (bs.headD head) = some (bs.foldl body s) := by
  induction bs generalizing as s fuel with
  | nil =>
    obtain ⟨fuel, rfl⟩ := Nat.exists_eq_add_one.mpr hfuel
    exact if_pos rfl
  | cons x bs ih =>
    obtain ⟨fuel, rfl⟩ := Nat.exists_eq_add_one.mpr (Nat.zero_lt_of_lt hfuel)
    have hne : x ≠ head := by
      rintro rfl
      exact (List.nodup_cons.mp hc.nodup).1 (List.mem_append_right as List.mem_cons_self)
    have hnext : (links (body s x)).next x = bs.headD head := by rw [hbody, hc.next_node]
    have hrest : Circular (links (body s x)) head ((as ++ [x]) ++ bs) := by
      rw [hbody, List.append_assoc]
      exact hc
    rw [List.headD_cons, forEachEntryFrom, if_neg hne, List.foldl_cons]
    dsimp only
    rw [hnext]
    exact ih hrest (Nat.lt_of_succ_lt_succ hfuel)

/-- the plain loop the other way round -/
theorem forEachEntryReverseFrom_flip (fuel : Nat) (s : σ) (pos : Addr) :
    forEachEntryReverseFrom links head body fuel s pos
      = forEachEntryFrom (fun s => (links s).flip) head body fuel s pos := by
  induction fuel generalizing s pos with
  | zero => rfl
  | succ fuel ih =>
    rw [forEachEntryReverseFrom, forEachEntryFrom]
    dsimp only
    rw [ih]
    rfl

/-- **The plain loops**, where the body keeps the links: all nodes in order, those behind a node,
those in front of one from the nearest on, and those from a node on. -/
theorem plain_loops (hbody : ∀ s x, links (body s x) = links s) {as bs : List Addr} {x : Addr}
    {s : σ} (hc : Circular (links s) head (as ++ x :: bs)) {fuel : Nat}
    (hfuel : (as ++ x :: bs).length < fuel) :
    listForEachEntry links head body fuel s = some ((as ++ x :: bs).foldl body s) ∧
      listForEachEntryContinue links head body fuel s x = some (bs.foldl body s) ∧
      listForEachEntryContinueReverse links head body fuel s x = some (as.reverse.foldl body s) ∧
      listForEachEntryFrom links head body fuel s x = some ((x :: bs).foldl body s) := by
  have hlen : as.length + (bs.length + 1) < fuel := by
    rw [List.length_append, List.length_cons] at hfuel
    exact hfuel
  refine ⟨?_, ?_, ?_, ?_⟩
  · have hall : Circular (links s) head ([] ++ (as ++ x :: bs)) := hc
    unfold listForEachEntry
    rw [hc.next_head]
    exact forEachEntryFrom_foldl hbody hall hfuel
  · have hbehind : Circular (links s) head ((as ++ [x]) ++ bs) := by
      rw [List.append_assoc]
      exact hc
    unfold listForEachEntryContinue
    rw [hc.next_node]
    exact forEachEntryFrom_foldl hbody hbehind (by omega)
  · have hflip : Circular (links s).flip head ((bs.reverse ++ [x]) ++ as.reverse) := by
      have hrev := hc.flip
      rwa [List.reverse_append, List.reverse_cons] at hrev
    have hprev : (links s).prev x = as.reverse.headD head := by
      rw [hc.prev_node, List.headD_eq_head?_getD, List.head?_reverse, List.getLastD_eq_getLast?]
    unfold listForEachEntryContinueReverse
    rw [forEachEntryReverseFrom_flip, hprev]
    have hfront : as.reverse.length < fuel := by
      rw [List.length_reverse]
      omega
    have hkeeps : ∀ s y, (fun s => (links s).flip) (body s y) = (fun s => (links s).flip) s :=
      fun s y => congrArg Links.flip (hbody s y)
    exact @forEachEntryFrom_foldl σ (fun s => (links s).flip) head body hkeeps _ _ s hflip fuel
      hfront
  · have hfrom : (x :: bs).length < fuel := by
      rw [List.length_cons]
      omega
    exact forEachEntryFrom_foldl hbody hc hfrom

/-- **A safe loop** from a node on, where the body takes the node that it gets out of the list, or
leaves it there: `I s as bs` says that the nodes `as` are left of those in front, and that `bs` are
still to come. -/
theorem forEachEntrySafeFrom_foldl {I : σ → List Addr → List Addr → Prop}
    (hI : ∀ s as bs, I s as bs → Circular (links s) head (as ++ bs))
    (hstep : ∀ s as x bs, I s as (x :: bs) → ∃ as', I (body s x) as' bs) {s : σ} {as bs : List Addr}
    (h : I s as bs) {n : Addr} (hn : bs ≠ [] → n = bs.tail.headD head) {fuel : Nat}
    (hfuel : bs.length < fuel) :
    forEachEntrySafeFrom links head body fuel s (bs.headD head) n = some (bs.foldl body s) ∧
      ∃ as', I (bs.foldl body s) as' [] := by
  induction bs generalizing s as n fuel with
  | nil =>
    obtain ⟨fuel, rfl⟩ := Nat.exists_eq_add_one.mpr hfuel
    exact ⟨if_pos rfl, as, h⟩
  | cons x bs ih =>
    obtain ⟨fuel, rfl⟩ := Nat.exists_eq_add_one.mpr (Nat.zero_lt_of_lt hfuel)
    have hne : x ≠ head := by
      rintro rfl
      exact (List.nodup_cons.mp (hI s as _ h).nodup).1 (List.mem_append_right as List.mem_cons_self)
    obtain ⟨as', hrest⟩ := hstep s as x bs h
    -- the node behind `x` was read before the body ran, and is the first one that is left
    obtain rfl : n = bs.headD head := hn (List.cons_ne_nil x bs)
    rw [List.headD_cons, forEachEntrySafeFrom, if_neg hne, List.foldl_cons]
    refine ih hrest (fun hbs => ?_) (Nat.lt_of_succ_lt_succ hfuel)
    obtain ⟨y, bs, rfl⟩ := List.exists_cons_of_ne_nil hbs
    exact (hI _ _ _ hrest).next_node

end

/-! ## a loop that moves nodes -/

section
variable {l : Links Addr} {ls : Heads Addr} {h k : Addr} {as bs xs ys : List Addr}

/-- the lists at `h` and at `k` have other nodes -/
def both (ls : Heads Addr) (h k : Addr) (xs ys : List Addr) : Heads Addr :=
  Function.update (Function.update ls h (some xs)) k (some ys)

theorem both_self (hh : ls h = some xs) (hk : ls k = some ys) : both ls h k xs ys = ls := by
  have hsame : Function.update ls h (some xs) = ls := Function.update_eq_self_iff.mpr hh.symm
  unfold both
  rw [hsame]
  exact Function.update_eq_self_iff.mpr hk.symm

theorem both_head (hkh : k ≠ h) : both ls h k xs ys h = some xs := by
  unfold both
  rw [Function.update_of_ne hkh.symm, Function.update_self]

/-- a node that goes to the end of the other list -/
theorem both_moveTail {x : Addr} (hkh : k ≠ h) (hl : Holds l (both ls h k (as ++ x :: bs) ys)) :
    Holds (listMoveTail l x k) (both ls h k (as ++ bs) (ys ++ [x])) := by
  have hh : both ls h k (as ++ x :: bs) ys h = some (as ++ x :: bs) := both_head hkh
  have hk : Function.update (both ls h k (as ++ x :: bs) ys) h (some (as ++ bs)) k = some ys := by
    rw [Function.update_of_ne hkh, both, Function.update_self]
  have hmove := effect_exec hl (.moveTail hh hk)
  unfold both at hmove ⊢
  rwa [Function.update_comm hkh.symm, Function.update_idem, Function.update_comm hkh,
    Function.update_idem] at hmove

/-- the chosen nodes go to the end of the list at `k` -/
def moveChosen (p : Addr → Bool) (k : Addr) (l : Links Addr) (x : Addr) : Links Addr :=
  if p x then listMoveTail l x k else l

theorem moveChosen_both {p : Addr → Bool} {x : Addr} (hkh : k ≠ h)
    (hl : Holds l (both ls h k (as ++ x :: bs) ys)) :
    Holds (moveChosen p k l x)
      (both ls h k (as ++ [x].filter (!p ·) ++ bs) (ys ++ [x].filter p)) := by
  unfold moveChosen
  by_cases hp : p x = true
  · rw [if_pos hp, List.filter_cons_of_pos hp, List.filter_cons_of_neg (by simp [hp]),
      List.filter_nil, List.filter_nil, List.append_nil]
    exact both_moveTail hkh hl
  · rw [if_neg hp, List.filter_cons_of_neg hp, List.filter_cons_of_pos (by simp [hp]),
      List.filter_nil, List.filter_nil, List.append_nil, List.append_assoc]
    exact hl

/-- a safe loop over the nodes `bs`, in front of which `as` stay -/
theorem safeFrom_both (p : Addr → Bool) (hkh : k ≠ h) (hl : Holds l (both ls h k (as ++ bs) ys))
    {n : Addr} (hn : bs ≠ [] → n = bs.tail.headD h) {fuel : Nat} (hfuel : bs.length < fuel) :
    ∃ l', forEachEntrySafeFrom id h (moveChosen p k) fuel l (bs.headD h) n = some l' ∧
      Holds l' (both ls h k (as ++ bs.filter (!p ·)) (ys ++ bs.filter p)) := by
  -- what was seen is part of the invariant
  let I : Links Addr → List Addr → List Addr → Prop :=
    fun l kept rest => ∃ seen, bs = seen ++ rest ∧
      kept = as ++ seen.filter (!p ·) ∧ Holds l (both ls h k (kept ++ rest) (ys ++ seen.filter p))
  have hI : ∀ l kept rest, I l kept rest → Circular l h (kept ++ rest) := by
    rintro l kept rest ⟨seen, -, -, hheld⟩
    exact hheld.circular (both_head hkh)
  have hstep : ∀ l kept x rest, I l kept (x :: rest) →
      ∃ kept', I (moveChosen p k l x) kept' rest := by
    rintro l kept x rest ⟨seen, hbs, rfl, hheld⟩
    refine ⟨_, seen ++ [x], ?_, rfl, ?_⟩
    · rw [hbs, List.append_assoc, List.singleton_append]
    · rw [List.filter_append, List.filter_append, ← List.append_assoc, ← List.append_assoc]
      exact moveChosen_both hkh hheld
  have hstart : I l as bs :=
    ⟨[], rfl, (List.append_nil as).symm, by rw [List.filter_nil, List.append_nil]; exact hl⟩
  obtain ⟨hrun, kept, seen, hbs, rfl, hheld⟩ :=
    @forEachEntrySafeFrom_foldl _ id h _ I hI hstep _ _ _ hstart n hn fuel hfuel
  rw [List.append_nil] at hbs hheld
  exact ⟨_, hrun, hbs ▸ hheld⟩

/-- the safe loop over all nodes from the last one on -/
theorem safeReverse_both (p : Addr → Bool) (hkh : k ≠ h) (hl : Holds l (both ls h k xs ys))
    {fuel : Nat} (hfuel : xs.length < fuel) :
    ∃ l', listForEachEntrySafeReverse id h (moveChosen p k) fuel l = some l' ∧
      Holds l' (both ls h k (xs.filter (!p ·)) (ys ++ (xs.filter p).reverse)) := by
  let I : Links Addr → List Addr → List Addr → Prop :=
    fun l kept rest => ∃ seen, xs.reverse = seen ++ rest ∧
      kept = seen.filter (!p ·) ∧
      Holds l (both ls h k (rest.reverse ++ kept.reverse) (ys ++ seen.filter p))
  have hI : ∀ l kept rest, I l kept rest → Circular l.flip h (kept ++ rest) := by
    rintro l kept rest ⟨seen, -, -, hheld⟩
    have hflip := (hheld.circular (both_head hkh)).flip
    rwa [List.reverse_append, List.reverse_reverse, List.reverse_reverse] at hflip
  have hstep : ∀ l kept x rest, I l kept (x :: rest) →
      ∃ kept', I (moveChosen p k l x) kept' rest := by
    rintro l kept x rest ⟨seen, hxs, rfl, hheld⟩
    refine ⟨_, seen ++ [x], ?_, rfl, ?_⟩
    · rw [hxs, List.append_assoc, List.singleton_append]
    · rw [List.reverse_cons, List.append_assoc, List.singleton_append] at hheld
      have hone : [x].filter (!p ·) = ([x].filter (!p ·)).reverse := by
        by_cases hp : p x = true <;> simp [hp]
      have hmove := moveChosen_both (p := p) hkh hheld
      rw [hone, List.append_assoc, ← List.reverse_append, ← List.filter_append] at hmove
      have hchosen : (seen ++ [x]).filter p = seen.filter p ++ [x].filter p := List.filter_append ..
      rwa [hchosen, ← List.append_assoc]
  have hstart : I l [] xs.reverse := by
    refine ⟨[], rfl, rfl, ?_⟩
    rw [List.reverse_reverse, List.reverse_nil, List.append_nil, List.filter_nil, List.append_nil]
    exact hl
  have hc := (hl.circular (both_head hkh)).flip
  have hprev : l.prev h = xs.reverse.headD h := hc.next_head
  have hn : xs.reverse ≠ [] → l.prev (l.prev h) = xs.reverse.tail.headD h := by
    intro hne
    obtain ⟨y, zs, hrev⟩ := List.exists_cons_of_ne_nil hne
    rw [hrev] at hc
    rw [hprev, hrev]
    exact hc.next_first
  have hlen : xs.reverse.length < fuel := by rwa [List.length_reverse]
  obtain ⟨hrun, kept, seen, hxs, rfl, hheld⟩ :=
    @forEachEntrySafeFrom_foldl _ Links.flip h _ I hI hstep _ _ _ hstart _ hn fuel hlen
  rw [List.append_nil] at hxs
  rw [← hxs, List.reverse_nil, List.nil_append, List.filter_reverse, List.filter_reverse,
    List.reverse_reverse] at hheld
  refine ⟨_, ?_, hheld⟩
  rw [← hprev] at hrun
  exact hrun

/-- **The safe loops**, where the body moves the nodes that are chosen to the end of another list:
all nodes, also of a list without any, and all from the last one on; and from each node of the list
the nodes behind it and those from it on. -/
theorem safe_loops (p : Addr → Bool) (hl : Holds l ls) (hh : ls h = some xs) (hk : ls k = some ys)
    (hkh : k ≠ h) {fuel : Nat} (hfuel : xs.length < fuel) :
    (∃ l', listForEachEntrySafe id h (moveChosen p k) fuel l = some l' ∧
      Holds l' (both ls h k (xs.filter (!p ·)) (ys ++ xs.filter p))) ∧
    (∃ l', listForEachEntrySafeReverse id h (moveChosen p k) fuel l = some l' ∧
      Holds l' (both ls h k (xs.filter (!p ·)) (ys ++ (xs.filter p).reverse))) ∧
    ∀ as x bs, xs = as ++ x :: bs →
      (∃ l', listForEachEntrySafeContinue id h (moveChosen p k) fuel l x = some l' ∧
        Holds l' (both ls h k (as ++ x :: bs.filter (!p ·)) (ys ++ bs.filter p))) ∧
      ∃ l', listForEachEntrySafeFrom id h (moveChosen p k) fuel l x = some l' ∧
        Holds l' (both ls h k (as ++ (x :: bs).filter (!p ·)) (ys ++ (x :: bs).filter p)) := by
  have hc := hl.circular hh
  rw [← both_self hh hk] at hl
  refine ⟨?_, safeReverse_both p hkh hl hfuel, fun as x bs hxs => ?_⟩
  · have hall : Holds l (both ls h k ([] ++ xs) ys) := hl
    have hfirst : l.next h = xs.headD h := hc.next_head
    have hsecond : xs ≠ [] → l.next (l.next h) = xs.tail.headD h := by
      intro hne
      obtain ⟨y, zs, hcons⟩ := List.exists_cons_of_ne_nil hne
      rw [hcons] at hc
      rw [hfirst, hcons]
      exact hc.next_first
    have hrun := safeFrom_both p hkh hall hsecond hfuel
    rwa [← hfirst] at hrun
  · subst hxs
    have hlen : as.length + (bs.length + 1) < fuel := by
      rw [List.length_append, List.length_cons] at hfuel
      exact hfuel
    constructor
    · have hbehind : Holds l (both ls h k ((as ++ [x]) ++ bs) ys) := by
        rw [List.append_assoc]
        exact hl
      have hfirst : l.next x = bs.headD h := hc.next_node
      have hsecond : bs ≠ [] → l.next (l.next x) = bs.tail.headD h := by
        intro hne
        obtain ⟨y, zs, rfl⟩ := List.exists_cons_of_ne_nil hne
        rw [hfirst]
        have hc' : Circular l h ((as ++ [x]) ++ y :: zs) := by
          rw [List.append_assoc]
          exact hc
        exact hc'.next_node
      have hbs : bs.length < fuel := by omega
      have hrun := safeFrom_both p hkh hbehind hsecond hbs
      rwa [← hfirst, List.append_assoc, List.singleton_append] at hrun
    · have hfrom : (x :: bs).length < fuel := by
        rw [List.length_cons]
        omega
      exact safeFrom_both p hkh hl (fun _ => hc.next_node) hfrom

/-- a head with three nodes, and an empty one -/
theorem three_nodes (l : Links Addr) :
    ∃ ls, Holds ([.init 1, .init 2, .addTail 3 1, .addTail 5 1, .addTail 4 1].foldl ListOp.exec l)
      ls ∧
      ls 1 = some [3, 5, 4] ∧ ls 2 = some [] := by
  refine ⟨_, effects_exec (holds_none l)
    (.cons (.init (loose_none 1).apart) (.cons (.init ?_) (.cons (.addTail rfl ?_)
    (.cons (.addTail rfl ?_) (.cons (.addTail rfl ?_) .nil))))), rfl, rfl⟩
  · exact ((loose_none 2).new (by decide)).apart
  · exact ((loose_none 3).new (by decide)).new (by decide)
  · exact (((loose_none 5).new (by decide)).new (by decide)).new (by decide)
  · exact ((((loose_none 4).new (by decide)).new (by decide)).new (by decide)).new (by decide)

/-- the even nodes behind the first one go to the other list -/
theorem safe_loops_three :
    ∃ l' ls', listForEachEntrySafeContinue id 1 (moveChosen (· % 2 == 0) 2) 4
        ([.init 1, .init 2, .addTail 3 1, .addTail 5 1, .addTail 4 1].foldl ListOp.exec ⟨id, id⟩) 3
          = some l' ∧
      Holds l' ls' ∧ ls' 1 = some [3, 5] ∧ ls' 2 = some [4] := by
  obtain ⟨ls, hheld, h1, h2⟩ := three_nodes ⟨id, id⟩
  obtain ⟨-, -, hbehind⟩ := safe_loops (· % 2 == 0) hheld h1 h2 (by decide) (Nat.lt_succ_self 3)
  obtain ⟨⟨l', hrun, hl'⟩, -⟩ := hbehind [] 3 [5, 4] rfl
  exact ⟨l', _, hrun, hl', rfl, rfl⟩

end

end Pluto

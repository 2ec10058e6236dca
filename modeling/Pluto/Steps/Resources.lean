import Mathlib.Algebra.Order.Group.Multiset
import Mathlib.Data.Multiset.UnionInter
import Mathlib.Tactic.Abel

/-!
# Blocks that are allocated and freed

A program that allocates may be refused a block, and must free each block once.  What it owns is a
multiset of blocks; what else is allocated is not its business.

* `Resources.Store`      the blocks that are allocated;
* `Prog`, `malloc`, `free`, `touch` programs, which fault where they free or use a block that is not
  there;
* `Triple P f Q`         a program that owns `P` and returns `b` owns `Q b` afterwards, whatever
  else is allocated;
* `triple_step`          how triples are put together;
* `calls`, `triple_calls`   calls one after the other on a state, each of which may drop blocks.
-/

namespace Resources

/-- the blocks that are allocated, each under the number of the request that brought it -/
structure Store where
  next : Nat
  live : Multiset Nat
  nodup : live.Nodup
  below : ∀ a ∈ live, a < next

/-- nothing is allocated -/
def Store.empty : Store :=
  ⟨0, 0, Multiset.nodup_zero, fun _ ha => absurd ha (Multiset.notMem_zero _)⟩

/-- a null pointer was followed; a block was used that is not allocated; the computation has no
result -/
inductive Fault where
  | null
  | dead
  | stuck
deriving DecidableEq, Repr

abbrev Prog := StateT Store (Except Fault)

/-- the `n`-th request is granted if `grants n` -/
def malloc (grants : Nat → Bool) : Prog (Option Nat) := fun h =>
  if grants h.next then
    .ok (some h.next, ⟨h.next + 1, h.next ::ₘ h.live,
      Multiset.nodup_cons.mpr ⟨fun hmem => Nat.lt_irrefl _ (h.below _ hmem), h.nodup⟩,
      fun _ ha => (Multiset.mem_cons.mp ha).elim (fun heq => heq ▸ Nat.lt_succ_self _) fun ha =>
        Nat.lt_succ_of_lt (h.below _ ha)⟩)
  else .ok (none, ⟨h.next + 1, h.live, h.nodup, fun _ ha => Nat.lt_succ_of_lt (h.below _ ha)⟩)

def free (a : Nat) : Prog Unit := fun h =>
  if a ∈ h.live then
    .ok ((), ⟨h.next, h.live.erase a, h.nodup.erase a,
      fun b hb => h.below b (Multiset.mem_of_mem_erase hb)⟩)
  else .error .dead

/-- a null pointer may be freed -/
def freePtr : Option Nat → Prog Unit
  | none => pure ()
  | some a => free a

/-- a read or a write -/
def touch (a : Nat) : Prog Unit := fun h => if a ∈ h.live then .ok ((), h) else .error .dead

/-- a read or a write through a pointer that may be null -/
def deref : Option Nat → Prog Unit
  | none => throw .null
  | some a => touch a

/-- a read of as many bytes as there are -/
def touchPtr : Option Nat → Prog Unit
  | none => pure ()
  | some a => touch a

/-- the block behind a pointer -/
def ptr : Option Nat → Multiset Nat
  | none => 0
  | some a => {a}

@[simp] theorem ptr_none : ptr none = 0 := rfl

@[simp] theorem ptr_some (a : Nat) : ptr (some a) = {a} := rfl

/-! ## triples -/

/-- Whatever else is allocated, the program does not use or free a block that is not there; where it
ends, it owns `Q b` in the place of `P`. -/
def Triple {β : Type} (P : Multiset Nat) (f : Prog β) (Q : β → Multiset Nat) : Prop :=
  ∀ h rest, h.live = P + rest → f h ≠ .error .dead ∧ ∀ b h', f h = .ok (b, h') →
    h'.live = Q b + rest

section
variable {β γ : Type} {P P' F : Multiset Nat} {Q Q' : β → Multiset Nat} {R : γ → Multiset Nat}
  {f : Prog β} {g : β → Prog γ}

theorem bind_error {h : Store} {e : Fault} (hf : f h = .error e) : (f >>= g) h = .error e := by
  show (f h >>= fun p => g p.1 p.2) = _
  rw [hf]
  rfl

theorem bind_ok {h h' : Store} {b : β} (hf : f h = .ok (b, h')) : (f >>= g) h = g b h' := by
  show (f h >>= fun p => g p.1 p.2) = _
  rw [hf]
  rfl

/-- a statement that ends -/
theorem ends {s' : Store} {b : β} {rest : Multiset Nat} (h : s'.live = Q b + rest) :
    (Except.ok (b, s') : Except Fault (β × Store)) ≠ .error .dead ∧
      ∀ b₁ s₁, (Except.ok (b, s') : Except Fault (β × Store)) = .ok (b₁, s₁) →
        s₁.live = Q b₁ + rest := by
  refine ⟨?_, ?_⟩
  · intro hdead
    cases hdead
  · intro b₁ s₁ hok
    cases hok
    exact h

theorem triple_pure {b : β} (h : P = Q b) : Triple P (pure b) Q := fun _ _ hlive => ends (h ▸ hlive)

theorem triple_throw {e : Fault} (he : e ≠ .dead) : Triple P (throw e : Prog β) Q := by
  intro s rest _
  refine ⟨?_, ?_⟩
  · intro hdead
    cases hdead
    exact he rfl
  · intro b s' hb
    cases hb

theorem Triple.bind (hf : Triple P f Q) (hg : ∀ b, Triple (Q b) (g b) R) :
    Triple P (f >>= g) R := by
  intro s rest hlive
  obtain ⟨halive, hdone⟩ := hf s rest hlive
  cases hfs : f s with
  | error e =>
    rw [bind_error hfs]
    rw [hfs] at halive
    refine ⟨?_, ?_⟩
    · intro hdead
      cases hdead
      exact halive rfl
    · intro b s' hb
      cases hb
  | ok p =>
    rw [bind_ok hfs]
    exact hg p.1 p.2 rest (hdone p.1 p.2 hfs)

/-- **The frame rule.** -/
theorem Triple.frame (hf : Triple P f Q) (F : Multiset Nat) :
    Triple (P + F) f fun b => Q b + F := by
  intro s rest hlive
  rw [add_assoc] at hlive
  obtain ⟨halive, hdone⟩ := hf s (F + rest) hlive
  refine ⟨halive, fun b s' hb => ?_⟩
  rw [hdone b s' hb, add_assoc]

theorem Triple.pre (hf : Triple P f Q) (hP : P' = P) : Triple P' f Q := hP ▸ hf

theorem Triple.post (hf : Triple P f Q) (hQ : ∀ b, Q b = Q' b) : Triple P f Q' := by
  rw [← funext hQ]
  exact hf

/-- a statement, and what comes after it -/
theorem triple_step (F : Multiset Nat) (hf : Triple P f Q) (hP : P' = P + F)
    (hg : ∀ b, Triple (Q b + F) (g b) R) :
    Triple P' (f >>= g) R :=
  ((hf.frame F).bind hg).pre hP

/-- what a program owns are different blocks -/
theorem triple_nodup (hf : P.Nodup → Triple P f Q) : Triple P f Q := by
  intro s rest hlive
  have hnodup : (P + rest).Nodup := hlive ▸ s.nodup
  exact hf (Multiset.nodup_of_le (Multiset.le_add_right P rest) hnodup) s rest hlive

end

/-! ## the statements -/

theorem triple_malloc (grants : Nat → Bool) : Triple 0 (malloc grants) ptr := by
  intro s rest hlive
  rw [zero_add] at hlive
  unfold malloc
  split
  · refine ends ?_
    show s.next ::ₘ s.live = {s.next} + rest
    rw [hlive, Multiset.singleton_add]
  · refine ends ?_
    show s.live = 0 + rest
    rw [hlive, zero_add]

theorem mem_of_owned {s : Store} {a : Nat} {rest : Multiset Nat} (h : s.live = {a} + rest) :
    a ∈ s.live := by
  rw [h, Multiset.singleton_add]
  exact Multiset.mem_cons_self a rest

theorem triple_free (a : Nat) : Triple {a} (free a) fun _ => 0 := by
  intro s rest hlive
  unfold free
  rw [if_pos (mem_of_owned hlive)]
  refine ends ?_
  show s.live.erase a = 0 + rest
  rw [hlive, Multiset.singleton_add, Multiset.erase_cons_head, zero_add]

theorem triple_freePtr (p : Option Nat) : Triple (ptr p) (freePtr p) fun _ => 0 := by
  cases p with
  | none => exact triple_pure rfl
  | some a => exact triple_free a

theorem triple_touch (a : Nat) : Triple {a} (touch a) fun _ => {a} := by
  intro s rest hlive
  unfold touch
  rw [if_pos (mem_of_owned hlive)]
  exact ends hlive

theorem triple_deref (p : Option Nat) : Triple (ptr p) (deref p) fun _ => ptr p := by
  cases p with
  | none => exact triple_throw (by decide)
  | some a => exact triple_touch a

/-! ## statements in front of others -/

section
variable {β : Type} {P F : Multiset Nat} {f : Prog β} {Q : β → Multiset Nat}

theorem triple_touch_then {a : Nat} (ha : a ∈ P) (hf : Triple P f Q) :
    Triple P (touch a >>= fun _ => f) Q := by
  obtain ⟨F, rfl⟩ := Multiset.exists_cons_of_mem ha
  rw [← Multiset.singleton_add] at hf ⊢
  exact triple_step F (triple_touch a) rfl fun _ => hf

theorem triple_touchPtr_then {p : Option Nat} (hp : ∀ a ∈ p, a ∈ P) (hf : Triple P f Q) :
    Triple P (touchPtr p >>= fun _ => f) Q := by
  cases p with
  | none => exact hf
  | some a => exact triple_touch_then (hp a rfl) hf

theorem triple_deref_then {p : Option Nat} (hp : ∀ a ∈ p, a ∈ P) (hf : Triple P f Q) :
    Triple P (deref p >>= fun _ => f) Q := by
  cases p with
  | none =>
    have hnull : Triple P (deref none) fun _ => P := triple_throw (by decide)
    exact hnull.bind fun _ => hf
  | some a => exact triple_touch_then (hp a rfl) hf

theorem triple_free_then {a : Nat} (hf : Triple F f Q) :
    Triple ({a} + F) (free a >>= fun _ => f) Q :=
  triple_step F (triple_free a) rfl fun _ => hf.pre (zero_add F)

theorem triple_freePtr_then {p : Option Nat} (hf : Triple F f Q) :
    Triple (ptr p + F) (freePtr p >>= fun _ => f) Q :=
  triple_step F (triple_freePtr p) rfl fun _ => hf.pre (zero_add F)

/-- an allocation whose refusal is answered -/
theorem triple_malloc_then {grants : Nat → Bool} {g : Option Nat → Prog β}
    (hnone : Triple P (g none) Q) (hsome : ∀ a, Triple ({a} + P) (g (some a)) Q) :
    Triple P (malloc grants >>= g) Q := by
  refine triple_step P (triple_malloc grants) (zero_add P).symm fun p => ?_
  cases p with
  | none => exact hnone.pre (zero_add P)
  | some a => exact hsome a

end

/-! ## results -/

/-- what a program returns where it ends -/
def Returns {β : Type} (f : Prog β) (p : β → Prop) : Prop := ∀ s b s', f s = .ok (b, s') → p b

section
variable {β γ : Type} {f : Prog β} {g : β → Prog γ} {p : β → Prop} {q : γ → Prop}

theorem returns_pure {b : β} (h : p b) : Returns (pure b) p := by
  intro s b' s' hok
  cases hok
  exact h

theorem returns_throw (e : Fault) : Returns (throw e : Prog β) p := by
  intro s b s' hok
  cases hok

theorem Returns.bind (hf : Returns f p) (hg : ∀ b, p b → Returns (g b) q) :
    Returns (f >>= g) q := by
  intro s c s' hok
  cases hfs : f s with
  | error e =>
    rw [bind_error hfs] at hok
    cases hok
  | ok r =>
    rw [bind_ok hfs] at hok
    exact hg r.1 (hf s r.1 r.2 hfs) r.2 c s' hok

theorem Returns.imp {p' : β → Prop} (hf : Returns f p) (h : ∀ b, p b → p' b) : Returns f p' :=
  fun s b s' hok => h b (hf s b s' hok)

/-- a statement whose result does not matter -/
theorem returns_then (hg : ∀ b, Returns (g b) q) : Returns (f >>= g) q :=
  Returns.bind (fun _ _ _ _ => trivial) fun b (_ : True) => hg b

end

/-! ## calls -/

/-- how many blocks are left by a program that starts with none -/
def remains {β : Type} (f : Prog β) : Option Nat :=
  match f Store.empty with
  | .ok r => some r.2.live.card
  | .error _ => none

theorem remains_some {β : Type} {f : Prog β} {n : Nat} (h : remains f = some n) :
    ∃ b s', f Store.empty = .ok (b, s') ∧ s'.live.card = n := by
  unfold remains at h
  cases hf : f Store.empty with
  | error e =>
    rw [hf] at h
    cases h
  | ok r =>
    rw [hf] at h
    exact ⟨r.1, r.2, rfl, Option.some.inj h⟩

/-- a call that has returned -/
structure Done (σ α ρ : Type) where
  before : σ
  action : α
  result : ρ
  after : σ

section
variable {σ α ρ : Type} {call : σ → α → Prog (ρ × σ)} {owned : σ → Multiset Nat}
  {dropped : Done σ α ρ → Multiset Nat}

def calls (call : σ → α → Prog (ρ × σ)) (s : σ) : List α → Prog (List (Done σ α ρ) × σ)
  | [] => pure ([], s)
  | a :: as => do
    let r ← call s a
    let rest ← calls call r.2 as
    pure (⟨s, a, r.1, r.2⟩ :: rest.1, rest.2)

/-- **What is left behind a run is what the state owns and what the calls have dropped.** -/
theorem triple_calls (h : ∀ s a, Triple (owned s) (call s a) fun r =>
    owned r.2 + dropped ⟨s, a, r.1, r.2⟩) (s : σ)
    (as : List α) :
    Triple (owned s) (calls call s as) fun r => owned r.2 + (r.1.map dropped).sum := by
  induction as generalizing s with
  | nil => exact triple_pure (add_zero _).symm
  | cons a as ih =>
    refine (h s a).bind fun r => ?_
    refine triple_step _ (ih r.2) rfl fun rest => triple_pure ?_
    rw [List.map_cons, List.sum_cons]
    abel

end

end Resources

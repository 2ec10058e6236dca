import Pluto.Ts.Lifecycle
import Pluto.Mp4.Lifecycle

/-!
# A muxer from `muxer_writer_create` to `muxer_writer_destroy`

* `MuxerWriter`         the handle, with the driver that its function table belongs to;
* `session`             a handle is created, takes calls in any order, and is destroyed;
* `muxer_session`       no session uses or frees a block that is not allocated, and what it leaves
                        behind is what its calls dropped and what an open muxer owns.
-/

namespace Pluto.Handles
open Resources

/-- `mPrivContext`, and which driver it belongs to -/
inductive Muxer where
  | mp4 (mPrivContext : Option Mp4.Lifecycle.Context)
  | mpeg2ts (mPrivContext : Option Ts.Driver.Context)

structure MuxerWriter where
  block : Nat
  muxer : Muxer

def Muxer.owned : Muxer → Multiset Nat
  | .mp4 h => Mp4.Lifecycle.owned h
  | .mpeg2ts h => Ts.Driver.owned h

def MuxerWriter.owned (w : MuxerWriter) : Multiset Nat := {w.block} + w.muxer.owned

/-- what the calls of the two drivers do not do themselves -/
structure Machine where
  pcr : Int → Int
  env : Mp4.Env
  raw_time : Int
  words : Nat → UInt32
  keyframes : Nat → UInt32
  grants : Nat → Bool

section
variable (M : Machine)

def createMp4MuxerHandle : Prog (Option MuxerWriter) := do
  let handle ← malloc M.grants
  pure (handle.map fun block => ⟨block, .mp4 none⟩)

def createMpeg2tsMuxerHandle : Prog (Option MuxerWriter) := do
  let handle ← malloc M.grants
  pure (handle.map fun block => ⟨block, .mpeg2ts none⟩)

def muxerWriterCreate (mode : Int) : Prog (Option MuxerWriter) :=
  if mode = 0 then createMp4MuxerHandle M
  else if mode = 1 then createMpeg2tsMuxerHandle M
  else pure none

/-- `mPrivContext` is read before the handle is compared with the null pointer -/
def muxerWriterDestroy : Option MuxerWriter → Prog Unit
  | none => throw .null
  | some w => do
    touch w.block
    free w.block

/-- a call through the function table -/
def MuxerWriter.call (w : MuxerWriter) (a : MuxerCall) : Prog (Ret × MuxerWriter) := do
  touch w.block
  match w.muxer with
  | .mp4 h => do
    let r ← Mp4.Lifecycle.call M.env M.raw_time M.words M.keyframes M.grants h a
    pure (r.1, { w with muxer := .mp4 r.2 })
  | .mpeg2ts h => do
    let r ← Ts.Driver.call M.pcr M.grants h a
    pure (r.1, { w with muxer := .mpeg2ts r.2 })

/-- the calls that were made, and the muxer when it is destroyed -/
def session (mode : Int) (as : List MuxerCall) :
    Prog (Option (List (Done MuxerWriter MuxerCall Ret) × MuxerWriter)) := do
  let w ← muxerWriterCreate M mode
  match w with
  | none => pure none
  | some w => do
    let r ← calls (MuxerWriter.call M) w as
    muxerWriterDestroy (some r.2)
    pure (some r)

end

/-- what a call drops: see the drivers -/
def dropped (d : Done MuxerWriter MuxerCall Ret) : Multiset Nat :=
  match d.before.muxer with
  | .mp4 h => Mp4.Lifecycle.dropped h d.action d.result
  | .mpeg2ts h => Ts.Driver.dropped h d.action d.result

/-- what a session leaves: what its calls dropped, and what is behind a muxer that was not closed -/
def leftBehind (r : Option (List (Done MuxerWriter MuxerCall Ret) × MuxerWriter)) : Multiset Nat :=
  r.elim 0 fun r => (r.1.map dropped).sum + r.2.muxer.owned

section
variable (M : Machine)

theorem triple_muxerWriterCreate (mode : Int) :
    Triple 0 (muxerWriterCreate M mode) fun w => w.elim 0 MuxerWriter.owned := by
  unfold muxerWriterCreate
  split
  · refine (triple_malloc M.grants).bind fun handle => ?_
    cases handle with
    | none => exact triple_pure rfl
    | some block => exact triple_pure (add_zero _).symm
  split
  · refine (triple_malloc M.grants).bind fun handle => ?_
    cases handle with
    | none => exact triple_pure rfl
    | some block => exact triple_pure (add_zero _).symm
  · exact triple_pure rfl

theorem triple_writerCall (w : MuxerWriter) (a : MuxerCall) :
    Triple w.owned (w.call M a) fun r => r.2.owned + dropped ⟨w, a, r.1, r.2⟩ := by
  obtain ⟨block, muxer⟩ := w
  unfold MuxerWriter.call
  refine triple_touch_then (Multiset.mem_add.mpr (.inl (Multiset.mem_singleton_self _))) ?_
  cases muxer with
  | mp4 h =>
    refine triple_step {block}
      (Mp4.Lifecycle.triple_call M.env M.raw_time M.words M.keyframes M.grants h a)
      (add_comm _ _) fun r => triple_pure ?_
    show Mp4.Lifecycle.owned r.2 + Mp4.Lifecycle.dropped h a r.1 + {block}
      = {block} + Mp4.Lifecycle.owned r.2 + Mp4.Lifecycle.dropped h a r.1
    abel
  | mpeg2ts h =>
    refine triple_step {block} (Ts.Driver.triple_call M.pcr M.grants h a) (add_comm _ _) fun r =>
      triple_pure ?_
    show Ts.Driver.owned r.2 + Ts.Driver.dropped h a r.1 + {block}
      = {block} + Ts.Driver.owned r.2 + Ts.Driver.dropped h a r.1
    abel

theorem triple_session (mode : Int) (as : List MuxerCall) :
    Triple 0 (session M mode as) leftBehind := by
  unfold session
  refine (triple_muxerWriterCreate M mode).bind fun w => ?_
  cases w with
  | none => exact triple_pure rfl
  | some w =>
    refine (triple_calls (triple_writerCall M) w as).bind fun r => ?_
    show Triple ({r.2.block} + r.2.muxer.owned + (r.1.map dropped).sum) _ _
    rw [add_assoc]
    have hdestroy : Triple {r.2.block} (muxerWriterDestroy (some r.2)) fun _ => 0 :=
      triple_touch_then (Multiset.mem_singleton_self _) (triple_free _)
    refine triple_step _ hdestroy rfl fun _ => triple_pure ?_
    show 0 + (r.2.muxer.owned + (r.1.map dropped).sum) = (r.1.map dropped).sum + r.2.muxer.owned
    abel

/-- **The blocks of a muxer.**  Whatever mode a muxer is created with, whatever calls it takes, in
whatever order, and whichever requests for memory and files are granted: no call uses or frees a
block that is not allocated, and when the muxer has been destroyed, the blocks that are left are
those that its calls dropped and those of a context that was not closed. -/
theorem muxer_session (mode : Int) (as : List MuxerCall) (s : Store) :
    session M mode as s ≠ .error .dead ∧
      ∀ r s', session M mode as s = .ok (r, s') → s'.live = leftBehind r + s.live ∧
        (s'.live = s.live ↔ ∀ done w, r = some (done, w) →
          w.muxer.owned = 0 ∧ ∀ d ∈ done, dropped d = 0) := by
  obtain ⟨halive, hdone⟩ := triple_session M mode as s s.live (zero_add _).symm
  refine ⟨halive, fun r s' hok => ⟨hdone r s' hok, ?_⟩⟩
  rw [hdone r s' hok]
  have hzero : leftBehind r + s.live = s.live ↔ leftBehind r = 0 :=
    ⟨fun h => add_eq_right.mp h, fun h => by rw [h, zero_add]⟩
  rw [hzero]
  cases r with
  | none => exact ⟨fun _ _ _ h => (by cases h), fun _ => rfl⟩
  | some r =>
    obtain ⟨done, w⟩ := r
    show (done.map dropped).sum + w.muxer.owned = 0 ↔ _
    rw [add_eq_zero, List.sum_eq_zero_iff]
    constructor
    · rintro ⟨hdropped, howned⟩ done' w' h
      cases h
      exact ⟨howned, fun d hd => hdropped _ (List.mem_map_of_mem hd)⟩
    · intro h
      obtain ⟨howned, hdropped⟩ := h done w rfl
      refine ⟨fun x hx => ?_, howned⟩
      obtain ⟨d, hd, rfl⟩ := List.mem_map.mp hx
      exact hdropped d hd

end

/-- every request is granted -/
def smallMachine : Machine := ⟨id, Mp4.Lifecycle.noEnv, 0, fun _ => 0, fun _ => 0, fun _ => true⟩

/-- a recording without packets -/
def smallSession : List MuxerCall :=
  [.muxerOpen, .muxerIOCtrl .setStreamFilepath, .muxerIOCtrl (.setCacheMode 1),
    .muxerIOCtrl (.setCacheSize 4), .muxerWriteCSD ⟨[0x14, 0x08], by decide⟩ .audio,
    .muxerWriteHeader, .muxerClose]

theorem smallSession_mp4 :
    remains (session smallMachine 0 smallSession) = some 0 := by decide +kernel

theorem smallSession_mpeg2ts :
    remains (session smallMachine 1 smallSession) = some 1 := by decide +kernel

/-- the same calls leave nothing of one muxer, and a copy of the codec-specific data of the other -/
theorem muxer_session_small :
    (∃ r s', session smallMachine 0 smallSession Store.empty = .ok (r, s') ∧ leftBehind r = 0) ∧
      ∃ r s', session smallMachine 1 smallSession Store.empty = .ok (r, s') ∧
      (leftBehind r).card = 1 := by
  obtain ⟨r₀, s₀, hrun₀, hcard₀⟩ := remains_some smallSession_mp4
  obtain ⟨r₁, s₁, hrun₁, hcard₁⟩ := remains_some smallSession_mpeg2ts
  have hleft₀ := ((muxer_session smallMachine 0 smallSession Store.empty).2 r₀ s₀ hrun₀).1
  have hleft₁ := ((muxer_session smallMachine 1 smallSession Store.empty).2 r₁ s₁ hrun₁).1
  have hempty : Store.empty.live = 0 := rfl
  rw [hempty, add_zero] at hleft₀ hleft₁
  exact ⟨⟨r₀, s₀, hrun₀, hleft₀ ▸ Multiset.card_eq_zero.mp hcard₀⟩, r₁, s₁, hrun₁, hleft₁ ▸ hcard₁⟩

end Pluto.Handles

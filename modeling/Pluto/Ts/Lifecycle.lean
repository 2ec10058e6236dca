import Pluto.Muxer.Handles
import Pluto.Ts.File

/-!
# `Mpeg2tsMuxerDrv.c` and what it allocates

* `Context`             the context of `Mpeg2tsMuxerOpen` with the blocks behind it;
* `Context.call`        the calls of the driver, over the blocks that they allocate, free and use;
* `dropped`             the blocks that nobody can reach after a call;
* `triple_call`         a call uses no block that was freed, and leaves what the context owns and
  what it drops.
-/

namespace Pluto.Ts.Driver
open Octets Resources Handles

/-! ## the context -/

/-- `ctx`: the fields that are no pointers -/
structure Context where
  block : Nat
  npCsdData : CodecType → Option Nat
  out : Output
  ctx : AVFormatContext

def Context.owned (c : Context) : Multiset Nat := {c.block} + csdOwned c.npCsdData + c.out.owned

/-- what stands behind `mPrivContext` -/
def owned (h : Option Context) : Multiset Nat := h.elim 0 Context.owned

@[simp] theorem owned_none : owned none = 0 := rfl

@[simp] theorem owned_some (c : Context) : owned (some c) = c.owned := rfl

/-! ## the calls -/

section
variable (pcr : Int → Int) (grants : Nat → Bool)

/-- the old context is overwritten -/
def mpeg2tsMuxerOpen (h : Option Context) : Prog (Ret × Option Context) := do
  let context ← malloc grants
  match context with
  | none => pure (.refused [], h)
  | some block => do
    touch block
    pure (.code 0, some ⟨block, fun _ => none, Output.closed, Ts.mpeg2tsMuxerOpen⟩)

/-- the codec-specific data are not freed -/
def mpeg2tsMuxerClose (c : Context) : Prog (Ret × Option Context) := do
  touch c.block
  c.out.close
  free c.block
  pure (.code 0, none)

def mpeg2tsMuxerWriteCSD (c : Context) (csdData : Bytes) (idx : CodecType) :
    Prog (Ret × Option Context) := do
  touch c.block
  let csd ← copyCsd grants c.npCsdData csdData.length idx
  pure (.code 0, some { c with npCsdData := csd, ctx := Ts.mpeg2tsMuxerWriteCSD c.ctx csdData idx })

/-- without a stream the header is prepared all the same -/
def mpeg2tsMuxerWriteHeader (c : Context) : Prog (Ret × Option Context) := do
  touch c.block
  if c.out.mpCacheWriter.isSome then pure (.code (-1), some c)
  else match c.out.mpStream with
    | none => pure (.code 0, some { c with ctx := Ts.mpeg2tsMuxerWriteHeader c.ctx })
    | some s =>
      if c.out.mFsCacheMode = cachemodeThread then pure (.code (-1), some c)
      else if c.out.mFsCacheMode = cachemodeSimple then do
        let out ← c.out.openCache grants s
        if out.mpCacheWriter.isNone then pure (.code (-1), some { c with out := out })
        else pure (.code 0, some { c with out := out, ctx := Ts.mpeg2tsMuxerWriteHeader c.ctx })
      else pure (.code (-1), some c)

/-- the calls on the cache writer that `mpeg2ts_write_packet` makes; the data of the track may be
read -/
def mpeg2tsMuxerWritePacket (c : Context) (m : Mem) (pkt : AVPacket) :
    Prog (Ret × Option Context) := do
  touch c.block
  touchPtr (c.npCsdData .video)
  touchPtr (c.npCsdData .audio)
  match mpeg2tsWritePacket pcr c.ctx m pkt with
  | none => throw .stuck
  | some r => do
    cacheCalls c.out.mpCacheWriter r.1.length
    pure (.code 0, some { c with ctx := r.2 })

def mpeg2tsMuxerWriteTrailer (c : Context) : Prog (Ret × Option Context) := do
  touch c.block
  cacheCalls c.out.mpCacheWriter mpeg2tsWriteTrailer.length
  pure (.size, some c)

/-- `SET_TRACK_INFO` takes H.264 only -/
def mpeg2tsMuxerIOCtrl (c : Context) (cmd : MuxerIoctl) : Prog (Ret × Option Context) := do
  touch c.block
  match cmd with
  | .setTrackInfo none => pure (.code (-1), some c)
  | .setTrackInfo (some info) =>
    if info.mVideoEncType = .vencH264 then
      pure (.code 0, some { c with ctx := setTrackInfo c.ctx info.mChannelCnt info.mSampleRate })
    else pure (.code (-1), some c)
  | .setTotalTime _ => pure (.code 0, some c)
  | .setFallocateLen param =>
    pure (.code 0, some { c with out := { c.out with mFallocateLen := param } })
  | .setTfcardState _ => pure (.code 0, some c)
  | .setCacheMode param =>
    pure (.code 0, some { c with out := { c.out with mFsCacheMode := param } })
  | .setCacheSize param =>
    pure (.code 0, some { c with out := { c.out with mCacheSimpleSize := param } })
  | .setStreamCallback => do
    c.out.setCallback
    pure (.code 0, some c)
  | .setStreamFd => do
    let r ← c.out.setStream grants .fd
    pure (.code r.1, some { c with out := r.2 })
  | .setStreamFilepath => do
    let r ← c.out.setStream grants .filepath
    pure (.code r.1, some { c with out := r.2 })
  | .unknown _ => pure (.code 0, some c)

def Context.call (c : Context) : MuxerCall → Prog (Ret × Option Context)
  | .muxerOpen => mpeg2tsMuxerOpen grants (some c)
  | .muxerClose => mpeg2tsMuxerClose c
  | .muxerIOCtrl cmd => mpeg2tsMuxerIOCtrl grants c cmd
  | .muxerWriteCSD csdData idx => mpeg2tsMuxerWriteCSD grants c csdData.val idx
  | .muxerWriteHeader => mpeg2tsMuxerWriteHeader grants c
  | .muxerWritePacket m pkt => mpeg2tsMuxerWritePacket pcr c m pkt
  | .muxerWriteTrailer => mpeg2tsMuxerWriteTrailer c

/-- the calls that do not follow the null pointer of a muxer that is not open -/
def callClosed : MuxerCall → Prog (Ret × Option Context)
  | .muxerOpen => mpeg2tsMuxerOpen grants none
  | .muxerIOCtrl (.setTrackInfo none) => pure (.code (-1), none)
  | .muxerIOCtrl (.unknown _) => pure (.code 0, none)
  | .muxerWritePacket _ pkt =>
    if codecType pkt.stream_idx = none then pure (.code 0, none) else throw .null
  | _ => throw .null

def call (h : Option Context) (a : MuxerCall) : Prog (Ret × Option Context) :=
  h.elim (callClosed grants a) fun c => c.call pcr grants a

end

/-! ## what a call leaves -/

/-- what cannot be reached any more when a call on the context has succeeded -/
def Context.dropped (c : Context) : MuxerCall → Multiset Nat
  | .muxerOpen => c.owned
  | .muxerClose => csdOwned c.npCsdData + c.out.stray
  | .muxerIOCtrl .setStreamFd => c.out.replaced
  | .muxerIOCtrl .setStreamFilepath => c.out.replaced
  | .muxerWriteCSD _ idx => ptr (c.npCsdData idx)
  | _ => 0

/-- what a call that has returned leaves without an owner -/
def dropped (h : Option Context) (a : MuxerCall) (ret : Ret) : Multiset Nat :=
  match a, ret with
  | .muxerOpen, .refused locals => locals
  | a, _ => h.elim 0 fun c => c.dropped a

section
variable (pcr : Int → Int) (grants : Nat → Bool) (c : Context)

/-- a call that only works on the output -/
theorem triple_output {β : Type} {f : Prog β} {Q : β → Multiset Nat} (hf : Triple c.out.owned f Q) :
    Triple c.owned f fun b => {c.block} + csdOwned c.npCsdData + Q b :=
  ((hf.frame ({c.block} + csdOwned c.npCsdData)).pre (add_comm _ _)).post fun _ => add_comm _ _

theorem triple_open (h : Option Context) :
    Triple (owned h) (mpeg2tsMuxerOpen grants h) fun r => owned r.2 + dropped h .muxerOpen r.1 := by
  unfold mpeg2tsMuxerOpen
  refine triple_malloc_then (triple_pure ?_) fun block => ?_
  · exact (add_zero _).symm
  · refine triple_touch_then (Multiset.mem_add.mpr (.inl (Multiset.mem_singleton_self block)))
      (triple_pure ?_)
    show {block} + owned h = {block} + 0 + (0 + 0 + 0) + owned h
    abel

theorem triple_muxerClose :
    Triple c.owned (mpeg2tsMuxerClose c) fun r =>
      owned r.2 + (csdOwned c.npCsdData + c.out.stray) := by
  unfold mpeg2tsMuxerClose
  refine triple_touch_then (by simp [Context.owned])
    ((triple_output c (triple_close c.out)).bind fun _ => ?_)
  rw [add_assoc]
  exact triple_free_then (triple_pure (zero_add _).symm)

theorem triple_writeCSD (csdData : Bytes) (idx : CodecType) :
    Triple c.owned (mpeg2tsMuxerWriteCSD grants c csdData idx) fun r =>
      owned r.2 + ptr (c.npCsdData idx) := by
  unfold mpeg2tsMuxerWriteCSD
  refine triple_touch_then (by simp [Context.owned]) ?_
  refine triple_step ({c.block} + c.out.owned)
    (triple_copyCsd grants c.npCsdData csdData.length idx) ?_ fun csd => ?_
  · unfold Context.owned
    abel
  · refine triple_pure ?_
    show csdOwned csd + ptr (c.npCsdData idx) + ({c.block} + c.out.owned)
      = {c.block} + csdOwned csd + c.out.owned + ptr (c.npCsdData idx)
    abel

theorem triple_writeHeader :
    Triple c.owned (mpeg2tsMuxerWriteHeader grants c) fun r => owned r.2 := by
  unfold mpeg2tsMuxerWriteHeader
  refine triple_touch_then (by simp [Context.owned]) ?_
  split
  · exact triple_pure rfl
  rename_i hwriter
  have hnone : c.out.mpCacheWriter = none := by
    cases hw : c.out.mpCacheWriter with
    | none => rfl
    | some w =>
      rw [hw] at hwriter
      exact absurd rfl hwriter
  cases hs : c.out.mpStream with
  | none => exact triple_pure rfl
  | some s =>
    dsimp only
    split
    · exact triple_pure rfl
    split
    · refine (triple_output c (triple_openCache grants hs hnone)).bind fun out => ?_
      split
      · exact triple_pure rfl
      · exact triple_pure rfl
    · exact triple_pure rfl

theorem csd_mem (t : CodecType) : ∀ a ∈ c.npCsdData t, a ∈ c.owned := by
  intro a ha
  cases t with
  | video => simp [Context.owned, csdOwned, Option.mem_def.mp ha]
  | audio => simp [Context.owned, csdOwned, Option.mem_def.mp ha]

theorem triple_writePacket (m : Mem) (pkt : AVPacket) :
    Triple c.owned (mpeg2tsMuxerWritePacket pcr c m pkt) fun r => owned r.2 := by
  unfold mpeg2tsMuxerWritePacket
  refine triple_touch_then (by simp [Context.owned]) ?_
  refine triple_touchPtr_then (csd_mem c .video) (triple_touchPtr_then (csd_mem c .audio) ?_)
  cases mpeg2tsWritePacket pcr c.ctx m pkt with
  | none => exact triple_throw (by decide)
  | some r => exact (triple_output c (triple_writes c.out r.1.length)).bind fun _ => triple_pure rfl

theorem triple_writeTrailer : Triple c.owned (mpeg2tsMuxerWriteTrailer c) fun r => owned r.2 := by
  unfold mpeg2tsMuxerWriteTrailer
  exact triple_touch_then (by simp [Context.owned])
    ((triple_output c (triple_writes c.out _)).bind fun _ => triple_pure rfl)

/-- the stream that was replaced -/
theorem triple_newStream (source_type : MediaSourceType) :
    Triple c.owned (c.out.setStream grants source_type >>= fun r =>
      pure (.code r.1, some { c with out := r.2 }))
      fun r : Ret × Option Context => owned r.2 + c.out.replaced := by
  refine (triple_output c (triple_setStream grants c.out source_type)).bind fun r => triple_pure ?_
  exact (add_assoc _ _ _).symm

theorem triple_ioctrl (cmd : MuxerIoctl) :
    Triple c.owned (mpeg2tsMuxerIOCtrl grants c cmd) fun r =>
      owned r.2 + c.dropped (.muxerIOCtrl cmd) := by
  unfold mpeg2tsMuxerIOCtrl
  refine triple_touch_then (by simp [Context.owned]) ?_
  cases cmd with
  | setTrackInfo data =>
    cases data with
    | none => exact triple_pure (add_zero _).symm
    | some info =>
      dsimp only
      split
      · exact triple_pure (add_zero _).symm
      · exact triple_pure (add_zero _).symm
  | setTotalTime param => exact triple_pure (add_zero _).symm
  | setFallocateLen param => exact triple_pure (add_zero _).symm
  | setTfcardState param => exact triple_pure (add_zero _).symm
  | setCacheMode param => exact triple_pure (add_zero _).symm
  | setCacheSize param => exact triple_pure (add_zero _).symm
  | setStreamCallback =>
    exact (triple_output c (triple_setCallback c.out)).bind fun _ => triple_pure (add_zero _).symm
  | setStreamFd => exact triple_newStream grants c .fd
  | setStreamFilepath => exact triple_newStream grants c .filepath
  | unknown cmd => exact triple_pure (add_zero _).symm

end

/-- a muxer that is not open -/
theorem triple_callClosed (grants : Nat → Bool) (a : MuxerCall) :
    Triple 0 (callClosed grants a) fun r => owned r.2 + dropped none a r.1 := by
  have hnull : Triple 0 (throw .null : Prog (Ret × Option Context)) fun r =>
    owned r.2 + dropped none a r.1 :=
    triple_throw (by decide)
  cases a with
  | muxerOpen => exact triple_open grants none
  | muxerIOCtrl cmd =>
    cases cmd with
    | setTrackInfo data =>
      cases data with
      | none => exact triple_pure rfl
      | some info => exact hnull
    | unknown cmd => exact triple_pure rfl
    | _ => exact hnull
  | muxerWritePacket m pkt =>
    show Triple 0 (if codecType pkt.stream_idx = none then pure (Ret.code 0, none) else throw .null)
      _
    split
    · exact triple_pure rfl
    · exact hnull
  | _ => exact hnull

/-- **A call of the driver**, open or not: it uses no block that was freed, and leaves what the
context owns and what the call drops. -/
theorem triple_call (pcr : Int → Int) (grants : Nat → Bool) (h : Option Context) (a : MuxerCall) :
    Triple (owned h) (call pcr grants h a) fun r => owned r.2 + dropped h a r.1 := by
  cases h with
  | none => exact triple_callClosed grants a
  | some c =>
    cases a with
    | muxerOpen => exact triple_open grants (some c)
    | muxerClose => exact triple_muxerClose c
    | muxerIOCtrl cmd => exact triple_ioctrl grants c cmd
    | muxerWriteCSD csdData idx => exact triple_writeCSD grants c csdData.val idx
    | muxerWriteHeader => exact (triple_writeHeader grants c).post fun _ => (add_zero _).symm
    | muxerWritePacket m pkt =>
      exact (triple_writePacket pcr c m pkt).post fun _ => (add_zero _).symm
    | muxerWriteTrailer => exact (triple_writeTrailer c).post fun _ => (add_zero _).symm

end Pluto.Ts.Driver

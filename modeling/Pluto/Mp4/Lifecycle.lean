import Pluto.Muxer.Handles
import Pluto.Mp4.Driver

/-!
# `Mp4MuxerDrv.c` and what it allocates

* `Context`             the context of `Mp4MuxerOpen` with the blocks behind it;
* `Context.call`        the calls of the driver, over the blocks that they allocate, free and use;
* `parseBuffers`        the buffers that the parser of the trailer takes and gives back;
* `dropped`             the blocks that nobody can reach after a call;
* `triple_call`         a call uses no block that was freed, and leaves what the context owns and
  what it drops;
* `open_refines`        without their blocks the calls are those of `Mp4.Driver`, for some answers
  to its requests.
-/

namespace Pluto.Mp4.Lifecycle
open Octets Resources Handles

/-! ## the context -/

/-- `ctx`: the fields that are no pointers, those of `priv_data` among them -/
structure Context where
  block : Nat
  priv_data : Nat
  streams : CodecType → Nat
  title_info : Option Nat
  mov_inf_cache : Nat
  cache_keyframe_ptr : Option Nat
  csdData : CodecType → Option Nat
  out : Output
  ctx : AVFormatContext

/-- the blocks of `Mp4MuxerOpen` -/
def Context.blocks (c : Context) : Multiset Nat :=
  {c.block} + {c.priv_data} + {c.streams .video} + {c.streams .audio} + ptr c.title_info
    + {c.mov_inf_cache}
    + ptr c.cache_keyframe_ptr

def Context.owned (c : Context) : Multiset Nat := c.blocks + csdOwned c.csdData + c.out.owned

/-- what stands behind `mPrivContext` -/
def owned (h : Option Context) : Multiset Nat := h.elim 0 Context.owned

@[simp] theorem owned_none : owned none = 0 := rfl

@[simp] theorem owned_some (c : Context) : owned (some c) = c.owned := rfl

/-! ## the calls -/

section
variable (env : Env) (raw_time : Int) (words keyframes : Nat → UInt32) (grants : Nat → Bool)

/-- an allocation that is written to at once -/
def mallocZeroed : Prog Nat := do
  let p ← malloc grants
  match p with
  | none => throw .null
  | some a => do
    touch a
    pure a

/-- the old context is overwritten; what has been allocated is not freed where `Mp4MuxerOpen` gives
up -/
def mp4MuxerOpen (h : Option Context) : Prog (Ret × Option Context) := do
  let context ← malloc grants
  match context with
  | none => pure (.refused [], h)
  | some block => do
    let mov ← malloc grants
    match mov with
    | none => pure (.refused [block], h)
    | some priv_data => do
      let video ← mallocZeroed grants
      let audio ← mallocZeroed grants
      let title_info ← malloc grants
      let cache ← malloc grants
      match cache with
      | none => pure (.refused ([block, priv_data, video, audio] ++ title_info.toList), h)
      | some mov_inf_cache => do
        let cache_keyframe_ptr ← malloc grants
        pure (.code 0, some {
          block := block
          priv_data := priv_data
          streams := fun i => match i with
            | .video => video
            | .audio => audio
          title_info := title_info
          mov_inf_cache := mov_inf_cache
          cache_keyframe_ptr := cache_keyframe_ptr
          csdData := fun _ => none
          out := Output.closed
          ctx := Mp4.mp4MuxerOpen raw_time words keyframes })

/-- in the order of the source -/
def mp4MuxerClose (c : Context) : Prog (Ret × Option Context) := do
  touch c.block
  touch c.priv_data
  freePtr c.title_info
  free c.mov_inf_cache
  freePtr (c.csdData .video)
  free (c.streams .video)
  freePtr (c.csdData .audio)
  free (c.streams .audio)
  freePtr c.cache_keyframe_ptr
  c.out.close
  free c.priv_data
  free c.block
  pure (.code 0, none)

def mp4MuxerWriteCSD (c : Context) (csdData : Block) (idx : CodecType) :
    Prog (Ret × Option Context) := do
  touch c.block
  touch c.priv_data
  let csd ← copyCsd grants c.csdData csdData.val.length idx
  pure (.code 0, some { c with csdData := csd, ctx := Mp4.mp4MuxerWriteCSD c.ctx csdData idx })

/-- `mov_write_header` -/
def header (c : Context) : Prog (Ret × Option Context) := do
  touch (c.streams .video)
  touch (c.streams .audio)
  match movWriteHeader c.ctx with
  | none => throw .stuck
  | some r => do
    cacheCalls c.out.mpCacheWriter r.1.length
    pure (.code 0, some { c with ctx := r.2 })

/-- the cache writer that the header makes for a stream -/
def createWriter (o : Output) (s : StreamHandle) : Prog Output :=
  if o.mFsCacheMode = cachemodeThread then pure o
  else if o.mFsCacheMode = Handles.cachemodeSimple then o.openCache grants s
  else pure o

def mp4MuxerWriteHeader (c : Context) : Prog (Ret × Option Context) := do
  touch c.block
  touch c.priv_data
  if c.out.mpCacheWriter.isSome then pure (.code (-1), some c)
  else match c.out.mpStream with
    | none => header c
    | some s => do
      let out ← createWriter grants c.out s
      if out.mpCacheWriter.isNone then pure (.code (-1), some { c with out := out })
      else header { c with out := out }

/-- a key frame of H.264 video goes into the table behind `cache_keyframe_ptr` -/
def keyFrameStored (ctx : AVFormatContext) (m : Mem) (pkt : AVPacket) : Bool :=
  pkt.stream_idx = 0 ∧ (ctx.streams .video).codec_id = codecIdH264 ∧ strmByte m pkt &&& 0x1f = 5

/-- the calls on the cache writer that `mov_write_packet` makes -/
def mp4MuxerWritePacket (c : Context) (m : Mem) (pkt : AVPacket) : Prog (Ret × Option Context) := do
  touch c.block
  touch c.priv_data
  if c.out.mpCacheWriter.isNone then pure (.code (-1), some c)
  else match movWritePacket c.ctx m pkt with
    | none => throw .stuck
    | some r => do
      touch c.mov_inf_cache
      touch (c.streams .video)
      if keyFrameStored c.ctx m pkt then do
        deref c.cache_keyframe_ptr
        cacheCalls c.out.mpCacheWriter (writeOps r.2.1).length
        pure (.code r.1, some { c with ctx := r.2.2 })
      else do
        cacheCalls c.out.mpCacheWriter (writeOps r.2.1).length
        pure (.code r.1, some { c with ctx := r.2.2 })

/-- the handler box of a written track has the title -/
def titleUse (c : Context) : Prog Unit :=
  if (writtenTracks c.ctx.priv_data).isEmpty then pure () else deref c.title_info

/-- the buffer of `ff_avc_parse_nal_units`, which its callers free; there is a unit that is copied
into it -/
def parseBuffer : Prog Unit := do
  let buf ← malloc grants
  match buf with
  | none => throw .null
  | some a => do
    touch a
    free a

/-- the CSD of the track is split into its units, where there is an `avcC` box -/
def MOVTrack.split (track : MOVTrack) : Bool :=
  track.enc.codec_type = .video ∧ track.tag = mkTag 'a' 'v' 'c' '1' ∧ 6 < track.csdData.val.length ∧
    hasStartCode track.csdData.val

/-- how often the trailer splits a CSD: for the size of `moov`, for that of each of the seven boxes
from `trak` down to `avcC`, and for the record itself -/
def trailerSplits (mov : MOVContext) : Nat :=
  9 * (writtenTracks mov).countP fun i => MOVTrack.split (mov.tracks i)

def parseBuffers : Nat → Prog Unit
  | 0 => pure ()
  | n + 1 => do
    parseBuffer grants
    parseBuffers n

/-- `mov_write_trailer`; without a writer nothing is counted, and the box follows a null pointer -/
def mp4MuxerWriteTrailer (c : Context) : Prog (Ret × Option Context) := do
  touch c.block
  touch c.priv_data
  if c.out.mpCacheWriter.isNone then throw .null
  else match movWriteTrailer env c.ctx with
    | none => throw .stuck
    | some r => do
      touch c.mov_inf_cache
      touch (c.streams .video)
      touch (c.streams .audio)
      touchPtr (c.csdData .video)
      touchPtr (c.csdData .audio)
      parseBuffers grants (trailerSplits c.ctx.priv_data)
      touchPtr c.cache_keyframe_ptr
      titleUse c
      cacheCalls c.out.mpCacheWriter r.1.length
      pure (.size, some { c with ctx := r.2 })

def mp4MuxerIOCtrl (c : Context) (cmd : MuxerIoctl) : Prog (Ret × Option Context) := do
  touch c.block
  touch c.priv_data
  match cmd with
  | .setTrackInfo none => pure (.code (-1), some c)
  | .setTrackInfo (some info) => do
    touch (c.streams .video)
    touch (c.streams .audio)
    pure (.code (setTrackInfo c.ctx info).1, some { c with ctx := (setTrackInfo c.ctx info).2 })
  | .setTotalTime param => pure (.code 0, some { c with ctx := setTotalTime c.ctx param })
  | .setFallocateLen param =>
    pure (.code 0, some { c with out := { c.out with mFallocateLen := param } })
  | .setTfcardState _ => pure (.code 0, some c)
  | .setCacheMode param =>
    pure (.code 0, some { c with out := { c.out with mFsCacheMode := param } })
  | .setCacheSize param =>
    pure (.code 0, some { c with out := { c.out with mCacheSimpleSize := param } })
  | .setStreamCallback => do
    c.out.setCallback
    pure (.code 0, some c)
  | .setStreamFd => do
    let r ← c.out.setStream grants .fd
    pure (.code r.1, some { c with out := r.2 })
  | .setStreamFilepath => do
    let r ← c.out.setStream grants .filepath
    pure (.code r.1, some { c with out := r.2 })
  | .unknown _ => pure (.code 0, some c)

def Context.call (c : Context) : MuxerCall → Prog (Ret × Option Context)
  | .muxerOpen => mp4MuxerOpen raw_time words keyframes grants (some c)
  | .muxerClose => mp4MuxerClose c
  | .muxerIOCtrl cmd => mp4MuxerIOCtrl grants c cmd
  | .muxerWriteCSD csdData idx => mp4MuxerWriteCSD grants c csdData idx
  | .muxerWriteHeader => mp4MuxerWriteHeader grants c
  | .muxerWritePacket m pkt => mp4MuxerWritePacket c m pkt
  | .muxerWriteTrailer => mp4MuxerWriteTrailer env grants c

/-- every other call reads through the null pointer of a muxer that is not open -/
def callClosed : MuxerCall → Prog (Ret × Option Context)
  | .muxerOpen => mp4MuxerOpen raw_time words keyframes grants none
  | _ => throw .null

def call (h : Option Context) (a : MuxerCall) : Prog (Ret × Option Context) :=
  h.elim (callClosed raw_time words keyframes grants a) fun c =>
    c.call env raw_time words keyframes grants a

end

/-! ## what a call leaves -/

/-- what cannot be reached any more when a call on the context has succeeded -/
def Context.dropped (c : Context) : MuxerCall → Multiset Nat
  | .muxerOpen => c.owned
  | .muxerClose => c.out.stray
  | .muxerIOCtrl .setStreamFd => c.out.replaced
  | .muxerIOCtrl .setStreamFilepath => c.out.replaced
  | .muxerWriteCSD _ idx => ptr (c.csdData idx)
  | _ => 0

/-- what a call that has returned leaves without an owner -/
def dropped (h : Option Context) (a : MuxerCall) (ret : Ret) : Multiset Nat :=
  match a, ret with
  | .muxerOpen, .refused locals => locals
  | a, _ => h.elim 0 fun c => c.dropped a

section
variable (env : Env) (raw_time : Int) (words keyframes : Nat → UInt32) (grants : Nat → Bool)
  (c : Context)

/-- a call that only works on the output -/
theorem triple_output {β : Type} {f : Prog β} {Q : β → Multiset Nat} (hf : Triple c.out.owned f Q) :
    Triple c.owned f fun b => c.blocks + csdOwned c.csdData + Q b :=
  ((hf.frame (c.blocks + csdOwned c.csdData)).pre (add_comm _ _)).post fun _ => add_comm _ _

/-- every block of `Mp4MuxerOpen` that is always there -/
theorem block_mem {a : Nat} (ha : a ∈ c.blocks) : a ∈ c.owned :=
  Multiset.mem_add.mpr (.inl (Multiset.mem_add.mpr (.inl ha)))

/-- each call uses the context and `priv_data` first -/
theorem triple_context {β : Type} {f : Prog β} {Q : β → Multiset Nat} (hf : Triple c.owned f Q) :
    Triple c.owned (touch c.block >>= fun _ => touch c.priv_data >>= fun _ => f) Q :=
  triple_touch_then (block_mem c (by simp [Context.blocks]))
    (triple_touch_then (block_mem c (by simp [Context.blocks])) hf)

theorem csd_mem (t : CodecType) : ∀ a ∈ c.csdData t, a ∈ c.owned := by
  intro a ha
  cases t with
  | video => simp [Context.owned, csdOwned, Option.mem_def.mp ha]
  | audio => simp [Context.owned, csdOwned, Option.mem_def.mp ha]

theorem triple_mallocZeroed : Triple 0 (mallocZeroed grants) fun a => {a} := by
  unfold mallocZeroed
  refine triple_malloc_then (triple_throw (by decide)) fun a => ?_
  rw [add_zero]
  exact triple_touch_then (Multiset.mem_singleton_self a) (triple_pure rfl)

theorem triple_open (h : Option Context) :
    Triple (owned h) (mp4MuxerOpen raw_time words keyframes grants h) fun r =>
      owned r.2 + dropped h .muxerOpen r.1 := by
  unfold mp4MuxerOpen
  refine triple_malloc_then (triple_pure (add_zero _).symm) fun block => ?_
  refine triple_malloc_then (triple_pure (add_comm _ _)) fun priv_data => ?_
  refine triple_step _ (triple_mallocZeroed grants) (zero_add _).symm fun video => ?_
  refine triple_step _ (triple_mallocZeroed grants) (zero_add _).symm fun audio => ?_
  refine triple_step _ (triple_malloc grants) (zero_add _).symm fun title_info => ?_
  refine triple_malloc_then (triple_pure ?_) fun mov_inf_cache => ?_
  · show ptr title_info + ({audio} + ({video} + ({priv_data} + ({block} + owned h))))
      = owned h + (([block, priv_data, video, audio] ++ title_info.toList : List Nat) :
        Multiset Nat)
    have htitle : ((title_info.toList : List Nat) : Multiset Nat) = ptr title_info := by
      cases title_info with
      | none => rfl
      | some a => rfl
    have hfour : (([block, priv_data, video, audio] : List Nat) : Multiset Nat)
        = {block} + ({priv_data} + ({video} + {audio})) := rfl
    rw [← Multiset.coe_add, htitle, hfour]
    abel
  · refine triple_step _ (triple_malloc grants) (zero_add _).symm fun cache_keyframe_ptr =>
      triple_pure ?_
    show ptr cache_keyframe_ptr
      + ({mov_inf_cache} + (ptr title_info + ({audio} + ({video} + ({priv_data}
        + ({block} + owned h))))))
      = {block} + {priv_data} + {video} + {audio} + ptr title_info + {mov_inf_cache}
        + ptr cache_keyframe_ptr + 0
        + (0 + 0 + 0) + owned h
    abel

theorem triple_muxerClose : Triple c.owned (mp4MuxerClose c) fun r => owned r.2 + c.out.stray := by
  have howned : c.owned = ptr c.title_info
      + ({c.mov_inf_cache} + (ptr (c.csdData .video) + ({c.streams .video}
      + (ptr (c.csdData .audio) + ({c.streams .audio} + (ptr c.cache_keyframe_ptr + (c.out.owned
      + ({c.priv_data} + {c.block})))))))) := by
    unfold Context.owned Context.blocks csdOwned
    abel
  unfold mp4MuxerClose
  refine triple_context c ?_
  rw [howned]
  refine triple_freePtr_then
    (triple_free_then (triple_freePtr_then (triple_free_then (triple_freePtr_then ?_))))
  refine triple_free_then (triple_freePtr_then ?_)
  refine triple_step _ (triple_close c.out) rfl fun _ => ?_
  have hrest : c.out.stray + ({c.priv_data} + {c.block})
      = {c.priv_data} + ({c.block} + c.out.stray) := by abel
  rw [hrest]
  exact triple_free_then (triple_free_then (triple_pure (zero_add _).symm))

theorem triple_writeCSD (csdData : Block) (idx : CodecType) :
    Triple c.owned (mp4MuxerWriteCSD grants c csdData idx) fun r =>
      owned r.2 + ptr (c.csdData idx) := by
  unfold mp4MuxerWriteCSD
  refine triple_context c ?_
  refine triple_step (c.blocks + c.out.owned)
    (triple_copyCsd grants c.csdData csdData.val.length idx) ?_ fun csd => ?_
  · unfold Context.owned
    abel
  · refine triple_pure ?_
    show csdOwned csd + ptr (c.csdData idx) + (c.blocks + c.out.owned)
      = c.blocks + csdOwned csd + c.out.owned + ptr (c.csdData idx)
    abel

theorem triple_header : Triple c.owned (header c) fun r => owned r.2 := by
  unfold header
  refine triple_touch_then (block_mem c (by simp [Context.blocks])) ?_
  refine triple_touch_then (block_mem c (by simp [Context.blocks])) ?_
  cases movWriteHeader c.ctx with
  | none => exact triple_throw (by decide)
  | some r => exact (triple_output c (triple_writes c.out r.1.length)).bind fun _ => triple_pure rfl

theorem triple_createWriter {o : Output} {s : StreamHandle} (hs : o.mpStream = some s)
    (hw : o.mpCacheWriter = none) :
    Triple o.owned (createWriter grants o s) Output.owned := by
  unfold createWriter
  split
  · exact triple_pure rfl
  split
  · exact triple_openCache grants hs hw
  · exact triple_pure rfl

theorem triple_writeHeader : Triple c.owned (mp4MuxerWriteHeader grants c) fun r => owned r.2 := by
  unfold mp4MuxerWriteHeader
  refine triple_context c ?_
  cases hw : c.out.mpCacheWriter with
  | some w => exact triple_pure rfl
  | none =>
    cases hs : c.out.mpStream with
    | none => exact triple_header c
    | some s =>
      refine (triple_output c (triple_createWriter grants hs hw)).bind fun out => ?_
      split
      · exact triple_pure rfl
      · exact triple_header { c with out := out }

theorem triple_writePacket (m : Mem) (pkt : AVPacket) :
    Triple c.owned (mp4MuxerWritePacket c m pkt) fun r => owned r.2 := by
  unfold mp4MuxerWritePacket
  refine triple_context c ?_
  split
  · exact triple_pure rfl
  cases movWritePacket c.ctx m pkt with
  | none => exact triple_throw (by decide)
  | some r =>
    have hwrites : ∀ n, Triple c.owned (cacheCalls c.out.mpCacheWriter n >>= fun _ =>
        (pure (.code r.1, some { c with ctx := r.2.2 }) : Prog (Ret × Option Context))) fun r =>
          owned r.2 :=
      fun n => (triple_output c (triple_writes c.out n)).bind fun _ => triple_pure rfl
    refine triple_touch_then (block_mem c (by simp [Context.blocks])) ?_
    refine triple_touch_then (block_mem c (by simp [Context.blocks])) ?_
    split
    · refine triple_deref_then (fun a ha => block_mem c ?_) (hwrites _)
      simp [Context.blocks, Option.mem_def.mp ha]
    · exact hwrites _

theorem triple_titleUse {β : Type} {f : Prog β} {Q : β → Multiset Nat} (hf : Triple c.owned f Q) :
    Triple c.owned (titleUse c >>= fun _ => f) Q := by
  unfold titleUse
  split
  · exact hf
  · refine triple_deref_then (fun a ha => block_mem c ?_) hf
    simp [Context.blocks, Option.mem_def.mp ha]

theorem triple_parseBuffer : Triple 0 (parseBuffer grants) fun _ => 0 := by
  unfold parseBuffer
  refine triple_malloc_then (triple_throw (by decide)) fun a => ?_
  refine triple_touch_then (Multiset.mem_add.mpr (.inl (Multiset.mem_singleton_self a))) ?_
  exact (triple_free a).frame 0

/-- every buffer is freed before the next one is asked for -/
theorem triple_parseBuffers (n : Nat) : Triple 0 (parseBuffers grants n) fun _ => 0 := by
  induction n with
  | zero => exact triple_pure rfl
  | succ n ih => exact (triple_parseBuffer grants).bind fun _ => ih

theorem triple_writeTrailer :
    Triple c.owned (mp4MuxerWriteTrailer env grants c) fun r => owned r.2 := by
  unfold mp4MuxerWriteTrailer
  refine triple_context c ?_
  split
  · exact triple_throw (by decide)
  cases movWriteTrailer env c.ctx with
  | none => exact triple_throw (by decide)
  | some r =>
    refine triple_touch_then (block_mem c (by simp [Context.blocks])) ?_
    refine triple_touch_then (block_mem c (by simp [Context.blocks])) ?_
    refine triple_touch_then (block_mem c (by simp [Context.blocks])) ?_
    refine triple_touchPtr_then (csd_mem c .video) (triple_touchPtr_then (csd_mem c .audio) ?_)
    refine triple_step c.owned (triple_parseBuffers grants _) (zero_add _).symm fun _ => ?_
    rw [zero_add]
    refine triple_touchPtr_then (fun a ha => block_mem c ?_) (triple_titleUse c ?_)
    · simp [Context.blocks, Option.mem_def.mp ha]
    · exact (triple_output c (triple_writes c.out r.1.length)).bind fun _ => triple_pure rfl

/-- the stream that was replaced -/
theorem triple_newStream (source_type : MediaSourceType) :
    Triple c.owned (c.out.setStream grants source_type >>= fun r =>
      pure (.code r.1, some { c with out := r.2 }))
      fun r : Ret × Option Context => owned r.2 + c.out.replaced := by
  refine (triple_output c (triple_setStream grants c.out source_type)).bind fun r => triple_pure ?_
  exact (add_assoc _ _ _).symm

theorem triple_ioctrl (cmd : MuxerIoctl) :
    Triple c.owned (mp4MuxerIOCtrl grants c cmd) fun r =>
      owned r.2 + c.dropped (.muxerIOCtrl cmd) := by
  unfold mp4MuxerIOCtrl
  refine triple_context c ?_
  cases cmd with
  | setTrackInfo data =>
    cases data with
    | none => exact triple_pure (add_zero _).symm
    | some info =>
      refine triple_touch_then (block_mem c (by simp [Context.blocks])) ?_
      exact triple_touch_then (block_mem c (by simp [Context.blocks]))
        (triple_pure (add_zero _).symm)
  | setTotalTime param => exact triple_pure (add_zero _).symm
  | setFallocateLen param => exact triple_pure (add_zero _).symm
  | setTfcardState param => exact triple_pure (add_zero _).symm
  | setCacheMode param => exact triple_pure (add_zero _).symm
  | setCacheSize param => exact triple_pure (add_zero _).symm
  | setStreamCallback =>
    exact (triple_output c (triple_setCallback c.out)).bind fun _ => triple_pure (add_zero _).symm
  | setStreamFd => exact triple_newStream grants c .fd
  | setStreamFilepath => exact triple_newStream grants c .filepath
  | unknown cmd => exact triple_pure (add_zero _).symm

/-- **A call of the driver**, open or not: it uses no block that was freed, and leaves what the
context owns and what the call drops. -/
theorem triple_call (h : Option Context) (a : MuxerCall) :
    Triple (owned h) (call env raw_time words keyframes grants h a) fun r =>
      owned r.2 + dropped h a r.1 := by
  cases h with
  | none =>
    cases a with
    | muxerOpen => exact triple_open raw_time words keyframes grants none
    | _ => exact triple_throw (by decide)
  | some c =>
    cases a with
    | muxerOpen => exact triple_open raw_time words keyframes grants (some c)
    | muxerClose => exact triple_muxerClose c
    | muxerIOCtrl cmd => exact triple_ioctrl grants c cmd
    | muxerWriteCSD csdData idx => exact triple_writeCSD grants c csdData idx
    | muxerWriteHeader => exact (triple_writeHeader grants c).post fun _ => (add_zero _).symm
    | muxerWritePacket m pkt => exact (triple_writePacket c m pkt).post fun _ => (add_zero _).symm
    | muxerWriteTrailer => exact (triple_writeTrailer env grants c).post fun _ => (add_zero _).symm

end

/-! ## the driver without its blocks -/

def Context.driver (c : Context) : Driver where
  handle := {
    ctx := c.ctx
    mpStream := c.out.mpStream.isSome
    mFsCacheMode := c.out.mFsCacheMode
    mCacheSimpleSize := c.out.mCacheSimpleSize }
  mpCacheWriter := c.out.mpCacheWriter.isSome

/-- `granted`: a stream or a writer that is asked for is created -/
def ioctrlOf (granted : Bool) : MuxerIoctl → IOCtrl
  | .setTrackInfo data => .setTrackInfo data
  | .setTotalTime param => .setTotalTime param
  | .setFallocateLen param => .setFallocateLen param
  | .setTfcardState param => .setTfcardState param
  | .setCacheMode param => .setCacheMode param
  | .setCacheSize param => .setCacheSize param
  | .setStreamCallback => .setStreamCallback
  | .setStreamFd => .setStreamFd granted
  | .setStreamFilepath => .setStreamFilepath granted
  | .unknown cmd => .unknown cmd

/-- the calls behind `Mp4MuxerOpen`; `filesize`: where the file of a trailer ends -/
def driverCall (env : Env) (granted : Bool) (filesize : Int) : MuxerCall → Option DriverCall
  | .muxerIOCtrl cmd => some (.ioctrl (ioctrlOf granted cmd))
  | .muxerWriteCSD csdData idx => some (.writeCSD csdData idx)
  | .muxerWriteHeader => some (.writeHeader granted)
  | .muxerWritePacket m pkt => some (.writePacket m pkt)
  | .muxerWriteTrailer => some (.writeTrailer env filesize)
  | .muxerOpen => none
  | .muxerClose => none

/-- a number is returned as it is, and the size of a file as where it ends -/
def Returned (filesize n : Int) : Ret → Prop
  | .code k => k = n
  | .size => n = filesize
  | .refused _ => False

/-- the call returns what the driver returns, and leaves the driver in the same state -/
def Agrees (env : Env) (c : Context) (a : MuxerCall) (r : Ret × Option Context) : Prop :=
  ∃ granted filesize dc n ops c', driverCall env granted filesize a = some dc ∧
    c.driver.call dc = some (n, ops, c'.driver) ∧ Returned filesize n r.1 ∧ r.2 = some c'

section
variable (env : Env) (grants : Nat → Bool) (c : Context)

theorem returns_setStream (o : Output) (source_type : MediaSourceType) :
    Returns (o.setStream grants source_type) fun r =>
      ∃ stream, r = (if stream.isSome then 0 else -1, { o with mpStream := stream }) := by
  unfold Output.setStream
  refine returns_then fun stream => ?_
  cases stream with
  | none => exact returns_pure ⟨none, rfl⟩
  | some s =>
    dsimp only
    split
    · exact returns_then fun _ => returns_then fun _ => returns_pure ⟨some s, rfl⟩
    · exact returns_pure ⟨some s, rfl⟩

theorem returns_writeCSD (csdData : Block) (idx : CodecType) :
    Returns (mp4MuxerWriteCSD grants c csdData idx)
      (Agrees env c (.muxerWriteCSD csdData idx)) := by
  unfold mp4MuxerWriteCSD
  refine returns_then fun _ => returns_then fun _ => returns_then fun csd => returns_pure ?_
  exact ⟨true, 0, _, 0, [], _, rfl, rfl, rfl, rfl⟩

theorem returns_header :
    Returns (header c) fun r => ∃ written, movWriteHeader c.ctx = some written ∧
    r = (.code 0, some { c with ctx := written.2 }) := by
  unfold header
  refine returns_then fun _ => returns_then fun _ => ?_
  cases movWriteHeader c.ctx with
  | none => exact returns_throw _
  | some r => exact returns_then fun _ => returns_pure ⟨r, rfl, rfl⟩

/-- the header writes something, which a muxer without a writer cannot do -/
theorem returns_header_none (hw : c.out.mpCacheWriter = none) {p : Ret × Option Context → Prop} :
    Returns (header c) p := by
  unfold header
  refine returns_then fun _ => returns_then fun _ => ?_
  rw [hw]
  cases hheader : movWriteHeader c.ctx with
  | none => exact returns_throw _
  | some r =>
    obtain ⟨op, ops, hops⟩ : ∃ op ops, r.1 = op :: ops := by
      unfold movWriteHeader at hheader
      split at hheader
      · cases hheader
        exact ⟨_, _, rfl⟩
      · cases hheader
    dsimp only
    rw [hops]
    exact Returns.bind (p := fun _ => False)
      (Returns.bind (p := fun _ => False) (returns_throw _) fun _ => False.elim)
      fun _ => False.elim

/-- a writer is created for a size above zero only -/
theorem returns_createCache (pStream : StreamHandle) (cache_size : Int) :
    Returns (Handles.createCacheSimple grants pStream cache_size) fun w => w.isSome = true →
      0 < cache_size := by
  unfold Handles.createCacheSimple
  split
  · exact returns_pure fun h => absurd h Bool.false_ne_true
  · rename_i hsize
    exact fun _ _ _ _ _ => not_le.mp hsize

theorem returns_createWriter (o : Output) (s : StreamHandle) (hw : o.mpCacheWriter = none) :
    Returns (createWriter grants o s) fun out => ∃ w, out = { o with mpCacheWriter := w } ∧
      (w.isSome = true → o.mFsCacheMode = Handles.cachemodeSimple ∧ 0 < o.mCacheSimpleSize) := by
  unfold createWriter
  split
  · exact returns_pure ⟨none, by rw [← hw], fun h => absurd h (by decide)⟩
  split
  · rename_i hthread hmode
    unfold Output.openCache cacheHandleCreate
    rw [if_neg hthread, if_pos hmode]
    refine (returns_createCache grants s o.mCacheSimpleSize).bind fun w hsize =>
      returns_pure ⟨_, rfl, fun h => ⟨hmode, ?_⟩⟩
    rw [Option.isSome_map] at h
    exact hsize h
  · exact returns_pure ⟨none, by rw [← hw], fun h => absurd h (by decide)⟩

/-- the header of a driver with a stream and no writer -/
theorem writeHeader_refused {d : Driver} {granted : Bool} (hw : d.mpCacheWriter = false)
    (hs : d.handle.mpStream = true) (h : ¬ d.handle.CacheWriter granted) :
    Mp4.mp4MuxerWriteHeader d granted = some (-1, [], d) := by
  unfold Mp4.mp4MuxerWriteHeader
  rw [hw, hs, if_neg h]
  rfl

theorem writeHeader_granted {d : Driver} {granted : Bool} (hw : d.mpCacheWriter = false)
    (h : d.handle.CacheWriter granted) {r : List CacheOp × AVFormatContext}
    (hr : movWriteHeader d.handle.ctx = some r) :
    Mp4.mp4MuxerWriteHeader d granted
      = some (0, r.1, { handle := { d.handle with ctx := r.2 }, mpCacheWriter := true }) := by
  unfold Mp4.mp4MuxerWriteHeader
  rw [hw, h.1, if_pos h, hr]
  rfl

theorem returns_writeHeader :
    Returns (mp4MuxerWriteHeader grants c) (Agrees env c .muxerWriteHeader) := by
  unfold mp4MuxerWriteHeader
  refine returns_then fun _ => returns_then fun _ => ?_
  cases hw : c.out.mpCacheWriter with
  | some w =>
    refine returns_pure ⟨true, 0, _, -1, [], c, rfl, ?_, rfl, rfl⟩
    show Mp4.mp4MuxerWriteHeader c.driver true = _
    unfold Mp4.mp4MuxerWriteHeader Context.driver
    rw [hw]
    rfl
  | none =>
    cases hs : c.out.mpStream with
    | none => exact returns_header_none c hw
    | some s =>
      refine (returns_createWriter grants c.out s hw).bind ?_
      rintro out ⟨w, rfl, hsize⟩
      have hwriter : c.driver.mpCacheWriter = false := by
        unfold Context.driver
        rw [hw]
        rfl
      have hstream : c.driver.handle.mpStream = true := by
        unfold Context.driver
        rw [hs]
        rfl
      cases w with
      | none =>
        refine returns_pure ⟨false, 0, _, -1, [], _, rfl, ?_, rfl, rfl⟩
        have hsame : ({ c with out := { c.out with mpCacheWriter := none } } : Context).driver
            = c.driver := by
          unfold Context.driver
          rw [hw]
        rw [hsame]
        exact writeHeader_refused hwriter hstream fun h => absurd h.2.2.2 (by decide)
      | some w =>
        obtain ⟨hmode, hpos⟩ := hsize rfl
        refine (returns_header { c with out := { c.out with mpCacheWriter := some w } }).imp ?_
        rintro r ⟨written, hwritten, rfl⟩
        refine ⟨true, 0, _, 0, written.1, _, rfl, ?_, rfl, rfl⟩
        have hgranted := writeHeader_granted hwriter ⟨hstream, hmode, hpos, rfl⟩ hwritten
        rw [show c.driver.call (.writeHeader true) = Mp4.mp4MuxerWriteHeader c.driver true from rfl,
          hgranted]
        rfl

theorem returns_writePacket (m : Mem) (pkt : AVPacket) :
    Returns (mp4MuxerWritePacket c m pkt) (Agrees env c (.muxerWritePacket m pkt)) := by
  unfold mp4MuxerWritePacket
  refine returns_then fun _ => returns_then fun _ => ?_
  cases hw : c.out.mpCacheWriter with
  | none =>
    refine returns_pure ⟨true, 0, _, -1, [], c, rfl, ?_, rfl, rfl⟩
    show Mp4.mp4MuxerWritePacket c.driver m pkt = _
    unfold Mp4.mp4MuxerWritePacket Context.driver
    rw [hw]
    rfl
  | some w =>
    cases hpacket : movWritePacket c.ctx m pkt with
    | none => exact returns_throw _
    | some r =>
      have hcall : c.driver.call (.writePacket m pkt)
          = some (r.1, writeOps r.2.1, ({ c with ctx := r.2.2 } : Context).driver) := by
        show Mp4.mp4MuxerWritePacket c.driver m pkt = _
        unfold Mp4.mp4MuxerWritePacket Context.driver
        rw [hw, hpacket]
        rfl
      have hagrees : Agrees env c (.muxerWritePacket m pkt)
          (.code r.1, some { c with ctx := r.2.2 }) :=
        ⟨true, 0, _, _, _, _, rfl, hcall, rfl, rfl⟩
      refine returns_then fun _ => returns_then fun _ => ?_
      split
      · exact returns_then fun _ => returns_then fun _ => returns_pure hagrees
      · exact returns_then fun _ => returns_pure hagrees

theorem returns_writeTrailer :
    Returns (mp4MuxerWriteTrailer env grants c) (Agrees env c .muxerWriteTrailer) := by
  unfold mp4MuxerWriteTrailer
  refine returns_then fun _ => returns_then fun _ => ?_
  cases hw : c.out.mpCacheWriter with
  | none => exact returns_throw _
  | some w =>
    cases htrailer : movWriteTrailer env c.ctx with
    | none => exact returns_throw _
    | some r =>
      have hcall : c.driver.call (.writeTrailer env 0)
          = some (0, r.1, ({ c with ctx := r.2 } : Context).driver) := by
        show Mp4.mp4MuxerWriteTrailer c.driver env 0 = _
        unfold Mp4.mp4MuxerWriteTrailer Context.driver
        rw [hw, htrailer]
        rfl
      refine returns_then fun _ => returns_then fun _ => returns_then fun _ => ?_
      refine returns_then fun _ => returns_then fun _ => returns_then fun _ => returns_then fun _ =>
        ?_
      refine returns_then fun _ => returns_then fun _ => returns_pure ?_
      exact ⟨true, 0, _, _, _, _, rfl, hcall, rfl, rfl⟩

/-- a stream is created if the caller says so -/
theorem agrees_stream (stream : Option StreamHandle) {cmd : MuxerIoctl}
    (hcmd : cmd = .setStreamFd ∨ cmd = .setStreamFilepath) :
    Agrees env c (.muxerIOCtrl cmd) (.code (if stream.isSome then 0 else -1),
      some { c with out := { c.out with mpStream := stream } }) := by
  refine ⟨stream.isSome, 0, _, _, [], _, rfl, ?_, rfl, rfl⟩
  rcases hcmd with rfl | rfl <;> rfl

theorem returns_ioctrl (cmd : MuxerIoctl) :
    Returns (mp4MuxerIOCtrl grants c cmd) (Agrees env c (.muxerIOCtrl cmd)) := by
  unfold mp4MuxerIOCtrl
  refine returns_then fun _ => returns_then fun _ => ?_
  cases cmd with
  | setTrackInfo data =>
    cases data with
    | none => exact returns_pure ⟨true, 0, _, _, [], _, rfl, rfl, rfl, rfl⟩
    | some info =>
      exact returns_then fun _ => returns_then fun _ =>
        returns_pure ⟨true, 0, _, _, [], _, rfl, rfl, rfl, rfl⟩
  | setTotalTime param => exact returns_pure ⟨true, 0, _, _, [], _, rfl, rfl, rfl, rfl⟩
  | setFallocateLen param =>
    exact returns_pure ⟨true, 0, _, _, [], { c with out := { c.out with mFallocateLen := param } },
      rfl, rfl, rfl, rfl⟩
  | setTfcardState param => exact returns_pure ⟨true, 0, _, _, [], _, rfl, rfl, rfl, rfl⟩
  | setCacheMode param => exact returns_pure ⟨true, 0, _, _, [], _, rfl, rfl, rfl, rfl⟩
  | setCacheSize param => exact returns_pure ⟨true, 0, _, _, [], _, rfl, rfl, rfl, rfl⟩
  | setStreamCallback =>
    exact returns_then fun _ => returns_pure ⟨true, 0, _, _, [], _, rfl, rfl, rfl, rfl⟩
  | setStreamFd =>
    refine (returns_setStream grants c.out .fd).bind ?_
    rintro r ⟨stream, rfl⟩
    exact returns_pure (agrees_stream env c stream (.inl rfl))
  | setStreamFilepath =>
    refine (returns_setStream grants c.out .filepath).bind ?_
    rintro r ⟨stream, rfl⟩
    exact returns_pure (agrees_stream env c stream (.inr rfl))
  | unknown cmd => exact returns_pure ⟨true, 0, _, _, [], _, rfl, rfl, rfl, rfl⟩

end

section
variable (env : Env) (raw_time : Int) (words keyframes : Nat → UInt32) (grants : Nat → Bool)

theorem call_agrees (c : Context) {a : MuxerCall} (ha : (driverCall env true 0 a).isSome = true) :
    Returns (call env raw_time words keyframes grants (some c) a) (Agrees env c a) := by
  cases a with
  | muxerIOCtrl cmd => exact returns_ioctrl env grants c cmd
  | muxerWriteCSD csdData idx => exact returns_writeCSD env grants c csdData idx
  | muxerWriteHeader => exact returns_writeHeader env grants c
  | muxerWritePacket m pkt => exact returns_writePacket env c m pkt
  | muxerWriteTrailer => exact returns_writeTrailer env grants c
  | _ => exact absurd ha Bool.false_ne_true

/-- the driver's step `e` is the call that was done: the same call, for an answer to its request,
and the same result -/
def Answers (env : Env) (e : Steps.Event Driver DriverCall)
    (d : Done (Option Context) MuxerCall Ret) : Prop :=
  ∃ granted filesize n ops, driverCall env granted filesize d.action = some e.action ∧
    e.before.call e.action = some (n, ops, e.after) ∧ Returned filesize n d.result

theorem calls_agree (as : List MuxerCall) (has : ∀ a ∈ as, (driverCall env true 0 a).isSome = true)
    {s₀ : Driver} {es₀ : List (Steps.Event Driver DriverCall)} {c : Context}
    (hrun : Steps.Run Driver.step s₀ es₀ c.driver) :
    Returns (calls (call env raw_time words keyframes grants) (some c) as) fun r =>
      ∃ es c', r.2 = some c' ∧ Steps.Run Driver.step s₀ (es₀ ++ es) c'.driver ∧
        List.Forall₂ (Answers env) es r.1 ∧
        r.1.map (fun d => d.action) = as := by
  induction as generalizing es₀ c with
  | nil => exact returns_pure ⟨[], c, rfl, by rw [List.append_nil]; exact hrun, .nil, rfl⟩
  | cons a as ih =>
    refine (call_agrees env raw_time words keyframes grants c (has a List.mem_cons_self)).bind ?_
    rintro ⟨ret, _⟩ ⟨granted, filesize, dc, n, ops, c', hdc, hcall, hret, rfl⟩
    have hstep : Driver.step c.driver dc = some c'.driver := by
      unfold Driver.step
      rw [hcall]
      rfl
    refine (ih (fun b hb => has b (List.mem_cons_of_mem a hb)) (hrun.next hstep)).bind ?_
    rintro ⟨done, h⟩ ⟨es, c₁, rfl, hes, hanswers, has'⟩
    refine returns_pure ⟨⟨c.driver, dc, c'.driver⟩ :: es, c₁, rfl, ?_, ?_, ?_⟩
    · rw [← List.singleton_append, ← List.append_assoc]
      exact hes
    · exact .cons ⟨granted, filesize, n, ops, hdc, hcall, hret⟩ hanswers
    · exact congrArg (List.cons a) has'

theorem open_driver : Returns (mp4MuxerOpen raw_time words keyframes grants none) fun r =>
    ∀ c, r.2 = some c → c.driver = opened raw_time words keyframes := by
  have hnone : ∀ (ret : Ret) (c : Context), (ret, (none : Option Context)).2 = some c →
      c.driver = opened raw_time words keyframes := by
    intro ret c h
    cases h
  unfold mp4MuxerOpen
  refine returns_then fun context => ?_
  cases context with
  | none => exact returns_pure (hnone _)
  | some block =>
    refine returns_then fun mov => ?_
    cases mov with
    | none => exact returns_pure (hnone _)
    | some priv_data =>
      refine returns_then fun _ => returns_then fun _ => returns_then fun _ =>
        returns_then fun cache => ?_
      cases cache with
      | none => exact returns_pure (hnone _)
      | some mov_inf_cache =>
        refine returns_then fun _ => returns_pure fun c h => ?_
        cases h
        rfl

/-- a muxer that is not open takes none of these calls -/
theorem calls_closed (as : List MuxerCall)
    (has : ∀ a ∈ as, (driverCall env true 0 a).isSome = true) :
    Returns (calls (call env raw_time words keyframes grants) none as) fun r => r.2 = none := by
  cases as with
  | nil => exact returns_pure rfl
  | cons a as =>
    have ha := has a List.mem_cons_self
    have hnull : Returns (call env raw_time words keyframes grants none a) fun _ => False := by
      cases a with
      | muxerOpen => exact absurd ha Bool.false_ne_true
      | _ => exact returns_throw _
    exact hnull.bind fun _ => False.elim

/-- `Mp4MuxerOpen`, and calls behind it -/
def openAndCall (as : List MuxerCall) :
    Prog (List (Done (Option Context) MuxerCall Ret) × Option Context) := do
  let r ← mp4MuxerOpen raw_time words keyframes grants none
  calls (call env raw_time words keyframes grants) r.2 as

/-- **The driver over its blocks is the driver.**  Where the calls behind `Mp4MuxerOpen` come to an
end, there is a run of the driver of the same calls, for some answers to their requests: each step
has the result of the call, and the fields that are no pointers are in the state behind the run. -/
theorem open_refines (as : List MuxerCall)
    (has : ∀ a ∈ as, (driverCall env true 0 a).isSome = true) :
    Returns (openAndCall env raw_time words keyframes grants as) fun r => ∀ c, r.2 = some c →
      r.1.map (fun d => d.action) = as ∧
        ∃ es, Steps.Run Driver.step (opened raw_time words keyframes) es c.driver ∧
        List.Forall₂ (Answers env) es r.1 := by
  unfold openAndCall
  refine (open_driver raw_time words keyframes grants).bind ?_
  rintro ⟨ret, h⟩ hopen
  cases h with
  | none =>
    refine (calls_closed env raw_time words keyframes grants as has).imp fun done hdone c h => ?_
    rw [hdone] at h
    cases h
  | some c =>
    have hstart : Steps.Run Driver.step (opened raw_time words keyframes) [] c.driver := by
      rw [hopen c rfl]
      exact .start
    refine (calls_agree env raw_time words keyframes grants as has hstart).imp ?_
    rintro done ⟨es, c', hdone, hrun, hanswers, has'⟩ c₁ h
    rw [hdone] at h
    cases h
    exact ⟨has', es, hrun, hanswers⟩

end

def noEnv : Env := ⟨0, 0, 0, by decide, fun _ => 0⟩

/-- a recording with one packet, and a CSD that its trailer splits -/
def readyCalls : List MuxerCall :=
  [.muxerIOCtrl (.setTrackInfo (some ⟨640, 480, 0, .vencH264, 1, 16, 8000, 1024⟩)),
    .muxerIOCtrl .setStreamFilepath, .muxerIOCtrl (.setCacheMode 1), .muxerIOCtrl (.setCacheSize 4),
    .muxerWriteCSD ⟨[0, 0, 0, 1, 0x67, 1, 2, 3], by decide⟩ .video, .muxerWriteHeader,
    .muxerWritePacket keyMem (cutPacket 6), .muxerWriteTrailer]

theorem readyCalls_run : (openAndCall noEnv 0 (fun _ => 0) (fun _ => 0) (fun _ => true) readyCalls
    Store.empty).toOption.map (fun r => r.1.2.isSome) = some true := by
  decide +kernel

theorem open_refines_ready : ∃ done c s' es,
    openAndCall noEnv 0 (fun _ => 0) (fun _ => 0) (fun _ => true) readyCalls Store.empty
      = .ok ((done, some c), s') ∧
      done.map (fun d => d.action) = readyCalls ∧
      Steps.Run Driver.step (opened 0 (fun _ => 0) (fun _ => 0)) es c.driver ∧
      List.Forall₂ (Answers noEnv) es done := by
  have hready := readyCalls_run
  cases hrun : openAndCall noEnv 0 (fun _ => 0) (fun _ => 0)
      (fun _ => true) readyCalls Store.empty with
  | error e =>
    rw [hrun] at hready
    cases hready
  | ok r =>
    obtain ⟨⟨done, h⟩, s'⟩ := r
    rw [hrun] at hready
    obtain ⟨c, rfl⟩ := Option.isSome_iff_exists.mp (Option.some.inj hready)
    obtain ⟨has, es, hes, hanswers⟩ :=
      open_refines _ _ _ _ _ readyCalls (by decide) _ _ _ hrun c rfl
    exact ⟨done, c, s', es, rfl, has, hes, hanswers⟩

end Pluto.Mp4.Lifecycle

import Pluto.Steps.Resources
import Pluto.Mp4.Context

/-!
# The handles behind a muxer

What the streams and the cache writers of `mm_stream.c`, `mm_stream_file.c`, `mm_cache.c` and
`mm_cache_simple.c` allocate and free; a file that is opened is a block like the others.

* `streamHandleCreate`, `streamHandleDestroy`   every kind of data source;
* `cacheHandleCreate`, `cacheHandleDestroy`;
* `Output`                the stream and the cache writer of a context: the writer keeps its stream
                          when the context gets another one;
* `triple_setStream`, `triple_openCache`, `triple_close` what the context owns afterwards, and what
  nobody does;
* `copyCsd`               the copy that a context makes of the codec-specific data of a track;
* `MuxerCall`, `Ret`      the calls of a muxer and what they return.
-/

namespace Pluto.Handles
open Resources

/-! ## streams -/

inductive MediaStreamType where
  | localfile
  | network
deriving DecidableEq, Repr

inductive MediaSourceType where
  | fd
  | fp
  | filepath
  | callback
deriving DecidableEq, Repr

structure MediaDataSourceInfo where
  stream_type : MediaStreamType
  source_type : MediaSourceType
  io_direction : Int

/-- the functions that `destory` points to -/
inductive Destory where
  | fileDestoryInstreamHandle
  | destoryOutstreamHandleFile
deriving DecidableEq

/-- an `mm_stream_info_t` that was created, and what it holds -/
structure StreamHandle where
  block : Nat
  source_type : MediaSourceType
  fp : Option Nat
  fd : Option Nat
  file_path : Option Nat
  mpAlignBuf : Option Nat
  destory : Destory
  /-- an input stream closes the file of a path only -/
  closes : destory = .fileDestoryInstreamHandle → source_type ≠ .filepath → fp = none
deriving DecidableEq

def StreamHandle.owned (s : StreamHandle) : Multiset Nat :=
  {s.block} + ptr s.fp + ptr s.fd + ptr s.file_path + ptr s.mpAlignBuf

section
variable (grants : Nat → Bool)

/-- `dup` may give no descriptor; the stream is created all the same -/
def createInstreamHandleFile (block : Nat) (data_src : MediaDataSourceInfo) :
    Prog (Option StreamHandle) := do
  touch block
  if hpath : data_src.source_type = .filepath then
    let fp ← malloc grants
    match fp with
    | none => pure none
    | some fp =>
      pure (some ⟨block, data_src.source_type, some fp, none, none, none,
        .fileDestoryInstreamHandle, fun _ hne => absurd hpath hne⟩)
  else if data_src.source_type = .fd then
    let fd ← malloc grants
    pure (some ⟨block, data_src.source_type, none, fd, none, none, .fileDestoryInstreamHandle,
      fun _ _ => rfl⟩)
  else pure none

/-- `fdopen` or `fopen` -/
def createOutstreamHandleFile (block : Nat) (data_src : MediaDataSourceInfo) :
    Prog (Option StreamHandle) := do
  touch block
  if data_src.source_type = .fd ∨ data_src.source_type = .filepath then
    let fp ← malloc grants
    match fp with
    | none => pure none
    | some fp =>
      pure (some ⟨block, data_src.source_type, some fp, none, none, none,
        .destoryOutstreamHandleFile, fun h => Destory.noConfusion h⟩)
  else pure none

/-- the choice of `stream_handle_create` -/
def createHandleFile (block : Nat) (data_src : MediaDataSourceInfo) : Prog (Option StreamHandle) :=
  if (data_src.source_type = .filepath ∨ data_src.source_type = .fd) ∧
    data_src.stream_type = .localfile then
    if data_src.io_direction = 0 then createInstreamHandleFile grants block data_src
    else if data_src.io_direction = 1 then createOutstreamHandleFile grants block data_src
    else pure none
  else pure none

def streamHandleCreate (data_src : MediaDataSourceInfo) : Prog (Option StreamHandle) := do
  let stream ← malloc grants
  match stream with
  | none => throw .stuck
  | some block =>
    let created ← createHandleFile grants block data_src
    match created with
    | none => do
      free block
      pure none
    | some s => pure (some s)

end

/-- an input stream closes the file of a path -/
def closeInstream (s : StreamHandle) : Prog Unit :=
  if s.source_type = .filepath then freePtr s.fp else pure ()

def fileDestoryInstreamHandle (s : StreamHandle) : Prog Unit := do
  touch s.block
  closeInstream s
  freePtr s.fd
  freePtr s.file_path
  freePtr s.mpAlignBuf

def destoryOutstreamHandleFile (s : StreamHandle) : Prog Unit := do
  touch s.block
  freePtr s.fp
  freePtr s.fd
  freePtr s.file_path
  freePtr s.mpAlignBuf

/-- `stream->destory(stream)` -/
def StreamHandle.callDestory (s : StreamHandle) : Prog Unit :=
  match s.destory with
  | .fileDestoryInstreamHandle => fileDestoryInstreamHandle s
  | .destoryOutstreamHandleFile => destoryOutstreamHandleFile s

def streamHandleDestroy : Option StreamHandle → Prog Unit
  | none => pure ()
  | some s => do
    s.callDestory
    free s.block

/-- what stands behind a pointer to a stream -/
def streamOwned (s : Option StreamHandle) : Multiset Nat := s.elim 0 StreamHandle.owned

@[simp] theorem streamOwned_none : streamOwned none = 0 := rfl

@[simp] theorem streamOwned_some (s : StreamHandle) : streamOwned (some s) = s.owned := rfl

section
variable (grants : Nat → Bool)

theorem triple_createInstream (block : Nat) (data_src : MediaDataSourceInfo) :
    Triple {block} (createInstreamHandleFile grants block data_src) fun r =>
      r.elim {block} StreamHandle.owned := by
  unfold createInstreamHandleFile
  refine (triple_touch block).bind fun _ => ?_
  split
  · refine triple_malloc_then (triple_pure rfl) fun fp => triple_pure ?_
    show ({fp} : Multiset Nat) + {block} = {block} + {fp} + 0 + 0 + 0
    abel
  · split
    · refine triple_step {block} (triple_malloc grants) (zero_add _).symm fun fd => triple_pure ?_
      show ptr fd + {block} = {block} + 0 + ptr fd + 0 + 0
      abel
    · exact triple_pure rfl

theorem triple_createOutstream (block : Nat) (data_src : MediaDataSourceInfo) :
    Triple {block} (createOutstreamHandleFile grants block data_src) fun r =>
      r.elim {block} StreamHandle.owned := by
  unfold createOutstreamHandleFile
  refine (triple_touch block).bind fun _ => ?_
  split
  · refine triple_malloc_then (triple_pure rfl) fun fp => triple_pure ?_
    show ({fp} : Multiset Nat) + {block} = {block} + {fp} + 0 + 0 + 0
    abel
  · exact triple_pure rfl

theorem triple_createHandle (block : Nat) (data_src : MediaDataSourceInfo) :
    Triple {block} (createHandleFile grants block data_src) fun r =>
      r.elim {block} StreamHandle.owned := by
  unfold createHandleFile
  split
  · split
    · exact triple_createInstream grants block data_src
    · split
      · exact triple_createOutstream grants block data_src
      · exact triple_pure rfl
  · exact triple_pure rfl

/-- A stream that is not created leaves nothing behind. -/
theorem triple_streamHandleCreate (data_src : MediaDataSourceInfo) :
    Triple 0 (streamHandleCreate grants data_src) streamOwned := by
  unfold streamHandleCreate
  refine triple_malloc_then (triple_throw (by decide)) fun block => ?_
  refine ((triple_createHandle grants block data_src).bind fun created => ?_).pre (add_zero _)
  cases created with
  | none => exact (triple_free block).bind fun _ => triple_pure rfl
  | some s => exact triple_pure rfl

end

theorem triple_fileDestoryInstream {s : StreamHandle}
    (hs : s.destory = .fileDestoryInstreamHandle) :
    Triple s.owned (fileDestoryInstreamHandle s) fun _ => {s.block} := by
  have howned : s.owned = ptr s.fp
      + (ptr s.fd + (ptr s.file_path + (ptr s.mpAlignBuf + {s.block}))) := by
    unfold StreamHandle.owned
    abel
  have hfile : Triple (ptr s.fp) (closeInstream s) fun _ => 0 := by
    unfold closeInstream
    split
    · exact triple_freePtr s.fp
    · rename_i hpath
      rw [s.closes hs hpath]
      exact triple_pure rfl
  unfold fileDestoryInstreamHandle
  refine triple_touch_then (by simp [StreamHandle.owned]) ?_
  rw [howned]
  refine triple_step _ hfile rfl fun _ => ?_
  rw [zero_add]
  refine triple_freePtr_then (triple_freePtr_then ?_)
  exact ((triple_freePtr s.mpAlignBuf).frame {s.block}).post fun _ => zero_add _

theorem triple_destoryOutstream (s : StreamHandle) :
    Triple s.owned (destoryOutstreamHandleFile s) fun _ => {s.block} := by
  have howned : s.owned = ptr s.fp
      + (ptr s.fd + (ptr s.file_path + (ptr s.mpAlignBuf + {s.block}))) := by
    unfold StreamHandle.owned
    abel
  unfold destoryOutstreamHandleFile
  refine triple_touch_then (by simp [StreamHandle.owned]) ?_
  rw [howned]
  refine triple_freePtr_then (triple_freePtr_then (triple_freePtr_then ?_))
  exact ((triple_freePtr s.mpAlignBuf).frame {s.block}).post fun _ => zero_add _

/-- A stream that is destroyed leaves nothing behind. -/
theorem triple_streamHandleDestroy (s : Option StreamHandle) :
    Triple (streamOwned s) (streamHandleDestroy s) fun _ => 0 := by
  cases s with
  | none => exact triple_pure rfl
  | some s =>
    show Triple s.owned (streamHandleDestroy (some s)) fun _ => 0
    unfold streamHandleDestroy
    have hfields : Triple s.owned s.callDestory fun _ => {s.block} := by
      unfold StreamHandle.callDestory
      cases hs : s.destory with
      | fileDestoryInstreamHandle => exact triple_fileDestoryInstream hs
      | destoryOutstreamHandleFile => exact triple_destoryOutstream s
    exact hfields.bind fun _ => triple_free s.block

/-! ## cache writers -/

def cachemodeThread : Int := 0
def cachemodeSimple : Int := 1

/-- an `FsCacheWriter` that was created, its `CacheSimpleContext` and its buffer, and the stream
that it writes to -/
structure CacheHandle where
  block : Nat
  mPriv : Nat
  mpCache : Nat
  mpStream : StreamHandle
  mMode : Int
  simple : mMode = cachemodeSimple
deriving DecidableEq

/-- the writer does not own its stream -/
def CacheHandle.owned (w : CacheHandle) : Multiset Nat := {w.block} + {w.mPriv} + {w.mpCache}

def cacheOwned (w : Option CacheHandle) : Multiset Nat := w.elim 0 CacheHandle.owned

@[simp] theorem cacheOwned_none : cacheOwned none = 0 := rfl

@[simp] theorem cacheOwned_some (w : CacheHandle) : cacheOwned (some w) = w.owned := rfl

section
variable (grants : Nat → Bool)

/-- a writer to the stream -/
abbrev WriterOf (pStream : StreamHandle) := { w : CacheHandle // w.mpStream = pStream }

def createCacheSimple (pStream : StreamHandle) (cache_size : Int) :
    Prog (Option (WriterOf pStream)) :=
  if cache_size ≤ 0 then pure none
  else do
    let pFsCacheWriter ← malloc grants
    match pFsCacheWriter with
    | none => pure none
    | some block => do
      let pContext ← malloc grants
      match pContext with
      | none => do
        free block
        pure none
      | some mPriv => do
        let cache ← malloc grants
        match cache with
        | none => do
          free mPriv
          free block
          pure none
        | some mpCache => pure (some ⟨⟨block, mPriv, mpCache, pStream, cachemodeSimple, rfl⟩, rfl⟩)

def cacheHandleCreate (mode : Int) (pStream : StreamHandle) (cache_size : Int) :
    Prog (Option (WriterOf pStream)) :=
  if mode = cachemodeThread then pure none
  else if mode = cachemodeSimple then createCacheSimple grants pStream cache_size
  else pure none

end

def destroyCacheSimple (w : CacheHandle) : Prog Int := do
  touch w.block
  touch w.mPriv
  free w.mpCache
  free w.mPriv
  free w.block
  pure 0

def cacheHandleDestroy : Option CacheHandle → Prog Int
  | none => pure (-1)
  | some w => do
    touch w.block
    if w.mMode = cachemodeThread then pure 0
    else if w.mMode = cachemodeSimple then destroyCacheSimple w
    else pure (-1)

/-- a call through the function table of a writer: it may reach its buffer and the file behind its
stream -/
def cacheCall : Option CacheHandle → Prog Unit
  | none => throw .null
  | some w => do
    touch w.block
    touch w.mPriv
    touch w.mpCache
    touch w.mpStream.block
    deref w.mpStream.fp

def cacheCalls (w : Option CacheHandle) : Nat → Prog Unit
  | 0 => pure ()
  | n + 1 => do
    cacheCall w
    cacheCalls w n

/-- A writer that is not created leaves nothing behind. -/
theorem triple_cacheHandleCreate (grants : Nat → Bool) (mode : Int) (pStream : StreamHandle)
    (cache_size : Int) :
    Triple 0 (cacheHandleCreate grants mode pStream cache_size) fun w =>
      cacheOwned (w.map Subtype.val) := by
  unfold cacheHandleCreate
  split
  · exact triple_pure rfl
  split
  · unfold createCacheSimple
    split
    · exact triple_pure rfl
    refine triple_malloc_then (triple_pure rfl) fun block => ?_
    refine triple_malloc_then ?_ fun mPriv => ?_
    · exact triple_step 0 (triple_free block) rfl fun _ => triple_pure rfl
    refine triple_malloc_then ?_ fun mpCache => triple_pure ?_
    · refine triple_step ({block} + 0) (triple_free mPriv) rfl fun _ => ?_
      exact triple_step 0 (triple_free block) (zero_add _) fun _ => triple_pure rfl
    · show ({mpCache} : Multiset Nat) + ({mPriv} + ({block} + 0)) = {block} + {mPriv} + {mpCache}
      abel
  · exact triple_pure rfl

/-- A writer that is destroyed leaves nothing behind. -/
theorem triple_cacheHandleDestroy (w : Option CacheHandle) :
    Triple (cacheOwned w) (cacheHandleDestroy w) fun _ => 0 := by
  cases w with
  | none => exact triple_pure rfl
  | some w =>
    show Triple w.owned (cacheHandleDestroy (some w)) fun _ => 0
    have howned : w.owned = {w.mpCache} + ({w.mPriv} + ({w.block} + 0)) := by
      unfold CacheHandle.owned
      abel
    unfold cacheHandleDestroy
    refine triple_touch_then (by simp [CacheHandle.owned]) ?_
    rw [w.simple, if_neg (by decide), if_pos rfl]
    unfold destroyCacheSimple
    refine triple_touch_then (by simp [CacheHandle.owned])
      (triple_touch_then (by simp [CacheHandle.owned]) ?_)
    rw [howned]
    exact triple_free_then (triple_free_then (triple_free_then (triple_pure rfl)))

/-- what a call of a writer uses -/
def CacheHandle.reached (w : CacheHandle) : Multiset Nat := w.owned + w.mpStream.owned

theorem triple_cacheCall (w : CacheHandle) :
    Triple w.reached (cacheCall (some w)) fun _ => w.reached := by
  have hmem : ∀ a, a ∈ w.owned ∨ a ∈ w.mpStream.owned → a ∈ w.reached :=
    fun a => Multiset.mem_add.mpr
  unfold cacheCall
  refine triple_touch_then (hmem _ (.inl (by simp [CacheHandle.owned]))) ?_
  refine triple_touch_then (hmem _ (.inl (by simp [CacheHandle.owned]))) ?_
  refine triple_touch_then (hmem _ (.inl (by simp [CacheHandle.owned]))) ?_
  refine triple_touch_then (hmem _ (.inr (by simp [StreamHandle.owned]))) ?_
  rw [← bind_pure_unit (x := deref w.mpStream.fp)]
  refine triple_deref_then (fun a ha => hmem a (.inr ?_)) (triple_pure rfl)
  simp [StreamHandle.owned, Option.mem_def.mp ha]

theorem triple_cacheCalls (w : CacheHandle) (n : Nat) :
    Triple w.reached (cacheCalls (some w) n) fun _ => w.reached := by
  induction n with
  | zero => exact triple_pure rfl
  | succ n ih => exact (triple_cacheCall w).bind fun _ => ih

/-! ## the output of a context -/

/-- the fields that the contexts of both muxers have -/
structure Output where
  mpStream : Option StreamHandle
  mpCacheWriter : Option CacheHandle
  mFsCacheMode : Int
  mCacheSimpleSize : Int
  mFallocateLen : Int

/-- nothing is set: the context behind `memset` -/
def Output.closed : Output := ⟨none, none, 0, 0, 0⟩

/-- the stream of the writer, where it is not that of the context -/
def Output.stray (o : Output) : Multiset Nat :=
  o.mpCacheWriter.elim 0 fun w => if o.mpStream = some w.mpStream then 0 else w.mpStream.owned

/-- what can be reached from the context -/
def Output.owned (o : Output) : Multiset Nat :=
  cacheOwned o.mpCacheWriter + streamOwned o.mpStream + o.stray

/-- what cannot be reached once the context has another stream -/
def Output.replaced (o : Output) : Multiset Nat :=
  o.mpCacheWriter.elim (streamOwned o.mpStream) fun w =>
    if o.mpStream = some w.mpStream then 0 else streamOwned o.mpStream

section
variable (grants : Nat → Bool)

/-- `SET_STREAM_FD` and `SET_STREAM_FILEPATH`: an output stream of a local file -/
def Output.setStream (o : Output) (source_type : MediaSourceType) : Prog (Int × Output) := do
  let stream ← streamHandleCreate grants ⟨.localfile, source_type, 1⟩
  match stream with
  | none => pure (-1, { o with mpStream := none })
  | some s =>
    if o.mFallocateLen > 0 then do
      touch s.block
      deref s.fp
      pure (0, { o with mpStream := some s })
    else pure (0, { o with mpStream := some s })

/-- the writer of `WriteHeader` for a context with a stream and no writer -/
def Output.openCache (o : Output) (s : StreamHandle) : Prog Output := do
  let w ← cacheHandleCreate grants o.mFsCacheMode s o.mCacheSimpleSize
  pure { o with mpCacheWriter := w.map Subtype.val }

end

/-- `SET_STREAM_CALLBACK` -/
def Output.setCallback (o : Output) : Prog Unit :=
  match o.mpStream with
  | none => pure ()
  | some s => touch s.block

/-- the end of `MuxerClose`: the writer first, then the stream; neither is called with a null
pointer -/
def Output.close (o : Output) : Prog Unit := do
  let _ ← cacheHandleDestroy o.mpCacheWriter
  streamHandleDestroy o.mpStream

/-- what the writer reaches stays where it is, whatever the stream of the context is -/
def cacheReached (w : Option CacheHandle) : Multiset Nat := w.elim 0 CacheHandle.reached

theorem Output.owned_kept (o : Output) : o.owned = cacheReached o.mpCacheWriter + o.replaced := by
  obtain ⟨stream, w, -, -, -⟩ := o
  cases w with
  | none =>
    show 0 + streamOwned stream + 0 = 0 + streamOwned stream
    abel
  | some w =>
    show w.owned + streamOwned stream + (if stream = some w.mpStream then 0 else w.mpStream.owned)
      = w.owned + w.mpStream.owned + (if stream = some w.mpStream then 0 else streamOwned stream)
    split
    · rename_i hsame
      rw [hsame, streamOwned_some]
    · abel

/-- a stream that is not that of the writer -/
theorem Output.replaced_new {o : Output}
    (h : ∀ w, o.mpCacheWriter = some w → o.mpStream ≠ some w.mpStream) :
    o.replaced = streamOwned o.mpStream := by
  obtain ⟨stream, w, mode, size, len⟩ := o
  cases w with
  | none => rfl
  | some w => exact if_neg (h w rfl)

/-- a stream that has just come is not that of the writer -/
theorem stream_new {s : StreamHandle} {w : CacheHandle} {F : Multiset Nat}
    (h : (s.owned + (w.reached + F)).Nodup) :
    some s ≠ some w.mpStream := by
  intro hsame
  have hs : s.block ∈ s.owned := by
    simp only [StreamHandle.owned, Multiset.mem_add, Multiset.mem_singleton, true_or]
  have hw : s.block ∈ w.reached + F := by
    rw [Option.some.inj hsame] at hs ⊢
    exact Multiset.mem_add.mpr (.inl (Multiset.mem_add.mpr (.inr hs)))
  exact Multiset.disjoint_left.mp (Multiset.nodup_add.mp h).2.2 hs hw

section
variable (grants : Nat → Bool)

/-- **A context gets another stream.**  The old one is lost, unless the writer has it. -/
theorem triple_setStream (o : Output) (source_type : MediaSourceType) :
    Triple o.owned (o.setStream grants source_type) fun r => r.2.owned + o.replaced := by
  unfold Output.setStream
  refine triple_step o.owned (triple_streamHandleCreate grants _) (zero_add _).symm fun stream => ?_
  cases stream with
  | none =>
    have hnew : ({ o with mpStream := none } : Output).replaced = 0 :=
      Output.replaced_new fun w _ hnone => by cases hnone
    refine triple_pure ?_
    show 0 + o.owned = ({ o with mpStream := none } : Output).owned + o.replaced
    rw [o.owned_kept, Output.owned_kept { o with mpStream := none }, hnew]
    abel
  | some s =>
    refine triple_nodup fun hnodup => ?_
    have hnew : ({ o with mpStream := some s } : Output).replaced = s.owned := by
      refine Output.replaced_new fun w hw => ?_
      rw [o.owned_kept, hw] at hnodup
      exact stream_new hnodup
    have hset : s.owned + o.owned
        = ({ o with mpStream := some s } : Output).owned + o.replaced := by
      rw [o.owned_kept, Output.owned_kept { o with mpStream := some s }, hnew]
      abel
    show Triple (s.owned + o.owned) _ _
    dsimp only
    split
    · refine triple_step (ptr s.fp + ptr s.fd + ptr s.file_path + ptr s.mpAlignBuf + o.owned)
        (triple_touch s.block) ?_
        fun _ => ?_
      · unfold StreamHandle.owned
        abel
      refine triple_step ({s.block} + ptr s.fd + ptr s.file_path + ptr s.mpAlignBuf + o.owned)
        (triple_deref s.fp)
        (by abel) fun _ => triple_pure ?_
      rw [← hset]
      unfold StreamHandle.owned
      abel
    · exact triple_pure hset

theorem triple_openCache {o : Output} {s : StreamHandle} (hs : o.mpStream = some s)
    (hw : o.mpCacheWriter = none) :
    Triple o.owned (o.openCache grants s) Output.owned := by
  unfold Output.openCache
  refine triple_step o.owned (triple_cacheHandleCreate grants _ s _) (zero_add _).symm fun w =>
    triple_pure ?_
  have howned : o.owned = s.owned := by
    rw [o.owned_kept, Output.replaced_new fun w h => (by rw [hw] at h; cases h), hw, hs]
    exact zero_add _
  rw [howned]
  cases w with
  | none =>
    rw [Output.owned_kept, Output.replaced_new fun w h => (by cases h), hs]
    rfl
  | some w =>
    obtain ⟨w, rfl⟩ := w
    show w.owned + w.mpStream.owned = w.owned + streamOwned o.mpStream
      + (if o.mpStream = some w.mpStream then 0 else w.mpStream.owned)
    rw [if_pos hs, hs, streamOwned_some, add_zero]

theorem triple_setCallback (o : Output) : Triple o.owned o.setCallback fun _ => o.owned := by
  unfold Output.setCallback
  cases hs : o.mpStream with
  | none => exact triple_pure rfl
  | some s =>
    have howned : o.owned = {s.block}
        + (cacheOwned o.mpCacheWriter + (ptr s.fp + ptr s.fd + ptr s.file_path
        + ptr s.mpAlignBuf) + o.stray) := by
      unfold Output.owned
      rw [hs, streamOwned_some]
      unfold StreamHandle.owned
      abel
    rw [howned]
    exact (triple_touch s.block).frame _

theorem triple_writes_none (n : Nat) : Triple 0 (cacheCalls none n) fun _ => 0 := by
  induction n with
  | zero => exact triple_pure rfl
  | succ n ih =>
    have hnull : Triple 0 (cacheCall none) fun _ => 0 := triple_throw (by decide)
    exact hnull.bind fun _ => ih

theorem triple_writes (o : Output) (n : Nat) :
    Triple o.owned (cacheCalls o.mpCacheWriter n) fun _ => o.owned := by
  rw [o.owned_kept]
  refine Triple.frame ?_ o.replaced
  cases o.mpCacheWriter with
  | none => exact triple_writes_none n
  | some w => exact triple_cacheCalls w n

/-- **An output that is closed** leaves the stream that only the writer had. -/
theorem triple_close (o : Output) : Triple o.owned o.close fun _ => o.stray := by
  unfold Output.close Output.owned
  refine triple_step (streamOwned o.mpStream + o.stray) (triple_cacheHandleDestroy _)
    (by abel) fun _ => ?_
  exact (((triple_streamHandleDestroy o.mpStream).frame o.stray).pre (zero_add _)).post fun _ =>
    zero_add _

end

/-! ## codec-specific data -/

def csdOwned (csd : CodecType → Option Nat) : Multiset Nat := ptr (csd .video) + ptr (csd .audio)

theorem csdOwned_update (csd : CodecType → Option Nat) (idx : CodecType) (p : Option Nat) :
    csdOwned (Function.update csd idx p) + ptr (csd idx) = csdOwned csd + ptr p := by
  cases idx with
  | video =>
    show ptr p + ptr (csd .audio) + ptr (csd .video) = ptr (csd .video) + ptr (csd .audio) + ptr p
    abel
  | audio =>
    show ptr (csd .video) + ptr p + ptr (csd .audio) = ptr (csd .video) + ptr (csd .audio) + ptr p
    abel

section
variable (grants : Nat → Bool)

/-- `MuxerWriteCSD`: `memcpy` into what `malloc` returns; the old copy is not freed -/
def copyCsd (csd : CodecType → Option Nat) (csdLen : Nat) (idx : CodecType) :
    Prog (CodecType → Option Nat) :=
  if csdLen ≠ 0 then do
    let p ← malloc grants
    deref p
    pure (Function.update csd idx p)
  else pure (Function.update csd idx none)

theorem triple_copyCsd (csd : CodecType → Option Nat) (csdLen : Nat) (idx : CodecType) :
    Triple (csdOwned csd) (copyCsd grants csd csdLen idx) fun csd' =>
      csdOwned csd' + ptr (csd idx) := by
  unfold copyCsd
  split
  · refine triple_step (csdOwned csd) (triple_malloc grants) (zero_add _).symm fun p => ?_
    refine triple_step (csdOwned csd) (triple_deref p) rfl fun _ => triple_pure ?_
    rw [csdOwned_update]
    abel
  · refine triple_pure ?_
    rw [csdOwned_update]
    exact (add_zero _).symm

end

/-! ## the calls of a muxer -/

/-- the commands of `muxer_writer.h` with the data that they read -/
inductive MuxerIoctl where
  | setTrackInfo (data : Option Mp4.MediaTrackInfo)
  | setTotalTime (param : Int)
  | setFallocateLen (param : Int)
  | setTfcardState (param : Int)
  | setCacheMode (param : Int)
  | setCacheSize (param : Int)
  | setStreamCallback
  | setStreamFd
  | setStreamFilepath
  | unknown (cmd : Int)

inductive MuxerCall where
  | muxerOpen
  | muxerClose
  | muxerIOCtrl (cmd : MuxerIoctl)
  | muxerWriteCSD (csdData : Mp4.Block) (idx : CodecType)
  | muxerWriteHeader
  | muxerWritePacket (m : Mem) (pkt : AVPacket)
  | muxerWriteTrailer

/-- what a call returns: a number, the size of the file, or `-1` with blocks that only locals of the
call name -/
inductive Ret where
  | code (n : Int)
  | size
  | refused (locals : List Nat)

end Pluto.Handles

import Mathlib.Data.List.TakeWhile
import Pluto.Muxer.Writer
import Pluto.Bytes.Boxes

/-!
# `Mp4Muxer.h`, `Mp4MuxerDrv.c`: the context of the MP4 muxer

`AVFormatContext` is the context behind a `MuxerWriter` in MP4 mode.  The sample tables are kept in
one allocation of words, `mov_inf_cache`; a table of a stream is an area of it with a start, an
end, a write and a read pointer.  A pointer is the index of a word.

* `mp4MuxerOpen`                          the context after `Mp4MuxerOpen`;
* `setTrackInfo`, `setTotalTime`, `mp4MuxerWriteCSD`   what the driver does to it before a session;
* `MOVContext.store`, `MOVContext.wrap`   `*ptr++ = v`, and the test that follows it;
* `putByte` … `putTag`                    the `put_*_cache` functions.

A track is named by its `CODEC_TYPE`, which is also its index.  `stream_idx` counts from zero in
the same order; `last_stream_idx` is `none` for `-1`.
-/

namespace Pluto.Mp4
open Octets Boxes

/-! ## `Mp4Muxer.h` -/

inductive ChunkId where
  | stco
  | stsz
  | stsc
  | stts
deriving DecidableEq, Repr

abbrev Table := ChunkId × CodecType

def codecIdH264 : Nat := 0
def codecIdMpeg4 : Nat := 3
def codecIdMjpeg : Nat := 4
def codecIdPcm : Nat := 5
def codecIdAdpcm : Nat := 6
def codecIdAac : Nat := 0x40

/-- `globalTimescale` -/
def globalTimescale : Int := 1000

/-- `MOV_HEADER_RESERVE_SIZE` -/
def movHeaderReserveSize : Nat := 1024 * 1024

/-- `STCO_CACHE_SIZE`, `STSZ_CACHE_SIZE`, `STSC_CACHE_SIZE`, `STTS_CACHE_SIZE`: words of a table -/
def cacheSize : ChunkId → Nat
  | .stco => 8 * 1024
  | .stsz => 8 * 1024 * 4
  | .stsc => 8 * 1024
  | .stts => 8 * 1024 * 4

structure AVCodecContext where
  width : Int
  height : Int
  codec_type : CodecType
  rotate_degree : Int
  codec_tag : Nat
  codec_id : Nat
  channels : Int
  frame_size : Int
  bits_per_sample : Int
  sample_rate : Int

/-- a block of bytes whose length is an `int` -/
abbrev Block := { b : Bytes // b.length < 2 ^ 31 }

structure MOVTrack where
  timescale : Int
  time : Int
  trackDuration : Int
  trackID : Int
  stream_type : CodecType
  tag : Nat
  /-- the codec of the stream, as it is when the header is written -/
  enc : AVCodecContext
  /-- `csdLen` bytes; no bytes when it is `NULL` -/
  csdData : Block
  stsz_size : Nat
  stco_size : Nat
  stsc_size : Nat
  stts_size : Nat
  stsz_tiny_pages : Nat
  stco_tiny_pages : Nat
  stsc_tiny_pages : Nat
  stts_tiny_pages : Nat
  keyFrame_num : Nat

structure MOVContext where
  create_time : Int
  nb_streams : Nat
  mdat_pos : Nat
  mdat_start_pos : Nat
  mdat_size : Nat
  timescale : Int
  geo_available : Bool
  latitudex10000 : Int
  longitudex10000 : Int
  tracks : CodecType → MOVTrack
  cache_start_ptr : Table → Nat
  cache_end_ptr : Table → Nat
  cache_write_ptr : Table → Nat
  cache_read_ptr : Table → Nat
  /-- the words the pointers point to -/
  mov_inf_cache : Nat → UInt32
  cache_keyframe : Nat → UInt32
  stsc_cnt : Nat
  last_stream_idx : Option CodecType
  free_pos : Nat
  title_info : Bytes

structure AVFormatContext where
  mTrackCnt : Nat
  streams : CodecType → AVCodecContext
  priv_data : MOVContext

/-- a change of one track -/
def MOVContext.setTrack (mov : MOVContext) (t : CodecType) (f : MOVTrack → MOVTrack) : MOVContext :=
  { mov with tracks := Function.update mov.tracks t (f (mov.tracks t)) }

/-- `*cache_write_ptr++ = v` -/
def MOVContext.store (mov : MOVContext) (k : Table) (v : UInt32) : MOVContext :=
  { mov with
    mov_inf_cache := Function.update mov.mov_inf_cache (mov.cache_write_ptr k) v
    cache_write_ptr := Function.update mov.cache_write_ptr k (mov.cache_write_ptr k + 1) }

/-- the write pointer goes back to the start when it is past the end -/
def MOVContext.wrap (mov : MOVContext) (k : Table) : MOVContext :=
  if mov.cache_write_ptr k > mov.cache_end_ptr k then
    { mov with cache_write_ptr := Function.update mov.cache_write_ptr k (mov.cache_start_ptr k) }
  else mov

/-! ## `Mp4MuxerOpen` -/

def emptyCodec (t : CodecType) : AVCodecContext where
  width := 0
  height := 0
  codec_type := t
  rotate_degree := 0
  codec_tag := 0
  codec_id := 0
  channels := 0
  frame_size := 0
  bits_per_sample := 0
  sample_rate := 0

def emptyTrack : MOVTrack where
  timescale := 0
  time := 0
  trackDuration := 0
  trackID := 0
  stream_type := .video
  tag := 0
  enc := emptyCodec .video
  csdData := ⟨[], by norm_num⟩
  stsz_size := 0
  stco_size := 0
  stsc_size := 0
  stts_size := 0
  stsz_tiny_pages := 0
  stco_tiny_pages := 0
  stsc_tiny_pages := 0
  stts_tiny_pages := 0
  keyFrame_num := 0

/-- where the areas start: each behind the one before; the audio stream has no `stts` area -/
def cacheStart : Table → Nat
  | (.stco, .video) => 0
  | (.stco, .audio) => cacheSize .stco
  | (.stsz, .video) => cacheSize .stco + cacheSize .stco
  | (.stsz, .audio) => cacheSize .stco + cacheSize .stco + cacheSize .stsz
  | (.stsc, .video) => cacheSize .stco + cacheSize .stco + cacheSize .stsz + cacheSize .stsz
  | (.stsc, .audio) =>
    cacheSize .stco + cacheSize .stco + cacheSize .stsz + cacheSize .stsz + cacheSize .stsc
  | (.stts, .video) =>
    cacheSize .stco + cacheSize .stco + cacheSize .stsz + cacheSize .stsz + cacheSize .stsc
      + cacheSize .stsc
  | (.stts, .audio) => 0

/-- the last word of an area -/
def cacheEnd : Table → Nat
  | (.stts, .audio) => 0
  | k => cacheStart k + (cacheSize k.1 - 1)

/-- `raw_time` is what `time` returns; `words` and `keyframes` are what the two allocations hold -/
def mp4MuxerOpen (raw_time : Int) (words keyframes : Nat → UInt32) : AVFormatContext where
  mTrackCnt := 0
  streams := emptyCodec
  priv_data := {
    create_time := raw_time + 0x7c25b080
    nb_streams := 0
    mdat_pos := 0
    mdat_start_pos := 0
    mdat_size := 0
    timescale := 0
    geo_available := false
    latitudex10000 := 0
    longitudex10000 := 0
    tracks := fun _ => emptyTrack
    cache_start_ptr := cacheStart
    cache_end_ptr := cacheEnd
    cache_write_ptr := cacheStart
    cache_read_ptr := cacheStart
    mov_inf_cache := words
    cache_keyframe := keyframes
    stsc_cnt := 0
    last_stream_idx := none
    free_pos := 0
    title_info := zeros 128 }

/-! ## `Mp4MuxerIOCtrl`, `Mp4MuxerWriteCSD` -/

inductive AvEncType where
  | vencH264
  | vencH265
  | vencJpeg
  | aencAac
deriving DecidableEq, Repr

structure MediaTrackInfo where
  mWidth : Int
  mHeight : Int
  mRotateDegree : Int
  mVideoEncType : AvEncType
  mChannelCnt : Int
  mBitWidth : Int
  mSampleRate : Int
  mFrameSize : Int

/-- `SET_TRACK_INFO`, audio part: AAC, whatever `mAudioEncType` says -/
def setAudioInfo (ctx : AVFormatContext) (info : MediaTrackInfo) : AVFormatContext :=
  { ctx with
    streams := Function.update ctx.streams .audio { ctx.streams .audio with
      channels := info.mChannelCnt
      bits_per_sample := info.mBitWidth
      sample_rate := info.mSampleRate
      frame_size := info.mFrameSize
      codec_id := codecIdAac }
    priv_data := ctx.priv_data.setTrack .audio fun trk => { trk with timescale := info.mSampleRate }
    mTrackCnt := ctx.mTrackCnt + 1 }

/-- `SET_TRACK_INFO`: the result and the context; an unknown video codec ends it before the audio
part -/
def setTrackInfo (ctx : AVFormatContext) (info : MediaTrackInfo) : Int × AVFormatContext :=
  let video := { ctx.streams .video with
    width := info.mWidth
    height := info.mHeight
    rotate_degree := info.mRotateDegree }
  let ctx := { ctx with
    streams := Function.update ctx.streams .video video
    priv_data := ctx.priv_data.setTrack .video fun trk => { trk with timescale := 1000 } }
  let withCodec (id : Nat) : AVFormatContext := { ctx with
    streams := Function.update ctx.streams .video { video with codec_id := id }
    mTrackCnt := ctx.mTrackCnt + 1 }
  match info.mVideoEncType with
  | .vencH264 => (0, setAudioInfo (withCodec codecIdH264) info)
  | .vencJpeg => (0, setAudioInfo (withCodec codecIdMjpeg) info)
  | _ => (-1, ctx)

/-- `SET_TOTAL_TIME`, in milliseconds -/
def setTotalTime (ctx : AVFormatContext) (param : Int) : AVFormatContext :=
  { ctx with priv_data :=
      (ctx.priv_data.setTrack .video fun trk =>
        { trk with trackDuration := (param * trk.timescale).tdiv 1000 }).setTrack .audio fun trk =>
        { trk with trackDuration := (param * trk.timescale).tdiv 1000 } }

def mp4MuxerWriteCSD (ctx : AVFormatContext) (csdData : Block) (idx : CodecType) :
    AVFormatContext :=
  { ctx with priv_data := ctx.priv_data.setTrack idx fun trk => { trk with csdData := csdData } }

/-- the calls of the driver that prepare a session -/
inductive Command where
  | trackInfo (info : MediaTrackInfo)
  | totalTime (param : Int)
  | csd (data : Block) (idx : CodecType)

def AVFormatContext.command (ctx : AVFormatContext) : Command → AVFormatContext
  | .trackInfo info => (setTrackInfo ctx info).2
  | .totalTime param => setTotalTime ctx param
  | .csd data idx => mp4MuxerWriteCSD ctx data idx

def AVFormatContext.commands (ctx : AVFormatContext) (cmds : List Command) : AVFormatContext :=
  cmds.foldl AVFormatContext.command ctx

/-! ## `put_*_cache` -/

/-- an `int` or `int64_t` as a `uint32_t` -/
def u32 (v : Int) : Nat := (v % 2 ^ 32).toNat

def putBuffer (buf : Bytes) : List CacheWrite := [CacheWrite.all buf]

def putByte (b : Nat) : List CacheWrite := putBuffer [UInt8.ofNat b]

def putLe32 (val : Nat) : List CacheWrite := putBuffer (be 4 val).reverse

def putBe32 (val : Nat) : List CacheWrite := putBuffer (be 4 val)

def putBe16 (val : Nat) : List CacheWrite := putByte (val / 256) ++ putByte val

def putBe24 (val : Nat) : List CacheWrite := putBe16 (val / 256) ++ putByte val

/-- the characters before the first NUL, one write each -/
def putTag (tag : Tag) : List CacheWrite :=
  (tag.val.takeWhile fun b => b ≠ 0).flatMap fun b => putBuffer [b]

@[simp] theorem emitted_putBuffer (buf : Bytes) : emitted (putBuffer buf) = buf := by
  simp [putBuffer]

@[simp] theorem emitted_putByte (b : Nat) : emitted (putByte b) = be 1 b := by
  rw [putByte, emitted_putBuffer]
  rfl

@[simp] theorem emitted_putLe32 (val : Nat) : emitted (putLe32 val) = (be 4 val).reverse := by
  rw [putLe32, emitted_putBuffer]

@[simp] theorem emitted_putBe32 (val : Nat) : emitted (putBe32 val) = be 4 val := by
  rw [putBe32, emitted_putBuffer]

@[simp] theorem emitted_putBe16 (val : Nat) : emitted (putBe16 val) = be 2 val := by
  rw [putBe16, emitted_append, emitted_putByte, emitted_putByte]
  rfl

@[simp] theorem emitted_putBe24 (val : Nat) : emitted (putBe24 val) = be 3 val := by
  rw [putBe24, emitted_append, emitted_putBe16, emitted_putByte]
  rfl

theorem emitted_putTag {tag : Tag} (h : 0 ∉ tag.val) : emitted (putTag tag) = tag.val := by
  have hall : (tag.val.takeWhile fun b => b ≠ 0) = tag.val :=
    List.takeWhile_eq_self_iff.mpr fun b hb => decide_eq_true fun hzero : b = 0 => h (hzero ▸ hb)
  rw [putTag, hall]
  induction tag.val with
  | nil => rfl
  | cons b bs ih => rw [List.flatMap_cons, emitted_append, emitted_putBuffer, ih]; rfl

end Pluto.Mp4

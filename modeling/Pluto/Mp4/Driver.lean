import Pluto.Mp4.Indices
import Pluto.Steps.Run

/-!
# The calls of the driver

* `Driver.call`             a call of the driver: its result, its calls on the cache writer and the
  state behind it;
* `packetEffect_iff`        when two packets of the same content have the same effect: a video
                            packet with nothing in its first segment is written as it is, and its
                            type is not read;
* `rejected_unchanged_iff`  when a packet that is answered with `-1` leaves the state as it was: the
                            codec of the video stream is asked for behind the tables.
-/

namespace Pluto.Mp4
open Octets

/-! ## the driver -/

/-- `mpCacheWriter`: there is one -/
structure Driver where
  handle : Handle
  mpCacheWriter : Bool

/-- behind `Mp4MuxerOpen` -/
def opened (raw_time : Int) (words keyframes : Nat → UInt32) : Driver where
  handle :=
    { ctx := mp4MuxerOpen raw_time words keyframes
      mpStream := false
      mFsCacheMode := 0
      mCacheSimpleSize := 0 }
  mpCacheWriter := false

inductive DriverCall where
  | ioctrl (cmd : IOCtrl)
  | writeCSD (csdData : Block) (idx : CodecType)
  | writeHeader (memory : Bool)
  | writePacket (m : Mem) (pkt : AVPacket)
  | writeTrailer (env : Env) (filesize : Int)

/-- `Mp4MuxerWriteHeader`; without a stream the first write of the header follows a null pointer -/
def mp4MuxerWriteHeader (d : Driver) (memory : Bool) : Option (Int × List CacheOp × Driver) :=
  if d.mpCacheWriter then some (-1, [], d)
  else if d.handle.mpStream = false then none
  else if d.handle.CacheWriter memory then
    (movWriteHeader d.handle.ctx).map fun header =>
      (0, header.1, { handle := { d.handle with ctx := header.2 }, mpCacheWriter := true })
  else some (-1, [], d)

/-- `Mp4MuxerWritePacket` -/
def mp4MuxerWritePacket (d : Driver) (m : Mem) (pkt : AVPacket) :
    Option (Int × List CacheOp × Driver) :=
  if d.mpCacheWriter = false then some (-1, [], d)
  else (movWritePacket d.handle.ctx m pkt).map fun r =>
    (r.1, writeOps r.2.1, { d with handle := { d.handle with ctx := r.2.2 } })

/-- `Mp4MuxerWriteTrailer`, which returns what `cache_tell` answers in the end; without a cache
writer the box is written through a null pointer -/
def mp4MuxerWriteTrailer (d : Driver) (env : Env) (filesize : Int) :
    Option (Int × List CacheOp × Driver) :=
  if d.mpCacheWriter = false then none
  else (movWriteTrailer env d.handle.ctx).map fun r =>
    (filesize, r.1, { d with handle := { d.handle with ctx := r.2 } })

def Driver.call (d : Driver) : DriverCall → Option (Int × List CacheOp × Driver)
  | .ioctrl cmd =>
    some ((mp4MuxerIOCtrl d.handle cmd).1, [], { d with handle := (mp4MuxerIOCtrl d.handle cmd).2 })
  | .writeCSD csdData idx =>
    some (0, [],
      { d with handle := { d.handle with ctx := mp4MuxerWriteCSD d.handle.ctx csdData idx } })
  | .writeHeader memory => mp4MuxerWriteHeader d memory
  | .writePacket m pkt => mp4MuxerWritePacket d m pkt
  | .writeTrailer env filesize => mp4MuxerWriteTrailer d env filesize

def Driver.step (d : Driver) (c : DriverCall) : Option Driver := (d.call c).map fun r => r.2.2

/-! ## one packet -/

/-- the result, the bytes and the context -/
def packetEffect (ctx : AVFormatContext) (m : Mem) (pkt : AVPacket) :
    Option (Int × Bytes × AVFormatContext) :=
  (movWritePacket ctx m pkt).map fun r => (r.1, emitted r.2.1, r.2.2)

/-- two packets that differ in where their payload lies -/
structure SameContent (m m' : Mem) (pkt pkt' : AVPacket) : Prop where
  payload : pkt.payload m = pkt'.payload m'
  stream_idx : pkt.stream_idx = pkt'.stream_idx
  duration : pkt.duration = pkt'.duration

/-- the payload has its own size, less four, in place of the start code, and is no key frame -/
def Sized (payload : Bytes) : Prop :=
  payload.take 4 = be 4 (payload.length - 4) ∧ payload.getD 4 0 &&& 0x1f ≠ 5

/-- the context behind a video packet, by its fifth byte -/
def AVFormatContext.recorded (ctx : AVFormatContext) (size : Nat) (duration : Int) (b : UInt8) :
    AVFormatContext :=
  let mov := ((ctx.priv_data.countPacket .video size).countDuration duration).countKeyFrame b
  { ctx with priv_data := { mov with mdat_size := mov.mdat_size + size } }

theorem read_getD (m : Mem) (a : Int) {n i : Nat} (h : i < n) :
    (read m a n).getD i 0 = m (a + i) := by
  simp [read, List.getD_eq_getElem?_getD, h]

/-- the byte that is taken for the type is the fifth, wherever the segments are cut, unless the
first is empty -/
theorem strmByte_payload (m : Mem) {pkt : AVPacket} (h5 : 5 ≤ pkt.size0 + pkt.size1) :
    strmByte m pkt = if pkt.size0 = 0 then 0 else (pkt.payload m).getD 4 0 := by
  rw [strmByte, AVPacket.payload, AVPacket.seg0, AVPacket.seg1, List.getD_eq_getElem?_getD,
    List.getElem?_append]
  by_cases h0 : pkt.size0 = 0
  · simp [h0]
  · by_cases hcut : pkt.size0 ≥ 5
    · have hfirst : 4 < (read m pkt.data0 pkt.size0).length := by rw [read_length]; omega
      rw [if_pos hcut, if_neg h0, if_pos hfirst, ← List.getD_eq_getElem?_getD,
        read_getD m _ (by omega)]
      rfl
    · have hsecond : ¬ 4 < (read m pkt.data0 pkt.size0).length := by rw [read_length]; omega
      rw [if_neg hcut, if_pos (by omega), if_neg h0, if_neg hsecond, ← List.getD_eq_getElem?_getD,
        read_length, read_getD m _ (by omega)]
      congr 2
      omega

/-- a packet with nothing in its first segment is written as it is -/
theorem emitted_empty (m : Mem) {pkt : AVPacket} (h0 : pkt.size0 = 0) (special : Bool) :
    emitted (writeSample m pkt special) = pkt.payload m := by
  have hplain := emitted_plain m pkt
  rw [← hplain]
  simp [writeSample, h0]

/-- what a video packet does -/
theorem packetEffect_video {ctx : AVFormatContext} (m : Mem) {pkt : AVPacket}
    (hidx : pkt.stream_idx = 0) (hc : (ctx.streams .video).codec_id = codecIdH264)
    (h5 : 5 ≤ (pkt.payload m).length) :
    packetEffect ctx m pkt
      = some (0, if pkt.size0 = 0 then pkt.payload m
          else be 4 ((pkt.payload m).length - 4) ++ (pkt.payload m).drop 4,
        ctx.recorded (pkt.payload m).length pkt.duration
          (if pkt.size0 = 0 then 0 else (pkt.payload m).getD 4 0)) := by
  have hlen := pkt.payload_length m
  have hstrm := strmByte_payload m (show 5 ≤ pkt.size0 + pkt.size1 by omega)
  rw [packetEffect, movWritePacket_result ctx m (codecType_video.mpr hidx), Option.map_some,
    packetCode, if_neg (fun h => h.2 hc), MOVContext.record, hlen, ← hstrm]
  dsimp only
  rw [if_pos hc]
  have hbytes : emitted (packetWrites ctx.streams .video m pkt) = if pkt.size0 = 0 then
      pkt.payload m
      else be 4 (pkt.size0 + pkt.size1 - 4) ++ (pkt.payload m).drop 4 := by
    by_cases h0 : pkt.size0 = 0
    · rw [if_pos h0, packetWrites, if_pos hc, emitted_empty m h0]
    · have hproper : Proper pkt .video := ⟨by omega, by omega⟩
      rw [if_neg h0, packetWrites_cases ctx.streams m hproper, if_neg (fun h => h.2 hc)]
      rfl
  rw [hbytes]
  rfl

/-- the type decides on the entry of a key frame and on nothing else -/
theorem recorded_eq (ctx : AVFormatContext) (size : Nat) (duration : Int) (b : UInt8) :
    ctx.recorded size duration 0 = ctx.recorded size duration b ↔ b &&& 0x1f ≠ 5 := by
  constructor
  · intro h hb
    have hnum := congrArg (fun c : AVFormatContext => (c.priv_data.tracks .video).keyFrame_num) h
    simp [AVFormatContext.recorded, countKeyFrame_tracks, hb] at hnum
  · intro hb
    simp [AVFormatContext.recorded, MOVContext.countKeyFrame, hb]

/-- the two ways in which a video packet is written -/
theorem written_eq (payload : Bytes) :
    payload = be 4 (payload.length - 4) ++ payload.drop 4 ↔
      payload.take 4 = be 4 (payload.length - 4) := by
  constructor
  · intro h
    conv_lhs => rw [h]
    exact List.take_left' (be_length 4 _)
  · intro h
    rw [← h, List.take_append_drop]

/-- **The split of a payload.**  Two packets with the same payload of five bytes or more have the
same effect if and only if they are of the audio stream, or the first segment is empty in both or in
none, or the payload is such that it does not matter. -/
theorem packetEffect_iff {ctx : AVFormatContext} {m m' : Mem} {pkt pkt' : AVPacket}
    (h : SameContent m m' pkt pkt') (h5 : 5 ≤ (pkt.payload m).length)
    (hidx : pkt.stream_idx = 0 ∧ (ctx.streams .video).codec_id = codecIdH264 ∨ pkt.stream_idx = 1) :
    packetEffect ctx m pkt = packetEffect ctx m' pkt' ↔
      pkt.stream_idx = 1 ∨ (pkt.size0 = 0 ↔ pkt'.size0 = 0) ∨ Sized (pkt.payload m) := by
  rcases hidx with ⟨h0, hc⟩ | h1
  · have h0' : pkt'.stream_idx = 0 := h.stream_idx ▸ h0
    have hne : ¬ pkt.stream_idx = 1 := by omega
    rw [packetEffect_video m h0 hc h5, packetEffect_video m' h0' hc (h.payload ▸ h5), ← h.payload,
      ← h.duration, Sized, ← written_eq, ← recorded_eq ctx (pkt.payload m).length pkt.duration]
    generalize pkt.payload m = payload
    by_cases e : pkt.size0 = 0
    · by_cases e' : pkt'.size0 = 0
      · simp [e, e']
      · simp [e, e', hne]
    · by_cases e' : pkt'.size0 = 0
      · simp only [e, e', hne, if_true, if_false, Option.some.injEq, Prod.mk.injEq, true_and,
          false_or, iff_true]
        exact ⟨fun ⟨h1, h2⟩ => ⟨h1.symm, h2.symm⟩, fun ⟨h1, h2⟩ => ⟨h1.symm, h2.symm⟩⟩
      · simp [e, e']
  · have h1' : pkt'.stream_idx = 1 := h.stream_idx ▸ h1
    have hsize : pkt.size0 + pkt.size1 = pkt'.size0 + pkt'.size1 := by
      rw [← pkt.payload_length m, ← pkt'.payload_length m', h.payload]
    refine ⟨fun _ => Or.inl h1, fun _ => ?_⟩
    rw [packetEffect, packetEffect, movWritePacket_result ctx m (codecType_audio.mpr h1),
      movWritePacket_result ctx m' (codecType_audio.mpr h1'), Option.map_some, Option.map_some,
      packetWrites, packetWrites,
      MOVContext.record, MOVContext.record, hsize]
    dsimp only
    rw [emitted_plain, emitted_plain, h.payload]

/-- the same six bytes, cut behind the second and not cut -/
def cutPacket (size0 : Nat) : AVPacket := { smallPacket 0 size0 (6 - size0) with data1 := size0 }

/-- a coded slice of a key frame behind its start code -/
def keyMem : Mem := fun a => [0, 0, 0, 1, 0x65, 0x88].getD a.toNat 0

theorem cutPacket_same (n k : Nat) (hn : n ≤ 6) (hk : k ≤ 6) :
    SameContent keyMem keyMem (cutPacket n) (cutPacket k) := by
  have hpayload : ∀ i ≤ 6, (cutPacket i).payload keyMem = read keyMem 0 6 := by
    intro i hi
    have hsplit := read_add keyMem 0 i (6 - i)
    rw [Nat.add_sub_cancel' hi, Int.zero_add] at hsplit
    exact hsplit.symm
  exact ⟨(hpayload n hn).trans (hpayload k hk).symm, rfl, rfl⟩

theorem packetEffect_cut :
    packetEffect smallContext.headed keyMem (cutPacket 2)
      = packetEffect smallContext.headed keyMem (cutPacket 6) :=
  (packetEffect_iff (cutPacket_same 2 6 (by decide) (by decide)) (by decide)
    (Or.inl ⟨rfl, rfl⟩)).mpr
    (Or.inr (Or.inl (by decide)))

/-- with nothing in the first segment the start code stays, and the frame is not among the key
frames -/
theorem packetEffect_empty :
    SameContent keyMem keyMem (cutPacket 0) (cutPacket 6) ∧
      packetEffect smallContext.headed keyMem (cutPacket 0)
        ≠ packetEffect smallContext.headed keyMem (cutPacket 6) := by
  refine ⟨cutPacket_same 0 6 (by decide) (by decide), fun h => ?_⟩
  rw [packetEffect_video keyMem rfl rfl (by decide),
    packetEffect_video keyMem rfl rfl (by decide)] at h
  exact absurd (congrArg (fun r => r.map (·.2.1)) h) (by decide)

/-! ## packets that are answered with `-1` -/

/-- the video codec that was accepted last -/
def noteCodec (e : Option AvEncType) (ev : Steps.Event Driver DriverCall) : Option AvEncType :=
  match ev.action with
  | .ioctrl (.setTrackInfo (some info)) =>
    if info.mVideoEncType = .vencH264 ∨ info.mVideoEncType = .vencJpeg then
      some info.mVideoEncType else e
  | _ => e

def trackCodec (es : List (Steps.Event Driver DriverCall)) : Option AvEncType :=
  es.foldl noteCodec none

/-- the codec of the video stream is the one that was accepted last -/
def Coded (e : Option AvEncType) (d : Driver) : Prop :=
  (d.handle.ctx.streams .video).codec_id = if e = some .vencJpeg then codecIdMjpeg else codecIdH264

theorem Coded.same {e : Option AvEncType} {d d' : Driver} (h : Coded e d)
    (hs : d'.handle.ctx.streams = d.handle.ctx.streams) : Coded e d' := by
  rw [Coded, hs]
  exact h

theorem Coded.ioctrl {e : Option AvEncType} {d : Driver} (h : Coded e d) (cmd : IOCtrl) :
    Coded (noteCodec e ⟨d, .ioctrl cmd, d⟩)
      { d with handle := (mp4MuxerIOCtrl d.handle cmd).2 } := by
  cases cmd with
  | setTrackInfo data =>
    cases data with
    | none => exact h
    | some info =>
      rw [Coded] at h
      cases he : info.mVideoEncType <;>
        simp [Coded, noteCodec, mp4MuxerIOCtrl, setTrackInfo, setAudioInfo, he, h]
  | _ => exact h

theorem movWritePacket_streams {ctx ctx' : AVFormatContext} {m : Mem} {pkt : AVPacket} {code : Int}
    {ws : List CacheWrite} (h : movWritePacket ctx m pkt = some (code, ws, ctx')) :
    ctx'.streams = ctx.streams := by
  by_cases hlast : pkt.stream_idx = -1
  · rw [movWritePacket, if_pos hlast] at h
    obtain ⟨last, -, h⟩ := Option.map_eq_some_iff.mp h
    cases h
    rfl
  · cases ht : codecType pkt.stream_idx with
    | none =>
      rw [movWritePacket, if_neg hlast, ht] at h
      cases h
    | some t =>
      rw [movWritePacket_result ctx m ht] at h
      cases h
      rfl

theorem movWriteTrailer_streams {env : Env} {ctx : AVFormatContext}
    {r : List CacheOp × AVFormatContext} (h : movWriteTrailer env ctx = some r) :
    r.2.streams = ctx.streams := by
  obtain ⟨closed, hclosed, h⟩ := Option.bind_eq_some_iff.mp h
  obtain ⟨moov, -, rfl⟩ := Option.map_eq_some_iff.mp h
  have hstreams : closed.2.2.streams = ctx.streams := movWritePacket_streams hclosed
  exact hstreams

/-- what one call preserves -/
theorem Coded.step (e : Option AvEncType) (d : Driver) (c : DriverCall) (d' : Driver)
    (h : Coded e d) (hs : d.step c = some d') : Coded (noteCodec e ⟨d, c, d'⟩) d' := by
  obtain ⟨⟨code, ops, _⟩, hcall, rfl⟩ := Option.map_eq_some_iff.mp hs
  cases c with
  | ioctrl cmd =>
    cases hcall
    exact h.ioctrl cmd
  | writeCSD csdData idx =>
    cases hcall
    exact h
  | writeHeader memory =>
    rw [Driver.call, mp4MuxerWriteHeader] at hcall
    split_ifs at hcall
    · cases hcall
      exact h
    · obtain ⟨header, hheader, hcall⟩ := Option.map_eq_some_iff.mp hcall
      rw [movWriteHeader] at hheader
      split_ifs at hheader
      cases hheader
      cases hcall
      exact h
    · cases hcall
      exact h
  | writePacket m pkt =>
    rw [Driver.call, mp4MuxerWritePacket] at hcall
    split_ifs at hcall
    · cases hcall
      exact h
    · obtain ⟨r, hr, hcall⟩ := Option.map_eq_some_iff.mp hcall
      cases hcall
      exact h.same (movWritePacket_streams hr)
  | writeTrailer env filesize =>
    rw [Driver.call, mp4MuxerWriteTrailer] at hcall
    split_ifs at hcall
    obtain ⟨r, hr, hcall⟩ := Option.map_eq_some_iff.mp hcall
    cases hcall
    exact h.same (movWriteTrailer_streams hr)

/-- what a run preserves -/
theorem coded_run {raw_time : Int} {words keyframes : Nat → UInt32}
    {es : List (Steps.Event Driver DriverCall)} {d : Driver}
    (h : Steps.Run Driver.step (opened raw_time words keyframes) es d) :
    Coded (trackCodec es) d := by
  have h0 : Coded none (opened raw_time words keyframes) := rfl
  exact h.fold h0 Coded.step

theorem setTrack_sizes (mov : MOVContext) (idx t : CodecType) {f : MOVTrack → MOVTrack}
    (hf : ∀ trk, (f trk).stsz_size = trk.stsz_size) :
    ((mov.setTrack idx f).tracks t).stsz_size = (mov.tracks t).stsz_size := by
  rw [setTrack_tracks]
  split_ifs with h
  · rw [hf, h]
  · rfl

theorem switchStream_sizes (mov : MOVContext) (idx t : CodecType) :
    ((mov.switchStream idx).tracks t).stsz_size = (mov.tracks t).stsz_size := by
  have hstart :=
    setTrack_sizes (mov.store (.stco, idx) (UInt32.ofNat (mov.mdat_size + mov.mdat_start_pos))) idx
      t
    (f := fun trk => { trk with stco_size := trk.stco_size + 1 }) fun _ => rfl
  rw [MOVContext.switchStream, wrap_tracks]
  split
  · exact hstart
  · rename_i last _
    rw [wrap_tracks, MOVContext.endChunk]
    exact (setTrack_sizes _ last t (f := fun trk => { trk with stsc_size := trk.stsc_size + 1 })
      fun _ => rfl).trans
      hstart

/-- a packet of the video stream has an entry in `stsz`, whatever is answered -/
theorem record_sizes (mov : MOVContext) (streams : CodecType → AVCodecContext) (m : Mem)
    (pkt : AVPacket) :
    ((mov.record streams .video m pkt).tracks .video).stsz_size
      = (mov.tracks .video).stsz_size + 1 := by
  have hcount : ((mov.countPacket .video (pkt.size0 + pkt.size1)).tracks .video).stsz_size
      = (mov.tracks .video).stsz_size + 1 := by
    rw [MOVContext.countPacket, countSample_tracks]
    dsimp only
    rw [if_pos rfl]
    split_ifs with h
    · rw [switchStream_sizes]
    · rfl
  rw [MOVContext.record]
  dsimp only
  split_ifs with hc
  · rw [countKeyFrame_tracks, countDuration_tracks]
    exact hcount
  · rw [countDuration_tracks]
    exact hcount

/-- a packet of a video stream other than H.264 is answered with `-1` behind the tables -/
theorem call_rejected {d : Driver} (hw : d.mpCacheWriter = true) (m : Mem) {pkt : AVPacket}
    (h0 : pkt.stream_idx = 0) (hc : (d.handle.ctx.streams .video).codec_id ≠ codecIdH264) :
    ∃ ctx', d.call (.writePacket m pkt)
      = some (-1, [], { d with handle := { d.handle with ctx := ctx' } }) ∧
      (ctx'.priv_data.tracks .video).stsz_size
          = (d.handle.ctx.priv_data.tracks .video).stsz_size + 1 := by
  refine ⟨{ d.handle.ctx with
      priv_data := d.handle.ctx.priv_data.record d.handle.ctx.streams .video m pkt }, ?_,
    record_sizes d.handle.ctx.priv_data d.handle.ctx.streams m pkt⟩
  rw [Driver.call, mp4MuxerWritePacket, if_neg (by simp [hw]),
    movWritePacket_result _ m (codecType_video.mpr h0), packetCode, if_pos ⟨rfl, hc⟩, packetWrites,
    if_neg hc]
  rfl

/-- no other packet is answered with `-1` -/
theorem code_zero {d d' : Driver} (hw : d.mpCacheWriter = true) {m : Mem} {pkt : AVPacket}
    {code : Int} {ops : List CacheOp} (hcall : d.call (.writePacket m pkt) = some (code, ops, d'))
    (hno : ¬ (pkt.stream_idx = 0 ∧ (d.handle.ctx.streams .video).codec_id ≠ codecIdH264)) :
    code = 0 := by
  rw [Driver.call, mp4MuxerWritePacket, if_neg (by simp [hw])] at hcall
  obtain ⟨⟨code', ws, ctx'⟩, hr, hcall⟩ := Option.map_eq_some_iff.mp hcall
  cases hcall
  by_cases hlast : pkt.stream_idx = -1
  · rw [movWritePacket, if_pos hlast] at hr
    obtain ⟨last, -, hr⟩ := Option.map_eq_some_iff.mp hr
    cases hr
    rfl
  · cases ht : codecType pkt.stream_idx with
    | none =>
      rw [movWritePacket, if_neg hlast, ht] at hr
      cases hr
    | some t =>
      rw [movWritePacket_result _ m ht] at hr
      cases hr
      rw [packetCode, if_neg]
      rintro ⟨rfl, hc⟩
      exact hno ⟨codecType_video.mp ht, hc⟩

theorem Coded.jpeg {e : Option AvEncType} {d : Driver} (h : Coded e d) (he : e = some .vencJpeg) :
    (d.handle.ctx.streams .video).codec_id ≠ codecIdH264 := by
  rw [h, if_pos he]
  decide

/-- **A packet that is answered with `-1`.**  In every reachable state it leaves nothing behind if
and only if there is no cache writer yet, or it is not of the video stream, or the video codec that
was accepted last is not JPEG. -/
theorem rejected_unchanged_iff (raw_time : Int) (words keyframes : Nat → UInt32)
    {es : List (Steps.Event Driver DriverCall)} {d d' : Driver}
    (h : Steps.Run Driver.step (opened raw_time words keyframes) es d) {m : Mem} {pkt : AVPacket}
    {code : Int} {ops : List CacheOp} (hcall : d.call (.writePacket m pkt) = some (code, ops, d')) :
    (code = -1 → ops = [] ∧ d' = d) ↔
      ¬ (d.mpCacheWriter = true ∧ pkt.stream_idx = 0 ∧ trackCodec es = some .vencJpeg) := by
  have hcoded := coded_run h
  constructor
  · rintro hsame ⟨hw, h0, hjpeg⟩
    obtain ⟨ctx', hrej, hsize⟩ := call_rejected hw m h0 (hcoded.jpeg hjpeg)
    cases hcall.symm.trans hrej
    -- the answer is -1 and the table of sizes has grown
    have hctx :=
      congrArg (fun d : Driver => (d.handle.ctx.priv_data.tracks .video).stsz_size) (hsame rfl).2
    dsimp only at hctx
    omega
  · intro hno hcode
    cases hw : d.mpCacheWriter with
    | false =>
      rw [Driver.call, mp4MuxerWritePacket, if_pos hw] at hcall
      cases hcall
      exact ⟨rfl, rfl⟩
    | true =>
      have hzero := code_zero hw hcall (by
        rintro ⟨h0, hc⟩
        refine hno ⟨hw, h0, ?_⟩
        by_contra hj
        rw [hcoded, if_neg hj] at hc
        exact hc rfl)
      omega

/-- a session whose video codec is JPEG, up to its header -/
def jpegCalls : List DriverCall :=
  [.ioctrl (.setCacheMode 1), .ioctrl (.setCacheSize 4096), .ioctrl (.setStreamFilepath true),
    .ioctrl (.setTrackInfo (some { smallInfo with mVideoEncType := .vencJpeg })), .writeHeader true]

theorem jpeg_run : ∃ es d, Steps.Run Driver.step (opened 0 (fun _ => 0) (fun _ => 0)) es d ∧
    d.mpCacheWriter = true ∧ trackCodec es = some .vencJpeg :=
  ⟨_, _, Steps.run_events jpegCalls rfl, rfl, rfl⟩

/-- its first packet: what the theorem says of it -/
theorem rejected_unchanged_jpeg :
    ∃ es d d' ops, Steps.Run Driver.step (opened 0 (fun _ => 0) (fun _ => 0)) es d ∧
    d.call (.writePacket keyMem (cutPacket 6)) = some (-1, ops, d') ∧ ¬ (ops = [] ∧ d' = d) := by
  obtain ⟨es, d, hrun, hw, hjpeg⟩ := jpeg_run
  obtain ⟨ctx', hcall, -⟩ :=
    call_rejected hw keyMem (show (cutPacket 6).stream_idx = 0 from rfl)
      ((coded_run hrun).jpeg hjpeg)
  refine ⟨es, d, _, _, hrun, hcall, fun h => ?_⟩
  exact (rejected_unchanged_iff 0 _ _ hrun hcall).mp (fun _ => h) ⟨hw, rfl, hjpeg⟩

/-- the packet has an entry in `stsz`, although it was answered with `-1` -/
theorem rejected_counted :
    ∃ es d d', Steps.Run Driver.step (opened 0 (fun _ => 0) (fun _ => 0)) es d ∧
    d.call (.writePacket keyMem (cutPacket 6)) = some (-1, [], d') ∧
      (d'.handle.ctx.priv_data.tracks .video).stsz_size
        = (d.handle.ctx.priv_data.tracks .video).stsz_size + 1 := by
  obtain ⟨es, d, hrun, hw, hjpeg⟩ := jpeg_run
  obtain ⟨ctx', hcall, hsize⟩ :=
    call_rejected hw keyMem (show (cutPacket 6).stream_idx = 0 from rfl)
      ((coded_run hrun).jpeg hjpeg)
  exact ⟨es, d, _, hrun, hcall, hsize⟩

end Pluto.Mp4

import Pluto.Mp4.Tables

/-!
# A run of packets

`packetWrites` and `MOVContext.record` are the two results of `movWritePacket`: the writes of a
packet, and the context behind it.

* `sample`               the bytes that a packet has in the file;
* `record_mdat`, `Counted.record`, `Timed.record`, `Areas.record`   what one packet preserves;
* `packets_run`          what a run of packets preserves, by induction over the calls.
-/

namespace Pluto.Mp4
open Octets SampleTables

/-! ## one packet -/

/-- the writes of a packet of stream `t` -/
def packetWrites (streams : CodecType → AVCodecContext) (t : CodecType) (m : Mem) (pkt : AVPacket) :
    List CacheWrite :=
  match t with
  | .audio => writeSample m pkt false
  | .video =>
    if (streams .video).codec_id = codecIdH264 then writeSample m pkt (pkt.size0 + pkt.size1 ≠ 0)
      else []

/-- the context behind a packet of stream `t` -/
def MOVContext.record (mov : MOVContext) (streams : CodecType → AVCodecContext) (t : CodecType)
    (m : Mem) (pkt : AVPacket) : MOVContext :=
  let size := pkt.size0 + pkt.size1
  let mov := mov.countPacket t size
  match t with
  | .audio => { mov with mdat_size := mov.mdat_size + size }
  | .video =>
    let mov := mov.countDuration pkt.duration
    if (streams .video).codec_id = codecIdH264 then
      { mov.countKeyFrame (strmByte m pkt) with
        mdat_size := (mov.countKeyFrame (strmByte m pkt)).mdat_size + size }
    else mov

/-- `-1` for a video stream other than H.264 -/
def packetCode (streams : CodecType → AVCodecContext) (t : CodecType) : Int :=
  if t = .video ∧ (streams .video).codec_id ≠ codecIdH264 then -1 else 0

/-- a packet of one of the two streams is not the closing one -/
theorem stream_idx_ne_last {pkt : AVPacket} {t : CodecType}
    (ht : codecType pkt.stream_idx = some t) :
    pkt.stream_idx ≠ -1 := by
  intro h
  rw [h, show codecType (-1) = none by decide] at ht
  cases ht

/-- the three results of a packet of stream `t` -/
theorem movWritePacket_result (ctx : AVFormatContext) (m : Mem) {pkt : AVPacket} {t : CodecType}
    (ht : codecType pkt.stream_idx = some t) :
    movWritePacket ctx m pkt = some (packetCode ctx.streams t, packetWrites ctx.streams t m pkt,
      { ctx with priv_data := ctx.priv_data.record ctx.streams t m pkt }) := by
  unfold movWritePacket
  dsimp only
  rw [if_neg (stream_idx_ne_last ht), ht]
  cases t with
  | audio => rfl
  | video =>
    by_cases hc : (ctx.streams .video).codec_id = codecIdH264
    · simp [packetCode, packetWrites, MOVContext.record, hc]
    · simp [packetCode, packetWrites, MOVContext.record, hc]

theorem movWritePacket_eq (ctx : AVFormatContext) (m : Mem) {pkt : AVPacket} {t : CodecType}
    (ht : codecType pkt.stream_idx = some t) :
    ∃ code, movWritePacket ctx m pkt = some (code, packetWrites ctx.streams t m pkt,
      { ctx with priv_data := ctx.priv_data.record ctx.streams t m pkt }) :=
  ⟨_, movWritePacket_result ctx m ht⟩

theorem record_setup (mov : MOVContext) (streams : CodecType → AVCodecContext) (t : CodecType)
    (m : Mem) (pkt : AVPacket) : (mov.record streams t m pkt).setup = mov.setup := by
  have hcount := countPacket_setup mov t (pkt.size0 + pkt.size1)
  unfold MOVContext.record
  cases t with
  | audio => exact hcount
  | video =>
    have hduration :=
      countDuration_setup (mov.countPacket .video (pkt.size0 + pkt.size1)) pkt.duration
    dsimp only
    split
    · exact (countKeyFrame_setup _ _).trans (hduration.trans hcount)
    · exact hduration.trans hcount

/-- the bytes of a packet in the file: a video packet has its size in place of the start code -/
def sample (m : Mem) (pkt : AVPacket) : CodecType → Bytes
  | .video => be 4 (pkt.size0 + pkt.size1 - 4) ++ (pkt.payload m).drop 4
  | .audio => pkt.payload m

/-- a video packet with a start code and a byte behind it, the first byte of it in the first
segment -/
def Proper (pkt : AVPacket) : CodecType → Prop
  | .video => 1 ≤ pkt.size0 ∧ 5 ≤ pkt.size0 + pkt.size1
  | .audio => True

theorem emitted_memory (m : Mem) (a : Int) (n : Nat) : emitted [⟨.memory m a, n⟩] = read m a n := by
  rw [emitted_cons, emitted_nil, List.append_nil]
  rfl

/-- a segment that is empty is not written -/
theorem emitted_segment (m : Mem) (a : Int) (n : Nat) :
    emitted (if n ≠ 0 then [⟨.memory m a, n⟩] else []) = read m a n := by
  by_cases hn : n = 0
  · rw [if_neg fun h => h hn, hn]
    rfl
  · rw [if_pos hn, emitted_memory]

theorem emitted_plain (m : Mem) (pkt : AVPacket) :
    emitted (writeSample m pkt false) = pkt.payload m := by
  have h0 := emitted_segment m pkt.data0 pkt.size0
  have h1 := emitted_segment m pkt.data1 pkt.size1
  unfold writeSample
  dsimp only
  rw [emitted_append]
  exact congrArg₂ _ h0 h1

theorem drop_read (m : Mem) (a : Int) {n k : Nat} (h : k ≤ n) :
    (read m a n).drop k = read m (a + k) (n - k) := by
  obtain ⟨r, rfl⟩ := Nat.exists_eq_add_of_le h
  rw [read_add, List.drop_left' (read_length m a k), Nat.add_sub_cancel_left]

theorem memory_bytes (m : Mem) (a n : Int) :
    (CacheWrite.mk (.memory m a) n).bytes = read m a n.toNat := rfl

/-- the four bytes of the start code are left out, wherever the segments are cut -/
theorem emitted_special (m : Mem) {pkt : AVPacket} (h : Proper pkt .video) :
    emitted (writeSample m pkt true) = sample m pkt .video := by
  obtain ⟨h0, h5⟩ := h
  have hsize : u32 ((pkt.size0 : Int) + pkt.size1 - 4) = (pkt.size0 + pkt.size1 - 4) % 256 ^ 4 := by
    unfold u32
    omega
  have hhead : be 4 (u32 ((pkt.size0 : Int) + pkt.size1 - 4))
      = be 4 (pkt.size0 + pkt.size1 - 4) := by
    rw [hsize, be_mod]
  unfold writeSample sample AVPacket.payload AVPacket.seg0 AVPacket.seg1
  dsimp only
  rw [emitted_append, if_pos (by omega : pkt.size0 ≠ 0), if_pos rfl, emitted_cons,
    CacheWrite.all_bytes, hhead, List.append_assoc]
  congr 1
  by_cases hle : pkt.size0 ≤ 4
  · -- the start code ends in the second segment, or with the first
    have hskip : (true && decide (pkt.size0 ≠ 0) && decide (pkt.size0 ≤ 4)) = true := by
      rw [decide_eq_true hle, decide_eq_true (by omega : pkt.size0 ≠ 0)]
      rfl
    have haddr : pkt.data1 + (4 - (pkt.size0 : Int))
        = pkt.data1 + ((4 - pkt.size0 : Nat) : Int) := by omega
    have hlen : ((pkt.size1 : Int) - (4 - pkt.size0)).toNat = pkt.size1 - (4 - pkt.size0) := by
      omega
    rw [if_pos hle, emitted_nil, List.nil_append, hskip, if_pos (by omega : pkt.size1 ≠ 0),
      if_pos rfl, emitted_cons, emitted_nil, List.append_nil, memory_bytes, hlen, haddr,
      List.drop_append, read_length,
      List.drop_of_length_le (by rw [read_length]; exact hle), List.nil_append,
      drop_read _ _ (by omega)]
  · have hskip : (true && decide (pkt.size0 ≠ 0) && decide (pkt.size0 ≤ 4)) = false := by
      rw [decide_eq_false hle]
      exact Bool.and_false _
    have hlen : ((pkt.size0 : Int) - 4).toNat = pkt.size0 - 4 := by omega
    have hrest := emitted_segment m pkt.data1 pkt.size1
    rw [if_neg hle, hskip, emitted_cons, emitted_nil, List.append_nil, memory_bytes, hlen,
      List.drop_append, read_length, Nat.sub_eq_zero_of_le (by omega : 4 ≤ pkt.size0),
      List.drop_zero, drop_read _ _ (by omega)]
    exact congrArg _ hrest

theorem sample_length (m : Mem) {pkt : AVPacket} {t : CodecType} (h : Proper pkt t) :
    (sample m pkt t).length = pkt.size0 + pkt.size1 := by
  cases t with
  | audio => exact pkt.payload_length m
  | video =>
    have h5 := h.2
    rw [sample, List.length_append, be_length, List.length_drop, pkt.payload_length]
    omega

/-- a packet of a video stream other than H.264 is not written -/
theorem packetWrites_cases (streams : CodecType → AVCodecContext) (m : Mem) {pkt : AVPacket}
    {t : CodecType} (h : Proper pkt t) :
    emitted (packetWrites streams t m pkt)
      = if t = .video ∧ (streams .video).codec_id ≠ codecIdH264 then [] else sample m pkt t := by
  cases t with
  | audio => exact (emitted_plain m pkt).trans (if_neg fun hc => nomatch hc.1).symm
  | video =>
    have h5 := h.2
    unfold packetWrites
    dsimp only
    by_cases hc : (streams .video).codec_id = codecIdH264
    · rw [if_pos hc, if_neg fun hn => hn.2 hc,
        decide_eq_true (by omega : pkt.size0 + pkt.size1 ≠ 0)]
      exact emitted_special m h
    · rw [if_neg hc, if_pos ⟨rfl, hc⟩]
      rfl

theorem countPacket_mdat (mov : MOVContext) (t : CodecType) (size : Nat) :
    (mov.countPacket t size).mdat_size = mov.mdat_size := by
  have hswitch : (mov.switchStream t).mdat_size = mov.mdat_size := by
    unfold MOVContext.switchStream
    rw [wrap_mdat]
    dsimp only
    split
    · rfl
    · rw [wrap_mdat, MOVContext.endChunk, setTrack_mdat, store_mdat, setTrack_mdat, store_mdat]
  unfold MOVContext.countPacket MOVContext.countSample
  rw [wrap_mdat]
  dsimp only
  split
  · exact hswitch
  · rfl

/-- what a packet adds to `mdat_size` -/
theorem record_size (mov : MOVContext) (streams : CodecType → AVCodecContext) (t : CodecType)
    (m : Mem) (pkt : AVPacket) :
    (mov.record streams t m pkt).mdat_size
      = mov.mdat_size + if t = .video ∧ (streams .video).codec_id ≠ codecIdH264 then 0
        else pkt.size0 + pkt.size1 := by
  have hcount := countPacket_mdat mov t (pkt.size0 + pkt.size1)
  unfold MOVContext.record
  cases t with
  | audio =>
    rw [if_neg fun hc => (nomatch hc.1), ← hcount]
  | video =>
    have hduration : ((mov.countPacket .video (pkt.size0 + pkt.size1)).countDuration
        pkt.duration).mdat_size
        = mov.mdat_size := by
      rw [MOVContext.countDuration, wrap_mdat, setTrack_mdat, store_mdat, hcount]
    dsimp only
    by_cases hc : (streams .video).codec_id = codecIdH264
    · rw [if_pos hc, if_neg fun hn => hn.2 hc, ← hduration]
      unfold MOVContext.countKeyFrame
      dsimp only
      split <;> rfl
    · rw [if_neg hc, if_pos ⟨rfl, hc⟩]
      exact hduration

/-- `mdat_size` counts the bytes that are written -/
theorem record_mdat (mov : MOVContext) (streams : CodecType → AVCodecContext) (m : Mem)
    {pkt : AVPacket} {t : CodecType} (h : Proper pkt t) :
    (mov.record streams t m pkt).mdat_size
      = mov.mdat_size + (emitted (packetWrites streams t m pkt)).length := by
  rw [record_size, packetWrites_cases streams m h]
  split
  · rfl
  · rw [sample_length m h]

theorem countDuration_tracks (mov : MOVContext) (duration : Int) (u : CodecType) :
    (mov.countDuration duration).tracks u = { mov.tracks u with
      stts_size := (mov.tracks u).stts_size + if u = .video then 1 else 0 } := by
  unfold MOVContext.countDuration
  rw [wrap_tracks, setTrack_tracks]
  cases u <;> rfl

theorem countKeyFrame_tracks (mov : MOVContext) (b : UInt8) (u : CodecType) :
    (mov.countKeyFrame b).tracks u = { mov.tracks u with
      keyFrame_num :=
      (mov.tracks u).keyFrame_num + if u = .video ∧ b &&& 0x1f = 5 then 1 else 0 } := by
  unfold MOVContext.countKeyFrame
  by_cases hb : b &&& 0x1f = 5
  · rw [if_pos hb]
    dsimp only
    rw [setTrack_tracks]
    cases u with
    | video => rw [if_pos rfl, if_pos ⟨rfl, hb⟩]
    | audio => rfl
  · have hno : ¬ (u = .video ∧ b &&& 0x1f = 5) := fun hc => hb hc.2
    rw [if_neg hb, if_neg hno]
    rfl

theorem countKeyFrame_last (mov : MOVContext) (b : UInt8) :
    (mov.countKeyFrame b).last_stream_idx = mov.last_stream_idx ∧
      (mov.countKeyFrame b).stsc_cnt = mov.stsc_cnt := by
  unfold MOVContext.countKeyFrame
  split <;> exact ⟨rfl, rfl⟩

theorem countDuration_last (mov : MOVContext) (duration : Int) :
    (mov.countDuration duration).last_stream_idx = mov.last_stream_idx ∧
      (mov.countDuration duration).stsc_cnt = mov.stsc_cnt := by
  rw [MOVContext.countDuration, wrap_last, wrap_cnt]
  exact ⟨rfl, rfl⟩

theorem record_last (mov : MOVContext) (streams : CodecType → AVCodecContext) (t : CodecType)
    (m : Mem) (pkt : AVPacket) :
    (mov.record streams t m pkt).last_stream_idx = some t := by
  have hcount : (mov.countPacket t (pkt.size0 + pkt.size1)).last_stream_idx = some t :=
    wrap_last _ _
  unfold MOVContext.record
  cases t with
  | audio => exact hcount
  | video =>
    have hduration : ((mov.countPacket .video (pkt.size0 + pkt.size1)).countDuration
        pkt.duration).last_stream_idx
        = some .video := (wrap_last _ _).trans hcount
    dsimp only
    split
    · exact (countKeyFrame_last _ _).1.trans hduration
    · exact hduration

theorem Counted.record {mov : MOVContext} {x : Layout CodecType} (h : Counted mov x) (base : Nat)
    (streams : CodecType → AVCodecContext) (t : CodecType) (b : Bytes) (m : Mem) (pkt : AVPacket) :
    Counted (mov.record streams t m pkt) (x.add base (t, b)) := by
  have hc := h.packet base t b (pkt.size0 + pkt.size1)
  cases t with
  | audio => exact ⟨hc.last, hc.stsc_cnt, hc.stsz, hc.stco, hc.stsc⟩
  | video =>
    have hd : Counted ((mov.countPacket .video (pkt.size0 + pkt.size1)).countDuration pkt.duration)
        (x.add base (.video, b)) := by
      obtain ⟨hlast, hcnt⟩ :=
        countDuration_last (mov.countPacket .video (pkt.size0 + pkt.size1)) pkt.duration
      refine ⟨hlast.trans hc.last, fun u c hu => hcnt.trans (hc.stsc_cnt u c hu), ?_, ?_, ?_⟩
      all_goals
        intro u
        rw [countDuration_tracks]
      · exact hc.stsz u
      · exact hc.stco u
      · exact hc.stsc u
    unfold MOVContext.record
    dsimp only
    split
    · obtain ⟨hlast, hcnt⟩ := countKeyFrame_last
        ((mov.countPacket .video (pkt.size0 + pkt.size1)).countDuration pkt.duration)
          (strmByte m pkt)
      refine ⟨hlast.trans hd.last, fun u c hu => hcnt.trans (hd.stsc_cnt u c hu), ?_, ?_, ?_⟩
      all_goals
        intro u
        dsimp only
        rw [countKeyFrame_tracks]
      · exact hd.stsz u
      · exact hd.stco u
      · exact hd.stsc u
    · exact hd

theorem Timed.record {mov : MOVContext} {x : Layout CodecType} (h : Timed mov) (hx : Counted mov x)
    (streams : CodecType → AVCodecContext) (t : CodecType) (m : Mem) (pkt : AVPacket) :
    Timed (mov.record streams t m pkt) := by
  obtain ⟨hstts, hkey⟩ := h
  have hcount := countPacket_tracks hx t (pkt.size0 + pkt.size1) .video
  cases t with
  | audio =>
    have htracks : ((mov.record streams .audio m pkt).tracks .video)
        = (mov.countPacket .audio (pkt.size0 + pkt.size1)).tracks .video := rfl
    refine ⟨?_, ?_⟩
    all_goals
      rw [htracks, hcount]
    · exact hstts
    · exact hkey
  | video =>
    have htimed : Timed ((mov.countPacket .video (pkt.size0 + pkt.size1)).countDuration
        pkt.duration) ∧
        (mov.tracks .video).keyFrame_num + 1
          ≤ (((mov.countPacket .video (pkt.size0 + pkt.size1)).countDuration pkt.duration).tracks
              .video).stsz_size := by
      refine ⟨⟨?_, ?_⟩, ?_⟩
      all_goals
        rw [countDuration_tracks, hcount]
      · exact congrArg (· + 1) hstts
      · exact Nat.le_succ_of_le hkey
      · exact Nat.succ_le_succ hkey
    have hkeys :
        (((mov.countPacket .video (pkt.size0 + pkt.size1)).countDuration pkt.duration).tracks
          .video).keyFrame_num
        = (mov.tracks .video).keyFrame_num := by
      rw [countDuration_tracks, hcount]
    unfold MOVContext.record
    dsimp only
    split
    · refine ⟨?_, ?_⟩
      all_goals
        dsimp only
        rw [countKeyFrame_tracks]
        dsimp only
      · exact htimed.1.stts
      · rw [hkeys]
        refine le_trans (Nat.add_le_add_left ?_ _) htimed.2
        split
        · exact le_rfl
        · exact Nat.zero_le 1
    · exact htimed.1

/-! ## the words of the tables -/

/-- the words of all tables, from chunk offsets, chunk lengths, sample sizes and durations -/
def tableWords (offsets counts sizes : CodecType → List Nat) (durations : List UInt32) :
    Table → List UInt32
  | (.stco, t) => (offsets t).map UInt32.ofNat
  | (.stsc, t) => (counts t).map UInt32.ofNat
  | (.stsz, t) => (sizes t).map UInt32.ofNat
  | (.stts, .video) => durations
  | (.stts, .audio) => []

section
variable (offsets counts sizes : CodecType → List Nat) (durations : List UInt32)

theorem tableWords_stco (t : CodecType) (v : Nat) :
    Function.update (tableWords offsets counts sizes durations) (.stco, t)
        (tableWords offsets counts sizes durations (.stco, t) ++ [UInt32.ofNat v])
      = tableWords (Function.update offsets t (offsets t ++ [v])) counts sizes durations := by
  funext k
  obtain ⟨id, u⟩ := k
  cases id <;> cases t <;> cases u <;> simp [tableWords, Function.update]

theorem tableWords_stsc (t : CodecType) (v : Nat) :
    Function.update (tableWords offsets counts sizes durations) (.stsc, t)
        (tableWords offsets counts sizes durations (.stsc, t) ++ [UInt32.ofNat v])
      = tableWords offsets (Function.update counts t (counts t ++ [v])) sizes durations := by
  funext k
  obtain ⟨id, u⟩ := k
  cases id <;> cases t <;> cases u <;> simp [tableWords, Function.update]

theorem tableWords_stsz (t : CodecType) (v : Nat) :
    Function.update (tableWords offsets counts sizes durations) (.stsz, t)
        (tableWords offsets counts sizes durations (.stsz, t) ++ [UInt32.ofNat v])
      = tableWords offsets counts (Function.update sizes t (sizes t ++ [v])) durations := by
  funext k
  obtain ⟨id, u⟩ := k
  cases id <;> cases t <;> cases u <;> simp [tableWords, Function.update]

theorem tableWords_stts (v : UInt32) :
    Function.update (tableWords offsets counts sizes durations) (.stts, .video)
        (tableWords offsets counts sizes durations (.stts, .video) ++ [v])
      = tableWords offsets counts sizes (durations ++ [v]) := by
  funext k
  obtain ⟨id, u⟩ := k
  cases id <;> cases u <;> simp [tableWords, Function.update]

end

def chunkOffsets (x : Layout CodecType) (t : CodecType) : List Nat := (x.chunks t).map Chunk.offset

def chunkLengths (cs : CodecType → List Chunk) (t : CodecType) : List Nat :=
  (cs t).map fun c => c.samples.length

def sampleSizes (x : Layout CodecType) (t : CodecType) : List Nat :=
  (samplesOf (x.chunks t)).map List.length

/-- the tables have room for the chunks and samples of a layout -/
structure Room (x : Layout CodecType) : Prop where
  chunks : ∀ t, (x.chunks t).length ≤ 8192
  samples : ∀ t, (samplesOf (x.chunks t)).length ≤ 32768

/-- the pointers to the areas are those of `Mp4MuxerOpen` -/
structure Placed (mov : MOVContext) : Prop where
  start : mov.cache_start_ptr = cacheStart
  stop : mov.cache_end_ptr = cacheEnd
  next : mov.cache_read_ptr = cacheStart

theorem Placed.congr {a b : MOVContext} (h : Placed a) (hs : b.setup = a.setup) : Placed b :=
  ⟨(congrArg Setup.cache_start_ptr hs).trans h.start,
    (congrArg Setup.cache_end_ptr hs).trans h.stop, (congrArg Setup.cache_read_ptr hs).trans h.next⟩

theorem chunk_real (id : ChunkId) (t : CodecType) (h : id ≠ .stts) : Table.Real (id, t) :=
  fun hk => h (congrArg Prod.fst hk)

theorem duration_real : Table.Real (.stts, .video) := fun hk => nomatch hk

/-- the end of a chunk of stream `last` -/
theorem Areas.endChunk {mov : MOVContext} {offsets counts sizes : CodecType → List Nat}
    {durations : List UInt32} (h : Areas mov (tableWords offsets counts sizes durations))
    (last : CodecType) (hroom : (counts last).length < 8192) :
    Areas (mov.endChunk last)
      (tableWords offsets (Function.update counts last (counts last ++ [mov.stsc_cnt])) sizes
        durations) := by
  have hstore := h.store (chunk_real .stsc last (by decide))
    (by simpa [tableWords, cacheSize] using hroom) (UInt32.ofNat mov.stsc_cnt)
  rw [tableWords_stsc] at hstore
  exact hstore.congr rfl rfl

theorem Areas.switch {mov : MOVContext} {offsets counts sizes : CodecType → List Nat}
    {durations : List UInt32} (h : Areas mov (tableWords offsets counts sizes durations))
    (hp : Placed mov) (idx : CodecType) (hstco : (offsets idx).length < 8192)
    (hstsc : ∀ last, mov.last_stream_idx = some last → (counts last).length < 8192) :
    Areas (mov.switchStream idx)
      (tableWords (Function.update offsets idx
        (offsets idx ++ [mov.mdat_size + mov.mdat_start_pos]))
        (mov.last_stream_idx.elim counts fun last =>
          Function.update counts last (counts last ++ [mov.stsc_cnt]))
        sizes durations) := by
  have hstart := h.store (chunk_real .stco idx (by decide))
    (by simpa [tableWords, cacheSize] using hstco)
      (UInt32.ofNat (mov.mdat_size + mov.mdat_start_pos))
  rw [tableWords_stco] at hstart
  have hnew : Areas
      ((mov.store (.stco, idx) (UInt32.ofNat (mov.mdat_size + mov.mdat_start_pos))).setTrack idx
          fun trk => { trk with stco_size := trk.stco_size + 1 }) _ := hstart.congr rfl rfl
  have hstored : Placed
      ((mov.store (.stco, idx) (UInt32.ofNat (mov.mdat_size + mov.mdat_start_pos))).setTrack idx
      fun trk => { trk with stco_size := trk.stco_size + 1 }) := ⟨hp.start, hp.stop, hp.next⟩
  unfold MOVContext.switchStream
  dsimp only
  split
  · rename_i hlast
    have hnone : mov.last_stream_idx = none := hlast
    rw [hnone]
    refine Areas.wrap ?_ (chunk_real .stco idx (by decide)) ?_ ?_
    · exact hnew.congr rfl rfl
    · exact hstored.start
    · exact hstored.stop
  · rename_i last hlast
    have hsome : mov.last_stream_idx = some last := hlast
    have hend := hnew.endChunk last (hstsc last hsome)
    have hended := hstored.congr (endChunk_setup _ last)
    have hwrap := hend.wrap (chunk_real .stsc last (by decide)) hended.start hended.stop
    have hplaced := hended.congr (wrap_setup _ (.stsc, last))
    rw [hsome]
    refine Areas.wrap ?_ (chunk_real .stco idx (by decide)) ?_ ?_
    · exact hwrap.congr rfl rfl
    · exact hplaced.start
    · exact hplaced.stop

theorem Areas.countSample {mov : MOVContext} {offsets counts sizes : CodecType → List Nat}
    {durations : List UInt32} (h : Areas mov (tableWords offsets counts sizes durations))
    (hp : Placed mov) (idx : CodecType) (size : Nat) (hroom : (sizes idx).length < 32768) :
    Areas (mov.countSample idx size)
      (tableWords offsets counts (Function.update sizes idx (sizes idx ++ [size])) durations) := by
  have hlast : Areas { mov with last_stream_idx := some idx }
      (tableWords offsets counts sizes durations) :=
    h.congr rfl rfl
  have hstore := hlast.store (chunk_real .stsz idx (by decide))
    (by simpa [tableWords, cacheSize] using hroom) (UInt32.ofNat size)
  rw [tableWords_stsz] at hstore
  unfold MOVContext.countSample
  refine Areas.wrap ?_ (chunk_real .stsz idx (by decide)) ?_ ?_
  · exact hstore.congr rfl rfl
  · exact hp.start
  · exact hp.stop

/-- **One packet** in words: a chunk offset and a chunk length where the stream changes, and a
sample size -/
theorem Areas.packet {mov : MOVContext} {offsets counts sizes : CodecType → List Nat}
    {durations : List UInt32} (h : Areas mov (tableWords offsets counts sizes durations))
    (hp : Placed mov) (t : CodecType) (size : Nat) (hsize : (sizes t).length < 32768)
    (hswitch : some t ≠ mov.last_stream_idx →
      (offsets t).length < 8192 ∧ ∀ last, mov.last_stream_idx = some last →
      (counts last).length < 8192) :
    Areas (mov.countPacket t size) (tableWords
      (if some t ≠ mov.last_stream_idx then
          Function.update offsets t (offsets t ++ [mov.mdat_size + mov.mdat_start_pos])
        else offsets)
      (if some t ≠ mov.last_stream_idx then
          mov.last_stream_idx.elim counts fun last =>
            Function.update counts last (counts last ++ [mov.stsc_cnt])
        else counts)
      (Function.update sizes t (sizes t ++ [size])) durations) := by
  unfold MOVContext.countPacket
  by_cases hs : some t ≠ mov.last_stream_idx
  · obtain ⟨hstco, hstsc⟩ := hswitch hs
    rw [if_pos hs, if_pos hs, if_pos hs]
    exact (h.switch hp t hstco hstsc).countSample (hp.congr (switchStream_setup mov t)) t size hsize
  · rw [if_neg hs, if_neg hs, if_neg hs]
    exact h.countSample hp t size hsize

theorem Areas.countDuration {mov : MOVContext} {offsets counts sizes : CodecType → List Nat}
    {durations : List UInt32} (h : Areas mov (tableWords offsets counts sizes durations))
    (hp : Placed mov) (duration : Int) (hroom : durations.length < 32768) :
    Areas (mov.countDuration duration)
      (tableWords offsets counts sizes (durations ++ [UInt32.ofInt duration])) := by
  have hstore := h.store (k := (.stts, .video)) duration_real
    (by simpa [tableWords, cacheSize] using hroom) (UInt32.ofInt duration)
  rw [tableWords_stts] at hstore
  unfold MOVContext.countDuration
  refine Areas.wrap ?_ duration_real ?_ ?_
  · exact hstore.congr rfl rfl
  · exact hp.start
  · exact hp.stop

/-! ## the words of a layout -/

/-- the words of the tables of a layout; `ended` are the chunks that count as ended -/
def layoutWords (x : Layout CodecType) (ended : CodecType → List Chunk) (durations : List UInt32) :
    Table → List UInt32 :=
  tableWords (chunkOffsets x) (chunkLengths ended) (sampleSizes x) durations

section
variable (base : Nat) (x : Layout CodecType) (t : CodecType) (b : Bytes)

theorem sampleSizes_add :
    sampleSizes (x.add base (t, b))
      = Function.update (sampleSizes x) t (sampleSizes x t ++ [b.length]) := by
  funext u
  unfold sampleSizes
  rw [add_samples, List.map_append, Function.update_apply]
  by_cases hu : u = t
  · subst hu
    rw [if_pos rfl, if_pos rfl]
    rfl
  · rw [if_neg hu, if_neg (Ne.symm hu), List.map_nil, List.append_nil]

theorem chunkOffsets_switch (hs : x.Switches t) :
    chunkOffsets (x.add base (t, b))
      = Function.update (chunkOffsets x) t (chunkOffsets x t ++ [base + x.size]) := by
  funext u
  unfold chunkOffsets
  rw [add_offsets, Function.update_apply]
  by_cases hu : u = t
  · subst hu
    rw [if_pos rfl, if_pos ⟨rfl, hs⟩]
  · have hne : ¬ (t = u ∧ x.Switches u) := fun hc => hu hc.1.symm
    rw [if_neg hu, if_neg hne, List.append_nil]

theorem chunkOffsets_stay (hs : ¬ x.Switches t) :
    chunkOffsets (x.add base (t, b)) = chunkOffsets x := by
  funext u
  have hno : ¬ (t = u ∧ x.Switches u) := by
    rintro ⟨rfl, hc⟩
    exact hs hc
  unfold chunkOffsets
  rw [add_offsets, if_neg hno, List.append_nil]

theorem chunkLengths_stay (hs : ¬ x.Switches t) :
    chunkLengths (x.add base (t, b)).closed = chunkLengths x.closed := by
  funext u
  have hlen := ended_length x t u
  have hno : ¬ (x.Switches t ∧ x.current.map Prod.fst = some u) := fun hc => hs hc.1
  rw [if_neg hno] at hlen
  unfold chunkLengths
  rw [add_closed, List.eq_nil_of_length_eq_zero hlen, List.append_nil]

theorem chunkLengths_first (hcur : x.current = none) :
    chunkLengths (x.add base (t, b)).closed = chunkLengths x.closed := by
  funext u
  unfold chunkLengths
  rw [add_closed, Layout.ended, hcur]
  show List.map _ (x.closed u ++ if t = u then [] else []) = _
  rw [ite_self, List.append_nil]

theorem chunkLengths_switch {last : CodecType} {c : Chunk} (hcur : x.current = some (last, c))
    (hs : x.Switches t) :
    chunkLengths (x.add base (t, b)).closed
      = Function.update (chunkLengths x.closed) last
        (chunkLengths x.closed last ++ [c.samples.length]) := by
  have hne : t ≠ last := by
    rintro rfl
    exact hs (congrArg (Option.map Prod.fst) hcur)
  funext u
  unfold chunkLengths
  rw [add_closed, Layout.ended, hcur, Function.update_apply, openChunk]
  by_cases hu : u = last
  · subst hu
    rw [if_pos rfl, if_neg hne, if_pos rfl, List.map_append]
    rfl
  · rw [if_neg hu, if_neg (Ne.symm hu), ite_self, List.append_nil]

end

theorem Areas.countPacket {mov : MOVContext} {x : Layout CodecType} {durations : List UInt32}
    (h : Areas mov (layoutWords x x.closed durations)) (hp : Placed mov) (hx : Counted mov x)
    {base : Nat} (hplace : mov.mdat_size + mov.mdat_start_pos = base + x.size) (t : CodecType)
    (b : Bytes) (hroom : Room (x.add base (t, b))) :
    Areas (mov.countPacket t b.length)
      (layoutWords (x.add base (t, b)) (x.add base (t, b)).closed durations) := by
  have hsize : (sampleSizes x t).length < 32768 := by
    have hle := hroom.samples t
    rw [add_samples, if_pos rfl, List.length_append] at hle
    rw [sampleSizes, List.length_map]
    exact hle
  have hcount := le_add_count base x (t, b)
  unfold layoutWords at h ⊢
  have hlast := hx.last
  have hpacket := h.packet hp t b.length hsize fun hn => by
    have hs := (switches_iff hx t).mp hn
    refine ⟨?_, fun last hl => ?_⟩
    · have hle := hroom.chunks t
      rw [add_count, if_pos ⟨rfl, hs⟩] at hle
      rw [chunkOffsets, List.length_map]
      exact hle
    · -- the open chunk of the last stream is one of its chunks
      rw [hl] at hlast
      obtain ⟨⟨u, c⟩, hcur, rfl⟩ := Option.map_eq_some_iff.mp hlast.symm
      have hle := (hcount u).trans (hroom.chunks u)
      have hopen : (openChunk x.current u).length = 1 := by
        rw [hcur, openChunk, if_pos rfl]
        rfl
      rw [Layout.chunks, List.length_append, hopen] at hle
      rw [chunkLengths, List.length_map]
      exact hle
  rw [sampleSizes_add]
  by_cases hs : x.Switches t
  · rw [if_pos ((switches_iff hx t).mpr hs), if_pos ((switches_iff hx t).mpr hs), hplace] at hpacket
    rw [chunkOffsets_switch base x t b hs]
    rcases hcur : x.current with _ | ⟨last, c⟩
    · rw [hlast, hcur] at hpacket
      rw [chunkLengths_first base x t b hcur]
      exact hpacket
    · rw [hlast, hcur, hx.stsc_cnt last c hcur] at hpacket
      rw [chunkLengths_switch base x t b hcur hs]
      exact hpacket
  · rw [if_neg fun hn => hs ((switches_iff hx t).mp hn),
      if_neg fun hn => hs ((switches_iff hx t).mp hn)] at hpacket
    rw [chunkOffsets_stay base x t b hs, chunkLengths_stay base x t b hs]
    exact hpacket

/-- **One packet**: the tables are those of the layout with one more sample. -/
theorem Areas.record {mov : MOVContext} {x : Layout CodecType} {durations : List UInt32}
    (h : Areas mov (layoutWords x x.closed durations))
    (hd : durations.length = (samplesOf (x.chunks .video)).length) (hp : Placed mov)
    (hx : Counted mov x) {base : Nat} (hplace : mov.mdat_size + mov.mdat_start_pos = base + x.size)
    (streams : CodecType → AVCodecContext) (m : Mem) {pkt : AVPacket} {t : CodecType}
    (ht : Proper pkt t) (hroom : Room (x.add base (t, sample m pkt t))) :
    ∃ durations', durations'.length
      = (samplesOf ((x.add base (t, sample m pkt t)).chunks .video)).length ∧
      Areas (mov.record streams t m pkt) (layoutWords (x.add base (t, sample m pkt t))
        (x.add base (t, sample m pkt t)).closed durations') := by
  have hcount := h.countPacket hp hx hplace t (sample m pkt t) hroom
  have hsamples := congrArg List.length (add_samples base x (t, sample m pkt t) .video)
  have hle := hroom.samples .video
  rw [sample_length m ht] at hcount
  rw [List.length_append] at hsamples
  cases t with
  | audio =>
    refine ⟨durations, hd.trans hsamples.symm, ?_⟩
    exact hcount.congr rfl rfl
  | video =>
    have hlen : durations.length < 32768 := by
      rw [hsamples, if_pos rfl, ← hd] at hle
      exact hle
    have hduration :=
      hcount.countDuration (hp.congr (countPacket_setup mov .video _)) pkt.duration hlen
    refine ⟨durations ++ [UInt32.ofInt pkt.duration], ?_, ?_⟩
    · rw [List.length_append, hd, hsamples]
      rfl
    · unfold MOVContext.record
      dsimp only
      split
      · unfold MOVContext.countKeyFrame
        split
        · exact hduration.congr rfl rfl
        · exact hduration.congr rfl rfl
      · exact hduration

/-! ## a run of packets -/

/-- the streams of the packets, and the bytes that are written of each -/
def events (streams : CodecType → AVCodecContext) (calls : List (Mem × AVPacket)) :
    List (CodecType × Bytes) :=
  calls.filterMap fun c => (codecType c.2.stream_idx).map fun t =>
    (t, emitted (packetWrites streams t c.1 c.2))

theorem events_cons (streams : CodecType → AVCodecContext) {c : Mem × AVPacket} {t : CodecType}
    (ht : codecType c.2.stream_idx = some t) (calls : List (Mem × AVPacket)) :
    events streams (c :: calls) = (t, emitted (packetWrites streams t c.1 c.2))
      :: events streams calls :=
  List.filterMap_cons_some (by rw [ht]; rfl)

/-- every packet belongs to one of the two streams -/
def Streamed (calls : List (Mem × AVPacket)) : Prop :=
  ∀ c ∈ calls, c.2.stream_idx = 0 ∨ c.2.stream_idx = 1

instance (calls : List (Mem × AVPacket)) : Decidable (Streamed calls) :=
  inferInstanceAs (Decidable (∀ c ∈ calls, _))

theorem Streamed.codec {calls : List (Mem × AVPacket)} (h : Streamed calls) {c : Mem × AVPacket}
    (hc : c ∈ calls) :
    ∃ t, codecType c.2.stream_idx = some t := by
  rcases h c hc with h | h
  · exact ⟨.video, codecType_video.mpr h⟩
  · exact ⟨.audio, codecType_audio.mpr h⟩

/-- a run of packets writes their bytes and keeps all but the muxer's own context -/
theorem packets_some (ctx : AVFormatContext) {calls : List (Mem × AVPacket)} (h : Streamed calls) :
    ∃ ws mov, packets ctx calls = some (ws, { ctx with priv_data := mov }) ∧
      emitted ws = payload (events ctx.streams calls) := by
  induction calls generalizing ctx with
  | nil => exact ⟨[], ctx.priv_data, rfl, rfl⟩
  | cons c calls ih =>
    obtain ⟨t, ht⟩ := h.codec List.mem_cons_self
    obtain ⟨code, hone⟩ := movWritePacket_eq ctx c.1 ht
    obtain ⟨ws, mov, hrest, hws⟩ :=
      ih { ctx with priv_data := ctx.priv_data.record ctx.streams t c.1 c.2 }
        fun d hd => h d (List.mem_cons_of_mem c hd)
    refine ⟨packetWrites ctx.streams t c.1 c.2 ++ ws, mov, ?_, ?_⟩
    · rw [packets, hone, Option.bind_some]
      dsimp only
      rw [hrest]
      rfl
    · rw [emitted_append, hws, events_cons ctx.streams ht]
      rfl

/-- **A run of packets** preserves what each of its packets preserves, behind the calls `cs`. -/
theorem packets_prefix {streams : CodecType → AVCodecContext} {all : List (Mem × AVPacket)}
    {P : MOVContext → List (Mem × AVPacket) → Prop} (ctx : AVFormatContext)
    {calls : List (Mem × AVPacket)} (cs : List (Mem × AVPacket)) (hstreams : ctx.streams = streams)
    (hall : cs ++ calls = all) (hidx : Streamed calls)
    (hstep : ∀ mov cs t, ∀ c ∈ calls, codecType c.2.stream_idx = some t → cs ++ [c] <+: all →
      P mov cs →
      P (mov.record streams t c.1 c.2) (cs ++ [c]))
    (h0 : P ctx.priv_data cs) {r : List CacheWrite × AVFormatContext}
    (hr : packets ctx calls = some r) :
    P r.2.priv_data all := by
  induction calls generalizing ctx cs r with
  | nil =>
    cases hr
    rw [← hall, List.append_nil]
    exact h0
  | cons c calls ih =>
    obtain ⟨t, ht⟩ := hidx.codec List.mem_cons_self
    obtain ⟨code, hone⟩ := movWritePacket_eq ctx c.1 ht
    subst hstreams
    rw [packets, hone, Option.bind_some] at hr
    obtain ⟨rest, hrest, rfl⟩ := Option.map_eq_some_iff.mp hr
    rw [List.append_cons] at hall
    show P rest.2.priv_data all
    refine ih _ _ ?_ hall ?_ ?_ ?_ hrest
    · rfl
    · exact fun d hd => hidx d (List.mem_cons_of_mem c hd)
    · exact fun mov cs u d hd => hstep mov cs u d (List.mem_cons_of_mem c hd)
    · exact hstep _ _ _ c List.mem_cons_self ht ⟨calls, hall⟩ h0

theorem events_append (streams : CodecType → AVCodecContext) (a b : List (Mem × AVPacket)) :
    events streams (a ++ b) = events streams a ++ events streams b :=
  List.filterMap_append

/-- one packet more -/
theorem events_concat (streams : CodecType → AVCodecContext) (cs : List (Mem × AVPacket))
    {c : Mem × AVPacket} {t : CodecType} (ht : codecType c.2.stream_idx = some t) :
    events streams (cs ++ [c]) = events streams cs
      ++ [(t, emitted (packetWrites streams t c.1 c.2))] := by
  rw [events_append, events_cons streams ht]
  rfl

/-- the same for what it preserves of the bytes that are written -/
theorem packets_run {streams : CodecType → AVCodecContext} {all : List (CodecType × Bytes)}
    {P : MOVContext → List (CodecType × Bytes) → Prop} (ctx : AVFormatContext)
    {calls : List (Mem × AVPacket)} (es : List (CodecType × Bytes))
    (hstreams : ctx.streams = streams) (hall : es ++ events streams calls = all)
    (hidx : Streamed calls) (hstep : ∀ mov es t, ∀ c ∈ calls, codecType c.2.stream_idx = some t →
      es ++ [(t, emitted (packetWrites streams t c.1 c.2))] <+: all → P mov es →
      P (mov.record streams t c.1 c.2) (es ++ [(t, emitted (packetWrites streams t c.1 c.2))]))
    (h0 : P ctx.priv_data es) {r : List CacheWrite × AVFormatContext}
    (hr : packets ctx calls = some r) :
    P r.2.priv_data all := by
  subst hall
  refine packets_prefix (P := fun mov cs => P mov (es ++ events streams cs)) ctx [] hstreams
    rfl hidx ?_ ?_ hr
  · intro mov cs t c hc ht hpre hcs
    have hone : es ++ events streams (cs ++ [c])
        = es ++ events streams cs ++ [(t, emitted (packetWrites streams t c.1 c.2))] := by
      rw [events_concat streams cs ht, List.append_assoc]
    obtain ⟨rest, hrest⟩ := hpre
    have hpre' : es ++ events streams (cs ++ [c]) <+: es ++ events streams calls := by
      refine ⟨events streams rest, ?_⟩
      rw [show calls = cs ++ [c] ++ rest from hrest.symm, events_append streams (cs ++ [c]),
        List.append_assoc]
    rw [hone] at hpre' ⊢
    exact hstep mov _ t c hc ht hpre' hcs
  · rw [show events streams [] = [] from rfl, List.append_nil]
    exact h0

end Pluto.Mp4

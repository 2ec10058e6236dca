import Pluto.Mp4.Packets

/-!
# The states of a session

* `Opened`               the contexts that the driver leaves in front of a session;
* `Tracked`              the context behind the header and some packets: its counters are those of
                         the layout of what has been written;
* `Closed`               the context behind the closing packet: every chunk has its number of
  samples;
* `Capacity`             the packets fit into the sample tables.
-/

namespace Pluto.Mp4
open Octets SampleTables

/-! ## in front of a session -/

/-- no sample has been counted, and nothing was moved to a tiny page -/
structure Idle (trk : MOVTrack) : Prop where
  stsz : trk.stsz_size = 0
  stco : trk.stco_size = 0
  stsc : trk.stsc_size = 0
  stts : trk.stts_size = 0
  key : trk.keyFrame_num = 0
  stsz_pages : trk.stsz_tiny_pages = 0
  stco_pages : trk.stco_tiny_pages = 0
  stsc_pages : trk.stsc_tiny_pages = 0
  stts_pages : trk.stts_tiny_pages = 0

structure Fresh (ctx : AVFormatContext) : Prop where
  tracks : ∀ t, Idle (ctx.priv_data.tracks t)
  codec_type : ∀ t, (ctx.streams t).codec_type = t
  placed : Placed ctx.priv_data
  write : ctx.priv_data.cache_write_ptr = cacheStart
  last : ctx.priv_data.last_stream_idx = none
  mdat_size : ctx.priv_data.mdat_size = 0
  title : ctx.priv_data.title_info.length = 128

theorem open_fresh (raw_time : Int) (words keyframes : Nat → UInt32) :
    Fresh (mp4MuxerOpen raw_time words keyframes) where
  tracks _ := ⟨rfl, rfl, rfl, rfl, rfl, rfl, rfl, rfl, rfl⟩
  codec_type _ := rfl
  placed := ⟨rfl, rfl, rfl⟩
  write := rfl
  last := rfl
  mdat_size := rfl
  title := zeros_length 128

theorem Fresh.setTrack {ctx : AVFormatContext} (h : Fresh ctx) (t : CodecType)
    {f : MOVTrack → MOVTrack} (hf : ∀ trk, Idle trk → Idle (f trk)) :
    Fresh { ctx with priv_data := ctx.priv_data.setTrack t f } where
  tracks u := by
    show Idle ((ctx.priv_data.setTrack t f).tracks u)
    rw [setTrack_tracks]
    split
    · exact hf _ (h.tracks t)
    · exact h.tracks u
  codec_type := h.codec_type
  placed := ⟨h.placed.start, h.placed.stop, h.placed.next⟩
  write := h.write
  last := h.last
  mdat_size := h.mdat_size
  title := h.title

theorem Fresh.setStream {ctx : AVFormatContext} (h : Fresh ctx) (t : CodecType) {c : AVCodecContext}
    (hc : c.codec_type = t) (n : Nat) :
    Fresh { ctx with streams := Function.update ctx.streams t c, mTrackCnt := n } where
  tracks := h.tracks
  codec_type u := by
    show (Function.update ctx.streams t c u).codec_type = u
    rw [Function.update_apply]
    split
    · rename_i hu
      rw [hu, hc]
    · exact h.codec_type u
  placed := h.placed
  write := h.write
  last := h.last
  mdat_size := h.mdat_size
  title := h.title

theorem Fresh.audioInfo {ctx : AVFormatContext} (h : Fresh ctx) (info : MediaTrackInfo) :
    Fresh (setAudioInfo ctx info) := by
  have htrack :=
    h.setTrack .audio (f := fun trk => { trk with timescale := info.mSampleRate }) fun _ ht =>
      { ht with }
  exact htrack.setStream .audio (c := { ctx.streams .audio with
    channels := info.mChannelCnt
    bits_per_sample := info.mBitWidth
    sample_rate := info.mSampleRate
    frame_size := info.mFrameSize
    codec_id := codecIdAac }) (h.codec_type .audio) (ctx.mTrackCnt + 1)

theorem Fresh.trackInfo {ctx : AVFormatContext} (h : Fresh ctx) (info : MediaTrackInfo) :
    Fresh (setTrackInfo ctx info).2 := by
  have htrack :=
    h.setTrack .video (f := fun trk => { trk with timescale := 1000 }) fun _ ht => { ht with }
  have hvideo := h.codec_type .video
  have hsize := htrack.setStream .video (c := { ctx.streams .video with
    width := info.mWidth
    height := info.mHeight
    rotate_degree := info.mRotateDegree }) hvideo ctx.mTrackCnt
  have hcodec := fun id => hsize.setStream .video (c := { ctx.streams .video with
    width := info.mWidth
    height := info.mHeight
    rotate_degree := info.mRotateDegree
    codec_id := id }) hvideo (ctx.mTrackCnt + 1)
  unfold setTrackInfo
  cases info.mVideoEncType with
  | vencH264 => exact (hcodec codecIdH264).audioInfo info
  | vencJpeg => exact (hcodec codecIdMjpeg).audioInfo info
  | vencH265 => exact hsize
  | aencAac => exact hsize

/-- **The calls of the driver** leave a fresh context. -/
theorem Fresh.command {ctx : AVFormatContext} (h : Fresh ctx) (cmd : Command) :
    Fresh (ctx.command cmd) := by
  cases cmd with
  | trackInfo info => exact h.trackInfo info
  | totalTime param =>
    have hvideo := h.setTrack .video
      (f := fun trk => { trk with trackDuration := (param * trk.timescale).tdiv 1000 }) fun _ ht =>
        { ht with }
    exact hvideo.setTrack .audio fun _ ht => { ht with }
  | csd data idx => exact h.setTrack idx fun _ ht => { ht with }

/-- what `Mp4MuxerOpen` and any calls of the driver leave -/
def Opened (ctx : AVFormatContext) : Prop :=
  ∃ raw_time words keyframes cmds, ctx = (mp4MuxerOpen raw_time words keyframes).commands cmds

theorem Opened.fresh {ctx : AVFormatContext} (h : Opened ctx) : Fresh ctx := by
  obtain ⟨raw_time, words, keyframes, cmds, rfl⟩ := h
  have hrun : ∀ start : AVFormatContext, Fresh start → Fresh (start.commands cmds) := by
    induction cmds with
    | nil => exact fun _ hs => hs
    | cons cmd cmds ih => exact fun start hs => ih (start.command cmd) (hs.command cmd)
  exact hrun _ (open_fresh raw_time words keyframes)

/-! ## header and packets -/

/-- the place of the first byte of the payload -/
def mdatStart : Nat := movHeaderReserveSize + 8

/-- the context behind the packets `es` of a session -/
structure Tracked (start : Setup) (mov : MOVContext) (es : List (CodecType × Bytes)) : Prop where
  setup : mov.setup = start
  counted : Counted mov (layout mdatStart es)
  timed : Timed mov

theorem layout_snoc (es : List (CodecType × Bytes)) (e : CodecType × Bytes) :
    layout mdatStart (es ++ [e]) = (layout mdatStart es).add mdatStart e := by
  unfold layout
  rw [List.foldl_append]
  rfl

theorem Tracked.record {start : Setup} {mov : MOVContext} {es : List (CodecType × Bytes)}
    (h : Tracked start mov es) (streams : CodecType → AVCodecContext) (t : CodecType) (b : Bytes)
    (m : Mem) (pkt : AVPacket) :
    Tracked start (mov.record streams t m pkt) (es ++ [(t, b)]) where
  setup := (record_setup mov streams t m pkt).trans h.setup
  counted := by
    rw [layout_snoc]
    exact h.counted.record mdatStart streams t b m pkt
  timed := h.timed.record h.counted streams t m pkt

theorem headed_tracks (ctx : AVFormatContext) (t : CodecType) :
    ctx.headed.priv_data.tracks t = if t ∈ streamsBelow ctx.mTrackCnt then
        { ctx.priv_data.tracks t with enc := ctx.streams t, tag := movFindCodecTag (ctx.streams t) }
      else ctx.priv_data.tracks t := rfl

theorem Fresh.headed_idle {ctx : AVFormatContext} (h : Fresh ctx) (t : CodecType) :
    Idle (ctx.headed.priv_data.tracks t) := by
  have ht := h.tracks t
  rw [headed_tracks]
  split
  · exact { ht with }
  · exact ht

theorem Fresh.tracked {ctx : AVFormatContext} (h : Fresh ctx) :
    Tracked ctx.headed.priv_data.setup ctx.headed.priv_data [] where
  setup := rfl
  counted := by
    refine ⟨h.last, ?_, fun t => (h.headed_idle t).stsz, fun t => (h.headed_idle t).stco,
      fun t => (h.headed_idle t).stsc⟩
    intro u c hc
    cases hc
  timed := by
    have hvideo := h.headed_idle .video
    exact ⟨hvideo.stts.trans hvideo.stsz.symm, (hvideo.key.trans hvideo.stsz.symm).le⟩

/-- **The packets of a session**: counters. -/
theorem packets_tracked {ctx : AVFormatContext} (h : Fresh ctx) {calls : List (Mem × AVPacket)}
    (hs : Streamed calls) {r : List CacheWrite × AVFormatContext}
    (hr : packets ctx.headed calls = some r) :
    Tracked ctx.headed.priv_data.setup r.2.priv_data (events ctx.streams calls) :=
  packets_run (P := Tracked ctx.headed.priv_data.setup) ctx.headed [] rfl rfl hs
    (fun _ _ t c _ _ _ hmov => hmov.record ctx.streams t _ c.1 c.2) h.tracked hr

/-- every video packet has a start code and a byte behind it, the first byte of it in `data0` -/
def Started (calls : List (Mem × AVPacket)) : Prop :=
  ∀ c ∈ calls, c.2.stream_idx = 0 → 1 ≤ c.2.size0 ∧ 5 ≤ c.2.size0 + c.2.size1

instance (calls : List (Mem × AVPacket)) : Decidable (Started calls) :=
  inferInstanceAs (Decidable (∀ c ∈ calls, _))

theorem Started.proper {calls : List (Mem × AVPacket)} (h : Started calls) {c : Mem × AVPacket}
    (hc : c ∈ calls) {t : CodecType} (ht : codecType c.2.stream_idx = some t) : Proper c.2 t := by
  cases t with
  | audio => exact trivial
  | video => exact h c hc (codecType_video.mp ht)

/-- **The packets of a session**: `mdat_size` is the number of bytes written. -/
theorem packets_mdat {ctx : AVFormatContext} (h : Fresh ctx) {calls : List (Mem × AVPacket)}
    (hs : Streamed calls) (hp : Started calls) {r : List CacheWrite × AVFormatContext}
    (hr : packets ctx.headed calls = some r) :
    r.2.priv_data.mdat_size = (payload (events ctx.streams calls)).length := by
  refine packets_run (P := fun mov es => mov.mdat_size = (payload es).length) ctx.headed []
    rfl rfl hs ?_ h.mdat_size hr
  intro mov es t c hc ht _ hmov
  rw [record_mdat mov ctx.headed.streams c.1 (hp.proper hc ht), hmov, payload_snoc,
    List.length_append]

/-! ## capacity -/

/-- the streams of the packets -/
def streamsOf (calls : List (Mem × AVPacket)) : List CodecType :=
  calls.filterMap fun c => codecType c.2.stream_idx

/-- in a track there are at most 32768 samples and 8192 chunks, maximal runs of packets of its
stream -/
def Capacity (calls : List (Mem × AVPacket)) : Prop :=
  ∀ t, (streamsOf calls).count t ≤ 32768 ∧ runCount t none (streamsOf calls) ≤ 8192

theorem events_streams (streams : CodecType → AVCodecContext) (calls : List (Mem × AVPacket)) :
    (events streams calls).map Prod.fst = streamsOf calls := by
  unfold events streamsOf
  rw [List.map_filterMap]
  congr 1
  funext c
  rw [Option.map_map]
  exact Option.map_id'

theorem track_length (t : CodecType) (es : List (CodecType × Bytes)) :
    (track t es).length = (es.map Prod.fst).count t := by
  unfold track
  rw [List.length_map, List.count, List.countP_map, List.countP_eq_length_filter]
  rfl

theorem Capacity.room {calls : List (Mem × AVPacket)} (h : Capacity calls)
    (streams : CodecType → AVCodecContext) :
    Room (layout mdatStart (events streams calls)) where
  chunks t := by
    rw [layout_count, events_streams]
    exact (h t).2
  samples t := by
    rw [(layout_of mdatStart _).samples, track_length, events_streams]
    exact (h t).1

theorem Room.of_prefix {es all : List (CodecType × Bytes)} (hpre : es <+: all)
    (h : Room (layout mdatStart all)) :
    Room (layout mdatStart es) := by
  obtain ⟨fs, rfl⟩ := hpre
  refine ⟨?_, ?_⟩
  · intro t
    have hall := h.chunks t
    rw [layout, List.foldl_append, foldl_count] at hall
    exact le_trans (Nat.le_add_right _ _) hall
  · intro t
    have hall := h.samples t
    rw [(layout_of mdatStart _).samples, track_length, List.map_append, List.count_append] at hall
    rw [(layout_of mdatStart _).samples, track_length]
    exact le_trans (Nat.le_add_right _ _) hall

/-- the streams of the packets, and the bytes that each of them has in the file -/
def samples (calls : List (Mem × AVPacket)) : List (CodecType × Bytes) :=
  calls.filterMap fun c => (codecType c.2.stream_idx).map fun t => (t, sample c.1 c.2 t)

/-- the packets of an H.264 session are all written -/
theorem events_samples {streams : CodecType → AVCodecContext}
    (h264 : (streams .video).codec_id = codecIdH264) {calls : List (Mem × AVPacket)}
    (hp : Started calls) : events streams calls = samples calls := by
  unfold events samples
  apply List.filterMap_congr
  intro c hc
  apply Option.map_congr
  intro t ht
  rw [packetWrites_cases streams c.1 (hp.proper hc ht), if_neg fun hn => hn.2 h264]

/-- the counters and the tables behind the packets `es` -/
structure Recorded (start : Setup) (mov : MOVContext) (es : List (CodecType × Bytes)) : Prop extends
    Tracked start mov es where
  mdat_size : mov.mdat_size = (payload es).length
  areas : ∃ durations, durations.length = (samplesOf ((layout mdatStart es).chunks .video)).length ∧
    Areas mov (layoutWords (layout mdatStart es) (layout mdatStart es).closed durations)

/-- all tables are empty in front of a session -/
theorem Fresh.areas {ctx : AVFormatContext} (h : Fresh ctx) :
    Areas ctx.headed.priv_data (tableWords (fun _ => []) (fun _ => []) (fun _ => []) []) := by
  intro k _
  have hnil : tableWords (fun _ => []) (fun _ => []) (fun _ => []) [] k = [] := by
    obtain ⟨id, t⟩ := k
    cases id <;> cases t <;> rfl
  rw [hnil]
  refine ⟨Nat.zero_le _, ?_, Or.inl (congrFun h.write k)⟩
  intro i hi
  cases hi

theorem Fresh.recorded {ctx : AVFormatContext} (h : Fresh ctx) :
    Recorded ctx.headed.priv_data.setup ctx.headed.priv_data [] where
  toTracked := h.tracked
  mdat_size := h.mdat_size
  areas := ⟨[], rfl, h.areas⟩

/-- **The packets of a session**: tables. -/
theorem packets_recorded {ctx : AVFormatContext} (h : Fresh ctx)
    (h264 : (ctx.streams .video).codec_id = codecIdH264) {calls : List (Mem × AVPacket)}
    (hs : Streamed calls) (hp : Started calls) (hcap : Capacity calls)
    {r : List CacheWrite × AVFormatContext} (hr : packets ctx.headed calls = some r) :
    Recorded ctx.headed.priv_data.setup r.2.priv_data (samples calls) := by
  have hall : [] ++ events ctx.headed.streams calls = samples calls := events_samples h264 hp
  refine packets_run (P := Recorded ctx.headed.priv_data.setup) ctx.headed [] rfl hall hs ?_
    h.recorded hr
  intro mov es t c hc ht hpre hmov
  have hpkt := hp.proper hc ht
  have hbytes := packetWrites_cases ctx.headed.streams c.1 hpkt
  rw [if_neg fun hn => hn.2 h264] at hbytes
  rw [hbytes] at hpre ⊢
  rw [← hall] at hpre
  have hroom := Room.of_prefix hpre (hcap.room ctx.headed.streams)
  have hplaced : Placed mov := by
    have hstart : Placed ctx.headed.priv_data := ⟨h.placed.start, h.placed.stop, h.placed.next⟩
    exact hstart.congr hmov.setup
  have hplace : mov.mdat_size + mov.mdat_start_pos = mdatStart + (layout mdatStart es).size := by
    have hpos : mov.mdat_start_pos = mdatStart := congrArg Setup.mdat_start_pos hmov.setup
    rw [hpos, hmov.mdat_size, (layout_of mdatStart es).size, Nat.add_comm]
  refine ⟨hmov.toTracked.record ctx.headed.streams t _ c.1 c.2, ?_, ?_⟩
  · rw [record_mdat mov ctx.headed.streams c.1 hpkt, hbytes, hmov.mdat_size, payload_snoc,
      List.length_append]
  · obtain ⟨durations, hd, hareas⟩ := hmov.areas
    rw [layout_snoc] at hroom ⊢
    exact hareas.record hd hplaced hmov.counted hplace ctx.headed.streams c.1 hpkt hroom

/-! ## the end of a session -/

/-- the context in front of the trailer, behind `SET_TOTAL_TIME` where there is one -/
def totalTime (ctx : AVFormatContext) (total : Option Int) : AVFormatContext :=
  total.elim ctx (setTotalTime ctx)

theorem totalTime_tracks (ctx : AVFormatContext) (total : Option Int) (t : CodecType) :
    ∃ d, (totalTime ctx total).priv_data.tracks t
      = { ctx.priv_data.tracks t with trackDuration := d } := by
  cases total with
  | none => exact ⟨(ctx.priv_data.tracks t).trackDuration, rfl⟩
  | some param =>
    refine ⟨(param * (ctx.priv_data.tracks t).timescale).tdiv 1000, ?_⟩
    unfold totalTime setTotalTime
    dsimp only [Option.elim]
    rw [setTrack_tracks, setTrack_tracks]
    cases t <;> rfl

theorem totalTime_setup (ctx : AVFormatContext) (total : Option Int) :
    (totalTime ctx total).priv_data.setup = ctx.priv_data.setup := by
  cases total with
  | none => rfl
  | some param =>
    unfold totalTime setTotalTime
    dsimp only [Option.elim]
    rw [setTrack_setup, setTrack_setup] <;>
      · intro trk
        rfl

/-- the total time changes no counter and no table -/
theorem totalTime_rest (ctx : AVFormatContext) (total : Option Int) :
    (totalTime ctx total).priv_data
      = { ctx.priv_data with tracks := (totalTime ctx total).priv_data.tracks } := by
  cases total <;> rfl

theorem Tracked.totalTime {start : Setup} {ctx : AVFormatContext} {es : List (CodecType × Bytes)}
    (h : Tracked start ctx.priv_data es) (total : Option Int) :
    Tracked start (totalTime ctx total).priv_data es := by
  have hrest := totalTime_rest ctx total
  have hvideo := totalTime_tracks ctx total .video
  refine ⟨(totalTime_setup ctx total).trans h.setup, ⟨?_, ?_, ?_, ?_, ?_⟩, ?_⟩
  · rw [hrest]
    exact h.counted.last
  · rw [hrest]
    exact h.counted.stsc_cnt
  · intro t
    obtain ⟨d, hd⟩ := totalTime_tracks ctx total t
    rw [hd]
    exact h.counted.stsz t
  · intro t
    obtain ⟨d, hd⟩ := totalTime_tracks ctx total t
    rw [hd]
    exact h.counted.stco t
  · intro t
    obtain ⟨d, hd⟩ := totalTime_tracks ctx total t
    rw [hd]
    exact h.counted.stsc t
  · obtain ⟨d, hd⟩ := hvideo
    refine ⟨?_, ?_⟩
    · rw [hd]
      exact h.timed.stts
    · rw [hd]
      exact h.timed.key

/-- the context behind the closing packet -/
structure Closed (start : Setup) (mov : MOVContext) (es : List (CodecType × Bytes)) : Prop where
  setup : mov.setup = start
  stsz : ∀ t, (mov.tracks t).stsz_size = (track t es).length
  stco : ∀ t, (mov.tracks t).stco_size = ((layout mdatStart es).chunks t).length
  stsc : ∀ t, (mov.tracks t).stsc_size = ((layout mdatStart es).chunks t).length
  timed : Timed mov

theorem layout_current {es : List (CodecType × Bytes)} (h : es ≠ []) :
    ∃ u c, (layout mdatStart es).current = some (u, c) := by
  obtain ⟨es, e, rfl⟩ := (List.eq_nil_or_concat' es).resolve_left h
  have hcur := add_current mdatStart (layout mdatStart es) e
  rw [layout_snoc]
  obtain ⟨⟨u, c⟩, hc, -⟩ := Option.map_eq_some_iff.mp hcur
  exact ⟨u, c, hc⟩

/-- the current chunk is the last one of its track -/
theorem chunks_current {x : Layout CodecType} {u : CodecType} {c : Chunk}
    (h : x.current = some (u, c)) (t : CodecType) :
    x.chunks t = x.closed t ++ if u = t then [c] else [] := by
  rw [Layout.chunks, h]
  rfl

theorem Tracked.close {start : Setup} {mov : MOVContext} {es : List (CodecType × Bytes)}
    (h : Tracked start mov es) {u : CodecType} {c : Chunk}
    (hcur : (layout mdatStart es).current = some (u, c)) :
    Closed start (mov.endChunk u) es := by
  have htracks : ∀ t, (mov.endChunk u).tracks t
      = { mov.tracks t with stsc_size := (mov.tracks t).stsc_size + if u = t then 1 else 0 } := by
    intro t
    unfold MOVContext.endChunk
    rw [setTrack_tracks]
    cases t <;> cases u <;> rfl
  refine ⟨(endChunk_setup mov u).trans h.setup, ?_, ?_, ?_, ?_⟩
  · intro t
    rw [htracks, ← (layout_of mdatStart es).samples]
    exact h.counted.stsz t
  · intro t
    rw [htracks]
    exact h.counted.stco t
  · intro t
    rw [htracks, chunks_current hcur, List.length_append, ← h.counted.stsc]
    split <;> rfl
  · refine ⟨?_, ?_⟩
    · rw [htracks]
      exact h.timed.stts
    · rw [htracks]
      exact h.timed.key

/-- the tables behind the closing packet list every chunk -/
theorem Areas.close {mov : MOVContext} {es : List (CodecType × Bytes)} {durations : List UInt32}
    (h : Areas mov (layoutWords (layout mdatStart es) (layout mdatStart es).closed durations))
    (hx : Counted mov (layout mdatStart es)) (hroom : Room (layout mdatStart es)) {u : CodecType}
    {c : Chunk} (hcur : (layout mdatStart es).current = some (u, c)) :
    Areas (mov.endChunk u)
      (layoutWords (layout mdatStart es) (layout mdatStart es).chunks durations) := by
  have hlen := hroom.chunks u
  rw [chunks_current hcur, if_pos rfl, List.length_append] at hlen
  have hend := h.endChunk u (by
    rw [chunkLengths, List.length_map]
    exact hlen)
  have hlengths : Function.update (chunkLengths (layout mdatStart es).closed) u
      (chunkLengths (layout mdatStart es).closed u ++ [mov.stsc_cnt])
          = chunkLengths (layout mdatStart es).chunks := by
    funext t
    rw [Function.update_apply, hx.stsc_cnt u c hcur]
    unfold chunkLengths
    rw [chunks_current hcur t, List.map_append]
    by_cases ht : t = u
    · rw [if_pos ht, if_pos ht.symm, ht]
      rfl
    · rw [if_neg ht, if_neg (Ne.symm ht), List.map_nil, List.append_nil]
  rw [hlengths] at hend
  exact hend

theorem events_ne_nil (streams : CodecType → AVCodecContext) {calls : List (Mem × AVPacket)}
    (hs : Streamed calls) (hne : calls ≠ []) : events streams calls ≠ [] := by
  cases calls with
  | nil => exact absurd rfl hne
  | cons c calls =>
    obtain ⟨t, ht⟩ := hs.codec List.mem_cons_self
    rw [events_cons streams ht]
    exact List.cons_ne_nil _ _

/-- the closing packet ends the current chunk -/
theorem lastPacket_eq (ctx : AVFormatContext) {u : CodecType}
    (h : ctx.priv_data.last_stream_idx = some u) :
    movWritePacket ctx (fun _ => 0) lastPacket
      = some (0, [], { ctx with priv_data := ctx.priv_data.endChunk u }) := by
  unfold movWritePacket
  dsimp only
  rw [if_pos (show lastPacket.stream_idx = -1 from rfl), h, Option.map_some]

theorem packets_closed {ctx : AVFormatContext} (h : Fresh ctx) {calls : List (Mem × AVPacket)}
    (hs : Streamed calls) (hne : calls ≠ []) (total : Option Int)
    {body : List CacheWrite × AVFormatContext} (hbody : packets ctx.headed calls = some body) :
    ∃ u c, (layout mdatStart (events ctx.streams calls)).current = some (u, c) ∧
      movWritePacket (totalTime body.2 total) (fun _ => 0) lastPacket
        = some (0, [],
          { totalTime body.2 total with
            priv_data := (totalTime body.2 total).priv_data.endChunk u }) ∧
      Closed ctx.headed.priv_data.setup ((totalTime body.2 total).priv_data.endChunk u)
        (events ctx.streams calls) := by
  obtain ⟨u, c, hcur⟩ := layout_current (events_ne_nil ctx.streams hs hne)
  have htracked := (packets_tracked h hs hbody).totalTime total
  have hlast := htracked.counted.last
  rw [hcur] at hlast
  exact ⟨u, c, hcur, lastPacket_eq _ hlast, htracked.close hcur⟩

/-! ## what the trailer reads -/

section
variable {ctx : AVFormatContext} {mov : MOVContext} {es : List (CodecType × Bytes)}

theorem Closed.setup_track (h : Closed ctx.headed.priv_data.setup mov es) (t : CodecType) :
    (mov.tracks t).setup = (ctx.headed.priv_data.tracks t).setup :=
  congrFun (congrArg Setup.tracks h.setup) t

theorem Closed.below (h : Closed ctx.headed.priv_data.setup mov es) {t : CodecType}
    (ht : t ∈ writtenTracks mov) :
    t ∈ streamsBelow ctx.mTrackCnt := by
  have hnb : mov.nb_streams = ctx.mTrackCnt := congrArg Setup.nb_streams h.setup
  rw [← hnb]
  exact (written_below ht).1

/-- the codec of a written track is the one of its stream -/
theorem Closed.enc (h : Closed ctx.headed.priv_data.setup mov es) {t : CodecType}
    (ht : t ∈ writtenTracks mov) :
    (mov.tracks t).enc = ctx.streams t := by
  have henc : (mov.tracks t).enc = (ctx.headed.priv_data.tracks t).enc :=
    congrArg TrackSetup.enc (h.setup_track t)
  rw [henc, headed_tracks, if_pos (h.below ht)]

theorem Closed.csdData (h : Closed ctx.headed.priv_data.setup mov es) (t : CodecType) :
    (mov.tracks t).csdData = (ctx.priv_data.tracks t).csdData := by
  have hcsd : (mov.tracks t).csdData = (ctx.headed.priv_data.tracks t).csdData :=
    congrArg TrackSetup.csdData (h.setup_track t)
  rw [hcsd, headed_tracks]
  split <;> rfl

theorem Closed.timescale (h : Closed ctx.headed.priv_data.setup mov es) (t : CodecType) :
    (mov.tracks t).timescale = (ctx.priv_data.tracks t).timescale := by
  have hscale : (mov.tracks t).timescale = (ctx.headed.priv_data.tracks t).timescale :=
    congrArg TrackSetup.timescale (h.setup_track t)
  rw [hscale, headed_tracks]
  split <;> rfl

/-- the tables of a written track are in memory -/
theorem Closed.plain (h : Closed ctx.headed.priv_data.setup mov es) (hf : Fresh ctx) {t : CodecType}
    (ht : t ∈ writtenTracks mov) : Plain (mov.tracks t) := by
  have hidle := hf.headed_idle t
  have hpages := congrArg TrackSetup.pages (h.setup_track t)
  have hpage : (mov.tracks t).stsz_tiny_pages = 0 ∧ (mov.tracks t).stco_tiny_pages = 0 ∧
      (mov.tracks t).stsc_tiny_pages = 0 ∧ (mov.tracks t).stts_tiny_pages = 0 := by
    simp only [MOVTrack.setup, hidle.stsz_pages, hidle.stco_pages, hidle.stsc_pages,
      hidle.stts_pages, Prod.mk.injEq] at hpages
    exact hpages
  obtain ⟨h1, h2, h3, h4⟩ := hpage
  refine ⟨h1, h2, h3, h4, ?_⟩
  intro hvideo
  rw [h.enc ht, hf.codec_type] at hvideo
  subst hvideo
  rw [h.timed.stts]
  exact (written_below ht).2

end

/-! ## a small session -/

def smallInfo : MediaTrackInfo where
  mWidth := 640
  mHeight := 480
  mRotateDegree := 0
  mVideoEncType := .vencH264
  mChannelCnt := 2
  mBitWidth := 16
  mSampleRate := 44100
  mFrameSize := 1024

def smallCsd : Block :=
  ⟨[0, 0, 0, 1, 0x67, 0x42, 0, 0x1f, 0xda, 0, 0, 0, 1, 0x68, 0xce, 0x3c], by decide⟩

def smallContext : AVFormatContext :=
  (mp4MuxerOpen 0 (fun _ => 0) (fun _ => 0)).commands [.trackInfo smallInfo, .csd smallCsd .video]

def smallPacket (stream_idx : Int) (size0 size1 : Nat) : AVPacket where
  pts := 0
  data0 := 0
  size0 := size0
  data1 := 100
  size1 := size1
  stream_idx := stream_idx
  flags := 0
  duration := 40

/-- video, audio, video; the first start code reaches into the second segment -/
def smallCalls : List (Mem × AVPacket) :=
  [(fun a => UInt8.ofNat a.toNat, smallPacket 0 2 4),
    (fun a => UInt8.ofNat a.toNat, smallPacket 1 3 0),
    (fun a => UInt8.ofNat a.toNat, smallPacket 0 6 1)]

theorem smallContext_opened : Opened smallContext := ⟨0, _, _, _, rfl⟩

theorem smallCalls_capacity : Capacity smallCalls := by
  intro t
  cases t <;> decide

theorem smallContext_csd :
    AvccWritable (fun _ => 0) (smallContext.priv_data.tracks .video).csdData.val :=
  fun _ _ => by decide +kernel

end Pluto.Mp4

import Pluto.Mp4.SyncSamples

/-!
# A file is played

A player reads nothing but the bytes of the file: it looks for `moov`, takes the tables of a track
out of it, and cuts the samples out of the file.

* `Sample`, `play`       a player, and what it gets of a track;
* `stblTable`            a table of a track, in the bytes of `moov`;
* `recorded`             what the packets of a session are worth to it;
* `sampleAt_chunks`      a sample by tables that list the chunks of the file;
* `played`               every session is played as it was recorded.
-/

namespace Pluto.Mp4
open Octets Boxes SampleTables

/-! ## the player -/

/-- the bytes, the time since the first sample, and whether a player may start here -/
structure Sample where
  bytes : Bytes
  time : Nat
  sync : Bool
deriving DecidableEq

/-- the body of a table of a stream, from the body of `moov` -/
def stblTable (moov : Bytes) (t : CodecType) (tag : Tag) : Option Bytes :=
  (trakOf moov t).bind fun trak =>
    (findPath [(fourcc 'm' 'd' 'i' 'a').val, (fourcc 'm' 'i' 'n' 'f').val,
      (fourcc 's' 't' 'b' 'l').val] trak).bind
      (findBox tag.val)

/-- the unit in a sample: a video sample has its size in front of it -/
def unitIn : CodecType → Bytes → Bytes
  | .video, b => slice b 4 (ofBe (b.take 4))
  | .audio, b => b

/-- sample `k`; in a track without `stss` a player may start anywhere -/
def sampleAt (file : Bytes) (t : CodecType) (T : SampleTable) (times : List (Nat × Nat))
    (syncs : Option (List Nat)) (k : Nat) : Option Sample :=
  (T.resolve k).map fun r =>
    ⟨unitIn t (slice file r.1 r.2), decodeTime times k, syncs.elim true fun l => l.contains (k + 1)⟩

/-- all samples of a track -/
def play (file : Bytes) (t : CodecType) : Option (List Sample) :=
  (findBox (fourcc 'm' 'o' 'o' 'v').val file).bind fun moov =>
    (trackTable moov t).bind fun T =>
      (timesOf moov t).bind fun times =>
        (List.range T.sizes.length).mapM
          (sampleAt file t T times ((stblTable moov t (fourcc 's' 't' 's' 's')).map stssEntries))

/-! ## the recording -/

/-- the unit of a packet: what is behind the start code of a video packet -/
def unitOf : CodecType → Mem × AVPacket → Bytes
  | .video, c => (c.2.payload c.1).drop 4
  | .audio, c => c.2.payload c.1

/-- video samples in milliseconds behind the first one, audio samples of one length each -/
def timeOf (ctx : AVFormatContext) (calls : List (Mem × AVPacket)) (k : Nat) : CodecType → Nat
  | .video => (ptsOf calls k - ptsOf calls 0).toNat
  | .audio => k * u32 (ctx.streams .audio).frame_size

def syncOf : CodecType → Mem × AVPacket → Bool
  | .video, c => decide (Idr c)
  | .audio, _ => true

/-- a session as a player should get it -/
def recorded (ctx : AVFormatContext) (calls : List (Mem × AVPacket)) (t : CodecType) :
    List Sample :=
  (callsOf t calls).mapIdx fun k c => ⟨unitOf t c, timeOf ctx calls k t, syncOf t c⟩

/-! ## the tables in `moov` -/

theorem findBox_none {t : Box} {tag : Tag} (hfields : t.body = encodeAll t.children)
    (h : t.encode.length < 2 ^ 32) (hnone : ∀ u ∈ t.children, u.tag ≠ tag) :
    findBox tag.val t.body = none := by
  have hlt := (body_le t).trans_lt h
  rw [hfields] at hlt ⊢
  rw [findBox_encodeAll hlt, List.find?_eq_none.mpr, Option.map_none]
  intro u hu
  simpa using fun he => hnone u hu (Subtype.ext he)

section
variable {env : Env} {mov : MOVContext}

/-- the `stbl` of a track in the bytes of `moov` -/
theorem moov_stbl (h : (moovBox env mov).encode.length < 2 ^ 32)
    (htype : ∀ i ∈ writtenTracks mov, (mov.tracks i).enc.codec_type = i) {t : CodecType}
    (ht : t ∈ writtenTracks mov) (tag : Tag) :
    stblTable (moovBox env mov).body t tag = findBox tag.val (stblBox env mov (mov.tracks t)).body ∧
      (stblBox env mov (mov.tracks t)).encode.length < 2 ^ 32 := by
  obtain ⟨htrak, hlen⟩ := moov_trak h htype ht
  obtain ⟨-, hpath, hstbl⟩ := trak_path hlen
  refine ⟨?_, hstbl⟩
  unfold stblTable
  rw [htrak, Option.bind_some, hpath, Option.bind_some]

/-- `stss` of the video track; the audio track has none -/
theorem moov_stss (h : (moovBox env mov).encode.length < 2 ^ 32)
    (htype : ∀ i ∈ writtenTracks mov, (mov.tracks i).enc.codec_type = i) {t : CodecType}
    (ht : t ∈ writtenTracks mov) :
    stblTable (moovBox env mov).body t (fourcc 's' 't' 's' 's')
      = if t = .video then some (stssBox mov (mov.tracks t)).body else none := by
  obtain ⟨hread, hlen⟩ := moov_stbl h htype ht (fourcc 's' 't' 's' 's')
  rw [hread]
  cases t with
  | video =>
    rw [if_pos rfl]
    exact (findBox_child hlen (stbl_sync (htype .video ht))).1
  | audio =>
    have haudio : ¬ (mov.tracks .audio).enc.codec_type = .video := by
      rw [htype .audio ht]
      decide
    rw [if_neg (by decide)]
    have htags : (stblBox env mov (mov.tracks .audio)).children.map Box.tag
        = [fourcc 's' 't' 's' 'd', fourcc 's' 't' 't' 's', fourcc 's' 't' 's' 'c',
          fourcc 's' 't' 's' 'z', fourcc 's' 't' 'c' 'o'] := by
      unfold stblBox syncBoxes
      rw [if_neg haudio]
      rfl
    refine findBox_none rfl hlen fun u hu heq => ?_
    have hmem := List.mem_map_of_mem (f := Box.tag) hu
    rw [htags, heq] at hmem
    exact absurd hmem (by decide)

end

/-! ## the samples -/

/-- what a list of partial results comes to -/
theorem mapM_range {α : Type} {f : Nat → Option α} {l : List α}
    (h : ∀ k (hk : k < l.length), f k = some l[k]) :
    (List.range l.length).mapM f = some l := by
  induction l using List.reverseRecOn with
  | nil => rfl
  | append_singleton l a ih =>
    have hlast := h l.length (by simp)
    rw [List.getElem_concat_length rfl] at hlast
    have hinit := ih fun k hk => by
      rw [h k (by simp; omega), List.getElem_append_left hk]
    rw [List.length_append, List.length_singleton, List.range_succ, List.mapM_append, hinit]
    simp [hlast]

/-- **A sample**, where the tables list the chunks of the file. -/
theorem sampleAt_chunks {file : Bytes} {cs : List Chunk} (hs : ∀ c ∈ cs, c.Stored file)
    (t : CodecType) (times : List (Nat × Nat)) (syncs : Option (List Nat)) {k : Nat}
    (hk : k < (samplesOf cs).length) :
    sampleAt file t (tableOfChunks cs) times syncs k
      = some ⟨unitIn t (samplesOf cs)[k], decodeTime times k,
        syncs.elim true fun l => l.contains (k + 1)⟩ := by
  obtain ⟨off, hresolve, -, hslice⟩ := tableOfChunks_resolve hs k hk
  unfold sampleAt
  rw [hresolve, Option.map_some, hslice]

/-! ## the file -/

section
variable {ctx : AVFormatContext} {calls : List (Mem × AVPacket)} {total : Option Int}
  {body : List CacheWrite × AVFormatContext} {u : CodecType} {c : Chunk} {mov : MOVContext}

/-- `moov` is found in the file, and the chunks are stored in it -/
theorem Parts.file (env : Env) (hf : Fresh ctx) (h : Parts ctx calls total body u c mov)
    {box : List CacheWrite × MOVContext} (hbox : movWriteMoovBox env mov = some box) {file : Bytes}
    (hfile : file = sessionFile [] 0 (emitted body.1) (moovPlace env mov (emitted body.1))
      (moovBytes env mov box.1))
    (hshort : file.length < 2 ^ 31) :
    (moovBox env (mov.prepared env)).encode.length < 2 ^ 32 ∧
      findBox (fourcc 'm' 'o' 'o' 'v').val file = some (moovBox env (mov.prepared env)).body ∧
      ∀ t, ∀ d ∈ (layout mdatStart (events ctx.streams calls)).chunks t, d.Stored file := by
  obtain ⟨hbytes, hsize, -⟩ := emitted_moov (fun i hi => h.closed.plain hf hi) hbox
  have hne : emitted box.1 ≠ [] := by
    rw [hbytes]
    exact encode_ne_nil _
  have hlt : (sessionFile [] 0 (emitted body.1) (moovPlace env mov (emitted body.1))
      (moovBytes env mov box.1)).length
      < 2 ^ 31 := hfile ▸ hshort
  have hboxes := sessionFile_boxes hbytes hsize hlt
  obtain ⟨hmoov, hlen, hdata, -⟩ :=
    sessionFile_parts (hsize.trans (congrArg List.length hbytes.symm)) hne (hfile ▸ hshort)
  rw [hbytes] at hmoov
  rw [← hfile] at hboxes hlen hdata
  rw [h.data] at hlen hdata
  refine ⟨hmoov.trans (by norm_num), ?_, (layout_of mdatStart _).stored hlen hdata⟩
  rw [hboxes] at hshort ⊢
  rw [findBox_encodeAll (hshort.trans (by norm_num))]
  unfold fileBoxes
  split <;> rfl

/-- the samples of a track are those of its packets -/
theorem track_samples (t : CodecType) (calls : List (Mem × AVPacket)) :
    track t (samples calls) = (callsOf t calls).map fun c => sample c.1 c.2 t := by
  induction calls with
  | nil => rfl
  | cons c calls ih =>
    have hsplit : ∀ l, samples (c :: l) = samples [c] ++ samples l :=
      fun l => List.filterMap_append (l := [c])
    have hcall : callsOf t (c :: calls) = callsOf t [c] ++ callsOf t calls :=
      List.filter_append [c] calls
    have happend : ∀ a b, track t (a ++ b) = track t a ++ track t b := fun a b => by
      unfold track
      rw [List.filter_append, List.map_append]
    have hone : track t (samples [c]) = (callsOf t [c]).map fun c => sample c.1 c.2 t := by
      unfold track samples callsOf
      cases hc : codecType c.2.stream_idx with
      | none => simp [hc]
      | some v => by_cases hv : v = t <;> simp [hc, hv]
    rw [hsplit, happend, ih, hone, hcall, List.map_append]

/-- the size in front of a video sample is that of its unit -/
theorem unitIn_sample {c : Mem × AVPacket} {t : CodecType} (hp : Proper c.2 t)
    (hshort : (sample c.1 c.2 t).length < 2 ^ 32) : unitIn t (sample c.1 c.2 t) = unitOf t c := by
  cases t with
  | audio => rfl
  | video =>
    have hlen := AVPacket.payload_length c.2 c.1
    have h4 := be_length 4 (c.2.size0 + c.2.size1 - 4)
    have hfive := hp.2
    have hdrop : ((c.2.payload c.1).drop 4).length = c.2.size0 + c.2.size1 - 4 := by
      rw [List.length_drop, hlen]
    unfold sample at hshort
    dsimp only at hshort
    rw [List.length_append, h4, hdrop] at hshort
    unfold unitIn unitOf sample
    dsimp only
    have htake := @List.take_left _ (be 4 (c.2.size0 + c.2.size1 - 4)) ((c.2.payload c.1).drop 4)
    rw [h4] at htake
    rw [htake, ofBe_be 4 _ (by omega)]
    have hmid := slice_mid (be 4 (c.2.size0 + c.2.size1 - 4)) ((c.2.payload c.1).drop 4) []
    rwa [List.append_nil, h4, hdrop] at hmid

/-- the times of the samples of a track -/
theorem Parts.time (env : Env) (hf : Fresh ctx) (hs : Streamed calls) (hcap : Capacity calls)
    (h : Parts ctx calls total body u c mov) {t : CodecType} (ht : t ∈ writtenTracks mov)
    (hgaps : t = .video → Gaps (packetsOf .video calls)) {k : Nat}
    (hk : k < (packetsOf t calls).length) :
    decodeTime (runsOfTrack (mov.prepared env) ((mov.prepared env).tracks t)) k
      = timeOf ctx calls k t := by
  cases t with
  | video =>
    have hlen : k < ((Mp4.durations calls).map UInt32.toNat).length := by
      rw [List.length_map, Mp4.durations, List.length_map]
      exact hk
    have htime := decodeTime_gaps (durations_gaps (hgaps rfl)) hlen
    rw [h.runs_video env hf hs hcap ht, timeOf]
    omega
  | audio =>
    have htype := h.closed.prepared_type env hf .audio (by rw [prepared_written]; exact ht)
    have hframe : ((mov.prepared env).tracks .audio).enc.frame_size
        = (ctx.streams .audio).frame_size := by
      rw [prepared_tracks env mov .audio (written_below ht).1]
      exact congrArg AVCodecContext.frame_size (h.closed.enc ht)
    have hnumber : k ≤ ((mov.prepared env).tracks .audio).stsz_size := by
      rw [prepared_tracks env mov .audio (written_below ht).1]
      show k ≤ (mov.tracks .audio).stsz_size
      rw [h.closed.stsz, ← packetsOf_length]
      exact hk.le
    unfold runsOfTrack
    rw [htype]
    dsimp only
    rw [hframe, decodeTime, expand, List.flatMap_singleton, List.take_replicate,
      List.sum_replicate_nat, Nat.min_eq_left hnumber, timeOf]

/-- the samples at which a player may start -/
theorem Parts.syncs (env : Env) (hf : Fresh ctx)
    (h264 : (ctx.streams .video).codec_id = codecIdH264) (hs : Streamed calls) (hp : Started calls)
    (hcap : Capacity calls) (h : Parts ctx calls total body u c mov)
    (hmoov : (moovBox env (mov.prepared env)).encode.length < 2 ^ 32) {t : CodecType}
    (ht : t ∈ writtenTracks mov) {k : Nat} (hk : k < (callsOf t calls).length) :
    ((stblTable (moovBox env (mov.prepared env)).body t (fourcc 's' 't' 's' 's')).map
      stssEntries).elim true
      (fun l => l.contains (k + 1)) = syncOf t (callsOf t calls)[k] := by
  have hprepared : t ∈ writtenTracks (mov.prepared env) := by
    rw [prepared_written]
    exact ht
  rw [moov_stss hmoov (h.closed.prepared_type env hf) hprepared]
  cases t with
  | audio => rfl
  | video =>
    have hcount : (packetsOf .video calls).length < 2 ^ 32 := by
      have hle := (hcap .video).1
      rw [← events_streams ctx.streams, ← track_length, ← packetsOf_length] at hle
      omega
    have hkeys := h.keyframes hf h264 hs hp
    have hread := (stss_read env (written_below ht).1 (by
      rw [hkeys, List.length_map, idrSamples, List.length_findIdxs]
      exact (List.countP_le_length.trans (callsOf_length .video calls).le).trans_lt hcount)).read
    rw [hkeys, idrSamples_words hcount] at hread
    rw [if_pos rfl, Option.map_some, hread]
    show (idrSamples calls).contains (k + 1) = decide (Idr (callsOf .video calls)[k])
    rw [List.contains_eq_mem]
    refine decide_eq_decide.mpr (mem_idrSamples.trans ⟨?_, fun hi => ⟨Nat.succ_pos k, _, ?_, hi⟩⟩)
    · rintro ⟨-, d, hd, hi⟩
      rw [Nat.add_sub_cancel, List.getElem?_eq_getElem hk] at hd
      cases hd
      exact hi
    · rw [Nat.add_sub_cancel, List.getElem?_eq_getElem hk]

end

/-- a session that the muxer can write: at most two tracks, an H.264 track whose CSD has an SPS,
time scales, and room in the tables and in the offsets -/
structure Recordable (env : Env) (ctx : AVFormatContext) (calls : List (Mem × AVPacket)) :
    Prop where
  opened : Opened ctx
  count : ctx.mTrackCnt ≤ 2
  h264 : (ctx.streams .video).codec_id = codecIdH264
  scales : ∀ t ∈ streamsBelow ctx.mTrackCnt, (ctx.priv_data.tracks t).timescale ≠ 0
  csd : ∀ t, (ctx.priv_data.tracks t).csdData.val.length < 2 ^ 27
  avcc : AvccWritable env.heap (ctx.priv_data.tracks .video).csdData.val
  nonempty : calls ≠ []
  streamed : Streamed calls
  started : Started calls
  capacity : Capacity calls
  data : (payload (samples calls)).length < 2 ^ 28

section
variable {env : Env} {ctx : AVFormatContext} {calls : List (Mem × AVPacket)} {s : MmStreamInfo}
  {mpCache : Bytes} {cacheSize : Int}

/-- the file of a session; a reader finds `moov` in it, and the chunks are where the layout has
them -/
theorem Recordable.file (h : Recordable env ctx calls) (hfull : s.AlwaysFull)
    (hempty : s.contents = []) (hpos : s.pos = 0) (hcache : 0 < cacheSize)
    (hlen : (mpCache.length : Int) = cacheSize) (total : Option Int) :
    ∃ out body u c mov, mp4File env ctx s mpCache cacheSize calls total = some out ∧
      Parts ctx calls total body u c mov ∧ out.2.1.length < 2 ^ 31 ∧
      (moovBox env (mov.prepared env)).encode.length < 2 ^ 32 ∧
      findBox (fourcc 'm' 'o' 'o' 'v').val out.2.1 = some (moovBox env (mov.prepared env)).body ∧
      ∀ t, ∀ d ∈ (layout mdatStart (samples calls)).chunks t, d.Stored out.2.1 := by
  have hf := h.opened.fresh
  have hevents := events_samples h.h264 h.started
  obtain ⟨body, u, c, mov, hparts, hsome, hout⟩ :=
    mp4File_spec env hf h.count hfull hlen h.streamed h.nonempty h.started total
  have hwritable : ∀ i ∈ writtenTracks mov, Writable env (mov.tracks i) := fun i hi => by
    refine ⟨?_, hparts.closed.writable hf h.avcc hi⟩
    rw [hparts.closed.timescale]
    exact h.scales i (hparts.closed.below hi)
  obtain ⟨out, heq⟩ := Option.isSome_iff_exists.mp (hsome.mpr ⟨hcache, hwritable⟩)
  have hshort : out.2.1.length < 2 ^ 31 := by
    refine mp4File_short env h.opened h.count hfull hlen h.streamed h.nonempty h.started h.capacity
      h.csd ?_ total heq
    have := h.data
    rw [hempty, hpos, hevents, List.length_nil]
    omega
  obtain ⟨box, hbox, hfile⟩ := hout out heq
  rw [hempty, hpos] at hfile
  obtain ⟨hmoov, hfound, hstored⟩ := hparts.file env hf hbox hfile hshort
  rw [hevents] at hstored
  exact ⟨out, body, u, c, mov, heq, hparts, hshort, hmoov, hfound, hstored⟩

/-- a stream with packets has a track -/
theorem Recordable.written (h : Recordable env ctx calls) {total : Option Int}
    {body : List CacheWrite × AVFormatContext} {u : CodecType} {c : Chunk} {mov : MOVContext}
    (hparts : Parts ctx calls total body u c mov) {t : CodecType}
    (hbelow : t ∈ streamsBelow ctx.mTrackCnt) (hcalls : callsOf t calls ≠ []) :
    t ∈ writtenTracks mov ∧ t ∈ writtenTracks (mov.prepared env) ∧
      Plain ((mov.prepared env).tracks t) ∧
      Bounded ((mov.prepared env).tracks t) := by
  have hpackets : packetsOf t calls ≠ [] := by
    rw [← callsOf_packets, Ne, List.map_eq_nil_iff]
    exact hcalls
  obtain ⟨ht, -, hplain, hbounded⟩ := hparts.written env h.opened.fresh h.capacity hbelow hpackets
  refine ⟨ht, ?_, hplain, hbounded⟩
  rw [prepared_written]
  exact ht

/-- the file of a session, and what a player gets of it -/
theorem Recordable.plays (h : Recordable env ctx calls) (hfull : s.AlwaysFull)
    (hempty : s.contents = []) (hpos : s.pos = 0) (hcache : 0 < cacheSize)
    (hlen : (mpCache.length : Int) = cacheSize) (total : Option Int) :
    ∃ out, mp4File env ctx s mpCache cacheSize calls total = some out ∧
      ∀ t ∈ streamsBelow ctx.mTrackCnt, callsOf t calls ≠ [] →
        (t = .video → Gaps (packetsOf .video calls)) →
        play out.2.1 t = some (recorded ctx calls t) := by
  have hf := h.opened.fresh
  have hevents := events_samples h.h264 h.started
  obtain ⟨out, body, u, c, mov, heq, hparts, hshort, hmoov, hfound, hstored⟩ :=
    h.file hfull hempty hpos hcache hlen total
  refine ⟨out, heq, fun t hbelow hcalls hgaps => ?_⟩
  -- the tables of the track
  obtain ⟨ht, hprepared, hplain, hbounded⟩ := h.written hparts hbelow hcalls
  have htypes := hparts.closed.prepared_type env hf
  obtain ⟨durations, hareas⟩ := hparts.areas hf h.h264 h.streamed h.started h.capacity
  have hread : mov.cache_read_ptr = cacheStart :=
    (congrArg Setup.cache_read_ptr hparts.closed.setup).trans hf.placed.next
  have hroom := (h.capacity.room ctx.streams).samples t
  rw [hevents] at hroom
  have hclosed := hparts.closed
  rw [hevents] at hclosed
  have htable := tableOf_layout env hclosed hread hareas hshort ht (hstored t) (by omega)
  have htimes :=
    stts_read hplain (hbounded.stsz.trans_lt (by norm_num))
      (stts_short (mov.prepared env) hplain hbounded)
  -- the samples in the chunks are those of the packets
  have hsamples := ((layout_of mdatStart (samples calls)).samples t).trans (track_samples t calls)
  have hcount : (tableOfChunks ((layout mdatStart (samples calls)).chunks t)).sizes.length
      = (recorded ctx calls t).length := by
    show ((samplesOf _).map List.length).length = _
    rw [hsamples, List.length_map, List.length_map, recorded, List.length_mapIdx]
  unfold play
  rw [hfound, Option.bind_some, moov_table hmoov htypes hprepared, Option.bind_some,
    moov_times hmoov htypes hprepared, Option.bind_some, htable, htimes, hcount]
  apply mapM_range
  intro k hk
  have hkcalls : k < (callsOf t calls).length := by
    rwa [recorded, List.length_mapIdx] at hk
  have hksamples : k < (samplesOf ((layout mdatStart (samples calls)).chunks t)).length := by
    rwa [hsamples, List.length_map]
  have hsample : (samplesOf ((layout mdatStart (samples calls)).chunks t))[k]
      = sample (callsOf t calls)[k].1 (callsOf t calls)[k].2 t := by
    simp only [hsamples, List.getElem_map]
  obtain ⟨off, -, hinside, -⟩ := tableOfChunks_resolve (hstored t) k hksamples
  obtain ⟨hcall, htrack⟩ := List.mem_filter.mp (List.getElem_mem hkcalls)
  rw [sampleAt_chunks (hstored t) t _ _ hksamples, hsample, unitIn_sample
    (h.started.proper hcall (of_decide_eq_true htrack)) (by rw [← hsample]; omega),
    hparts.time env hf h.streamed h.capacity ht hgaps (by rwa [← callsOf_length]),
    hparts.syncs env hf h.h264 h.streamed h.started h.capacity hmoov ht hkcalls]
  simp only [recorded, List.getElem_mapIdx]

/-- **A recording is played as it was recorded.**  A recordable session over a cache of any size,
into a new file, has a file.  A player that reads this file gets, for each track with a packet, the
units of its packets in their order; at a video unit, if the durations are the gaps between the
presentation times, the time since the first one, and at an audio unit the frames in front of it;
and it may start at the video packets with an IDR unit and at every audio packet. -/
theorem played (h : Recordable env ctx calls) (hfull : s.AlwaysFull) (hempty : s.contents = [])
    (hpos : s.pos = 0) (hcache : 0 < cacheSize) (hlen : (mpCache.length : Int) = cacheSize)
    (total : Option Int) :
    ∃ out, mp4File env ctx s mpCache cacheSize calls total = some out ∧
      ∀ t ∈ streamsBelow ctx.mTrackCnt, callsOf t calls ≠ [] →
        (t = .video → Gaps (packetsOf .video calls)) →
        play out.2.1 t = some (recorded ctx calls t) :=
  h.plays hfull hempty hpos hcache hlen total

end

theorem idrCalls_recordable : Recordable smallEnv smallContext idrCalls where
  opened := smallContext_opened
  count := by decide
  h264 := rfl
  scales := by decide
  csd := by
    intro t
    cases t <;> decide
  avcc := by decide +kernel
  nonempty := List.cons_ne_nil _ _
  streamed := by decide
  started := by decide
  capacity := by
    intro t
    cases t <;> decide
  data := by decide

theorem idrCalls_gaps : Gaps (packetsOf .video idrCalls) := by
  have hvideo : packetsOf .video idrCalls
      = [timedPacket 0 1000 7, timedPacket 0 1040 40, timedPacket 0 1100 60] := by
    decide
  rw [hvideo]
  intro k hk
  have hcases : k = 0 ∨ k = 1 := by
    simp only [List.length_cons, List.length_nil] at hk
    omega
  rcases hcases with rfl | rfl <;> simp [timedPacket]

/-- three video packets, the second one an IDR unit, and an audio packet between them -/
theorem played_idr :
    ∃ out, mp4File smallEnv smallContext newFile [0, 0, 0, 0] 4 idrCalls (some 100)
        = some out ∧
      play out.2.1 .video = some [⟨[4, 5], 0, false⟩, ⟨[0x65, 0x65], 40, true⟩,
        ⟨[4, 5], 100, false⟩] ∧
      play out.2.1 .audio = some [⟨[0x65, 0x65, 0x65, 0x65, 0x65, 0x65], 0, true⟩] := by
  obtain ⟨out, hout, hplay⟩ :=
    played idrCalls_recordable newFile_full rfl rfl (by decide) small_cache (some 100)
  refine ⟨out, hout, ?_, ?_⟩
  · rw [hplay .video (by decide) (List.cons_ne_nil _ _) fun _ => idrCalls_gaps]
    exact congrArg some (by decide)
  · rw [hplay .audio (by decide) (List.cons_ne_nil _ _) fun h => absurd h (by decide)]
    exact congrArg some (by decide)

end Pluto.Mp4

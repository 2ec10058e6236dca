import Pluto.Mp4.Samples

/-!
# The time table of a track

A video packet brings the time since the packet before it.  The first one of these is left out of
`stts`, and a zero is added at the end; an audio track has one entry for all its samples.

* `packetsOf`, `Gaps`   the packets of a stream, with the gaps between their presentation times;
* `Words`               the lengths of the tables are those of a layout (`Areas.words`);
* `tableBox`, `timesOf` the tables of a stream, in the tree of `moov` and in its bytes;
* `moov_tableBox`, `moov_times`   what is found there in the `moov` that was written;
* `timeline_kept`       every session keeps the times of its video packets.
-/

namespace Pluto.Mp4
open Octets Boxes SampleTables

/-! ## the packets of a stream -/

def packetsOf (t : CodecType) (calls : List (Mem × AVPacket)) : List AVPacket :=
  (calls.map Prod.snd).filter fun pkt => codecType pkt.stream_idx = some t

/-- the duration of a packet, an `int`, is the time since the packet before it; that of the first
one is free -/
def Gaps (pkts : List AVPacket) : Prop :=
  ∀ k (_ : k + 1 < pkts.length), pkts[k + 1].duration = pkts[k + 1].pts - pkts[k].pts ∧
    0 ≤ pkts[k + 1].duration ∧ pkts[k + 1].duration < 2 ^ 31

def durations (calls : List (Mem × AVPacket)) : List UInt32 :=
  (packetsOf .video calls).map fun pkt => UInt32.ofInt pkt.duration

theorem packetsOf_concat (t : CodecType) (cs : List (Mem × AVPacket)) (c : Mem × AVPacket) :
    packetsOf t (cs ++ [c]) = packetsOf t cs ++ if codecType c.2.stream_idx = some t then [c.2]
      else [] := by
  unfold packetsOf
  rw [List.map_append, List.filter_append]
  by_cases h : codecType c.2.stream_idx = some t
  · rw [if_pos h]
    simp [h]
  · rw [if_neg h]
    simp [h]

theorem packetsOf_length (t : CodecType) (streams : CodecType → AVCodecContext)
    (calls : List (Mem × AVPacket)) :
    (packetsOf t calls).length = (track t (events streams calls)).length := by
  rw [track_length, events_streams, packetsOf, ← List.countP_eq_length_filter, List.countP_map,
    List.count, streamsOf, List.countP_filterMap]
  refine List.countP_congr fun c _ => ?_
  cases h : codecType c.2.stream_idx with
  | none => simp [h]
  | some u => simp [h]

/-! ## the words of the durations -/

/-- the lengths of the tables are those of a layout -/
structure Words (x : Layout CodecType) (offsets counts sizes : CodecType → List Nat) : Prop where
  offsets : ∀ t, (offsets t).length = (x.chunks t).length
  counts : ∀ t, (counts t).length = (x.closed t).length
  sizes : ∀ t, (sizes t).length = (samplesOf (x.chunks t)).length

/-- all the tables, where of the chunk lengths and the sample sizes only the number matters -/
def Located (mov : MOVContext) (x : Layout CodecType) (offsets : CodecType → List Nat)
    (ds : List UInt32) : Prop :=
  ∃ counts sizes, Areas mov (tableWords offsets counts sizes ds) ∧ Words x offsets counts sizes

/-- all the tables, where of the chunks and samples only the number matters -/
def Recording (mov : MOVContext) (x : Layout CodecType) (ds : List UInt32) : Prop :=
  ∃ offsets counts sizes, Areas mov (tableWords offsets counts sizes ds) ∧
    Words x offsets counts sizes

theorem update_length {l : CodecType → List Nat} {t : CodecType} (v : Nat) (u : CodecType) :
    (Function.update l t (l t ++ [v]) u).length = (l u).length + if t = u then 1 else 0 := by
  rw [Function.update_apply]
  by_cases h : u = t
  · rw [if_pos h, if_pos h.symm, h, List.length_append]
    rfl
  · rw [if_neg h, if_neg (Ne.symm h), Nat.add_zero]

/-- the chunk that a packet ends has a place in its table -/
theorem last_room {mov : MOVContext} {x : Layout CodecType} (hx : Counted mov x) {u : CodecType}
    (hu : mov.last_stream_idx = some u) : (x.closed u).length + 1 = (x.chunks u).length := by
  have hlast := hx.last
  rw [hu] at hlast
  obtain ⟨⟨v, c⟩, hcur, rfl⟩ := Option.map_eq_some_iff.mp hlast.symm
  rw [chunks_current hcur, if_pos rfl, List.length_append]
  rfl

/-- a packet adds to the tables what it adds to the layout: an offset and a count where the stream
changes, and a size -/
theorem Words.packet {mov : MOVContext} {x : Layout CodecType}
    {offsets counts sizes : CodecType → List Nat} (h : Words x offsets counts sizes)
    (hx : Counted mov x) {base : Nat} {t : CodecType} {b : Bytes} (offset count size : Nat) :
    Words (x.add base (t, b))
      (if some t ≠ mov.last_stream_idx then Function.update offsets t (offsets t ++ [offset])
        else offsets)
      (if some t ≠ mov.last_stream_idx then
          mov.last_stream_idx.elim counts fun last =>
            Function.update counts last (counts last ++ [count])
        else counts)
      (Function.update sizes t (sizes t ++ [size])) := by
  refine ⟨?_, ?_, ?_⟩
  · intro u
    rw [add_count]
    by_cases hs : x.Switches t
    · rw [if_pos ((switches_iff hx t).mpr hs), update_length, h.offsets]
      have hiff : (t = u ∧ x.Switches u) = (t = u) :=
        propext ⟨fun hc => hc.1, fun hc => ⟨hc, hc ▸ hs⟩⟩
      simp only [hiff]
    · have hno : ¬ (t = u ∧ x.Switches u) := by
        rintro ⟨rfl, hc⟩
        exact hs hc
      rw [if_neg fun hn => hs ((switches_iff hx t).mp hn), h.offsets, if_neg hno]
      rfl
  · intro u
    rw [add_closed, List.length_append, ended_length, ← h.counts, ← hx.last]
    by_cases hs : x.Switches t
    · rw [if_pos ((switches_iff hx t).mpr hs)]
      cases hlast : mov.last_stream_idx with
      | none => simp
      | some last =>
        show (Function.update counts last _ u).length = _
        rw [update_length]
        simp only [hs, true_and, Option.some.injEq]
    · rw [if_neg fun hn => hs ((switches_iff hx t).mp hn), if_neg fun hc => hs hc.1]
      rfl
  · intro u
    rw [add_samples, List.length_append, ← h.sizes, update_length]
    split
    · rfl
    · rfl

theorem Located.packet {mov : MOVContext} {x : Layout CodecType} {offsets : CodecType → List Nat}
    {ds : List UInt32} (h : Located mov x offsets ds) (hp : Placed mov) (hx : Counted mov x)
    {base : Nat} {t : CodecType} {b : Bytes} (hroom : Room (x.add base (t, b))) (size : Nat) :
    Located (mov.countPacket t size) (x.add base (t, b))
      (if some t ≠ mov.last_stream_idx then
          Function.update offsets t (offsets t ++ [mov.mdat_size + mov.mdat_start_pos])
        else offsets) ds := by
  obtain ⟨counts, sizes, hareas, hwords⟩ := h
  have hcount := le_add_count base x (t, b)
  refine ⟨_, _, hareas.packet hp t size ?_ fun hn => ?_, hwords.packet hx _ _ _⟩
  · have hle := hroom.samples t
    rw [add_samples, if_pos rfl, List.length_append] at hle
    rw [hwords.sizes]
    exact hle
  · have hs := (switches_iff hx t).mp hn
    refine ⟨?_, fun last hl => ?_⟩
    · have hle := hroom.chunks t
      rw [add_count, if_pos ⟨rfl, hs⟩] at hle
      rw [hwords.offsets]
      exact hle
    · have hle := (hcount last).trans (hroom.chunks last)
      rw [← last_room hx hl] at hle
      rw [hwords.counts]
      exact hle

/-- a video packet adds its duration -/
theorem Located.record {mov : MOVContext} {x : Layout CodecType} {offsets : CodecType → List Nat}
    {ds : List UInt32} (h : Located mov x offsets ds)
    (hd : ds.length = (samplesOf (x.chunks .video)).length) (hp : Placed mov) (hx : Counted mov x)
    {base : Nat} {t : CodecType} {b : Bytes} (hroom : Room (x.add base (t, b)))
    (streams : CodecType → AVCodecContext) (m : Mem) (pkt : AVPacket) :
    Located (mov.record streams t m pkt) (x.add base (t, b))
      (if some t ≠ mov.last_stream_idx then
          Function.update offsets t (offsets t ++ [mov.mdat_size + mov.mdat_start_pos])
        else offsets) (ds ++ if t = .video then [UInt32.ofInt pkt.duration] else []) := by
  obtain ⟨counts, sizes, hareas, hwords⟩ := h.packet hp hx hroom (pkt.size0 + pkt.size1)
  refine ⟨counts, sizes, ?_, hwords⟩
  cases t with
  | audio =>
    rw [if_neg (by decide : ¬ CodecType.audio = .video), List.append_nil]
    exact hareas.congr rfl rfl
  | video =>
    have hlen : ds.length < 32768 := by
      have hle := hroom.samples .video
      rw [add_samples, if_pos rfl, List.length_append, ← hd] at hle
      exact hle
    have hduration :=
      hareas.countDuration (hp.congr (countPacket_setup mov .video _)) pkt.duration hlen
    rw [if_pos (rfl : CodecType.video = .video)]
    unfold MOVContext.record
    dsimp only
    split
    · unfold MOVContext.countKeyFrame
      split
      · exact hduration.congr rfl rfl
      · exact hduration.congr rfl rfl
    · exact hduration

/-- the closing packet -/
theorem Located.endChunk {mov : MOVContext} {x : Layout CodecType} {offsets : CodecType → List Nat}
    {ds : List UInt32} (h : Located mov x offsets ds) (hx : Counted mov x) {u : CodecType}
    (hu : mov.last_stream_idx = some u) (hroom : Room x) :
    ∃ counts sizes, Areas (mov.endChunk u) (tableWords offsets counts sizes ds) := by
  obtain ⟨counts, sizes, hareas, hwords⟩ := h
  have hchunks := hroom.chunks u
  rw [← last_room hx hu, ← hwords.counts] at hchunks
  exact ⟨_, sizes, hareas.endChunk u hchunks⟩

theorem Recording.record {mov : MOVContext} {x : Layout CodecType} {ds : List UInt32}
    (h : Recording mov x ds) (hd : ds.length = (samplesOf (x.chunks .video)).length)
    (hp : Placed mov) (hx : Counted mov x) {base : Nat} {t : CodecType} {b : Bytes}
    (hroom : Room (x.add base (t, b))) (streams : CodecType → AVCodecContext) (m : Mem)
    (pkt : AVPacket) :
    Recording (mov.record streams t m pkt) (x.add base (t, b))
      (ds ++ if t = .video then [UInt32.ofInt pkt.duration] else []) := by
  obtain ⟨offsets, hoffsets⟩ := h
  exact ⟨_, Located.record hoffsets hd hp hx hroom streams m pkt⟩

/-- the counters and the durations behind the calls `cs` -/
structure Clocked (start : Setup) (streams : CodecType → AVCodecContext) (mov : MOVContext)
    (cs : List (Mem × AVPacket)) : Prop extends Tracked start mov (events streams cs) where
  recording : Recording mov (layout mdatStart (events streams cs)) (durations cs)

theorem durations_length (streams : CodecType → AVCodecContext) (cs : List (Mem × AVPacket)) :
    (durations cs).length
      = (samplesOf ((layout mdatStart (events streams cs)).chunks .video)).length := by
  rw [durations, List.length_map, packetsOf_length .video streams, (layout_of mdatStart _).samples]

theorem durations_concat (cs : List (Mem × AVPacket)) {c : Mem × AVPacket} {t : CodecType}
    (ht : codecType c.2.stream_idx = some t) :
    durations (cs ++ [c]) = durations cs ++ if t = .video then [UInt32.ofInt c.2.duration]
      else [] := by
  unfold durations
  rw [packetsOf_concat, List.map_append, ht]
  cases t with
  | video => rfl
  | audio => rfl

theorem Fresh.clocked {ctx : AVFormatContext} (h : Fresh ctx) :
    Clocked ctx.headed.priv_data.setup ctx.streams ctx.headed.priv_data [] where
  toTracked := h.tracked
  recording :=
    ⟨fun _ => [], fun _ => [], fun _ => [], h.areas, ⟨fun _ => rfl, fun _ => rfl, fun _ => rfl⟩⟩

/-- the tables have room for every packet of a session -/
theorem prefix_room {ctx : AVFormatContext} (h : Fresh ctx) {calls cs : List (Mem × AVPacket)}
    (hcap : Capacity calls) (hpre : cs <+: calls) {mov : MOVContext}
    (hsetup : mov.setup = ctx.headed.priv_data.setup) :
    Room (layout mdatStart (events ctx.streams cs)) ∧ Placed mov := by
  obtain ⟨rest, hrest⟩ := hpre
  refine ⟨Room.of_prefix ⟨events ctx.streams rest, ?_⟩ (hcap.room ctx.streams), ?_⟩
  · rw [← events_append]
    exact congrArg (events ctx.streams) hrest
  · have hstart : Placed ctx.headed.priv_data := ⟨h.placed.start, h.placed.stop, h.placed.next⟩
    exact hstart.congr hsetup

/-- **The packets of a session**: durations. -/
theorem packets_clocked {ctx : AVFormatContext} (h : Fresh ctx) {calls : List (Mem × AVPacket)}
    (hs : Streamed calls) (hcap : Capacity calls) {r : List CacheWrite × AVFormatContext}
    (hr : packets ctx.headed calls = some r) :
    Clocked ctx.headed.priv_data.setup ctx.streams r.2.priv_data calls := by
  refine packets_prefix (P := Clocked ctx.headed.priv_data.setup ctx.streams) ctx.headed []
    rfl rfl hs ?_ h.clocked hr
  intro mov cs t c hc ht hpre hmov
  have hevents := events_concat ctx.streams cs ht
  obtain ⟨hroom, hplaced⟩ := prefix_room h hcap hpre hmov.setup
  have htracked :=
    hmov.toTracked.record ctx.headed.streams t (emitted (packetWrites ctx.streams t c.1 c.2)) c.1
      c.2
  rw [hevents, layout_snoc] at hroom
  have hrecording :=
    hmov.recording.record (durations_length ctx.streams cs) hplaced hmov.counted hroom ctx.streams
      c.1 c.2
  refine ⟨?_, ?_⟩
  · rw [hevents]
    exact htracked
  · rw [hevents, layout_snoc, durations_concat cs ht]
    exact hrecording

/-! ## reading `stts` -/

/-- the runs of `stts` of a stream, from the body of `moov` -/
def timesOf (moov : Bytes) (t : CodecType) : Option (List (Nat × Nat)) :=
  (trakOf moov t).bind fun trak =>
    (findPath [(fourcc 'm' 'd' 'i' 'a').val, (fourcc 'm' 'i' 'n' 'f').val,
      (fourcc 's' 't' 'b' 'l').val] trak).bind
      fun stbl => (findBox (fourcc 's' 't' 't' 's').val stbl).map sttsEntries

/-- the `trak` of a stream in the tree -/
def trakBoxOf (moov : Box) (t : CodecType) : Option Box :=
  moov.children.find? fun u => u.tag = fourcc 't' 'r' 'a' 'k' ∧
    (u.under [fourcc 'm' 'd' 'i' 'a', fourcc 'h' 'd' 'l' 'r']).map (fun hdlr => slice hdlr.body 8 4)
      = some (hdlrType t).val

/-- a table of a stream in the tree, by its tag -/
def tableBox (moov : Box) (t : CodecType) (tag : Tag) : Option Box :=
  (trakBoxOf moov t).bind fun trak =>
    (trak.under [fourcc 'm' 'd' 'i' 'a', fourcc 'm' 'i' 'n' 'f', fourcc 's' 't' 'b' 'l']).bind
        fun stbl => stbl.child tag

/-- the runs as the reads of the write function return them -/
def runsOfTrack (mov : MOVContext) (track : MOVTrack) : List (Nat × Nat) :=
  match track.enc.codec_type with
  | .audio => [(track.stsz_size, u32 track.enc.frame_size)]
  | .video =>
    singles (shifted ((mov.entries (.stts, track.stream_type) track.stts_size).map UInt32.toNat))

section
variable {env : Env} {mov : MOVContext} {track : MOVTrack}

theorem stts_body (h : Plain track) :
    (sttsBox mov track).body
      = be 4 0 ++ be 4 (runsOfTrack mov track).length
        ++ (runsOfTrack mov track).flatMap sttsRecord := by
  rw [sttsBox, leaf_body]
  unfold sttsFields runsOfTrack
  cases hty : track.enc.codec_type with
  | audio => simp [sttsRecord]
  | video =>
    have hne : (mov.entries (.stts, track.stream_type) track.stts_size).map UInt32.toNat ≠ [] := by
      refine List.ne_nil_of_length_pos ?_
      rw [List.length_map, entries_length]
      exact h.duration hty
    have hlen :
        (singles (shifted ((mov.entries (.stts, track.stream_type) track.stts_size).map
          UInt32.toNat))).length
        = track.stts_size := by
      rw [singles, List.length_map, shifted_length hne, List.length_map, entries_length]
    dsimp only
    rw [if_pos h.stts, hlen]
    simp only [emitted_append, emitted_putBe32, emitted_durations]
    simp [shifted, singles, sttsRecord]

theorem u32_lt (v : Int) : u32 v < 2 ^ 32 := by
  unfold u32
  omega

theorem stts_read (h : Plain track) (hsize : track.stsz_size < 2 ^ 32)
    (hlen : (sttsBox mov track).encode.length < 2 ^ 32) :
    sttsEntries (sttsBox mov track).body = runsOfTrack mov track := by
  have hbody : (sttsBox mov track).body = _ := stts_body h
  have hcount : (runsOfTrack mov track).length < 2 ^ 32 := by
    have hle := body_le (sttsBox mov track)
    rw [hbody, List.length_append, flatMap_length _ _ 8 fun e _ => sttsRecord_length e] at hle
    omega
  rw [hbody]
  refine sttsEntries_eq _ hcount fun e he => ?_
  unfold runsOfTrack at he
  split at he
  · rw [List.mem_singleton.mp he]
    exact ⟨hsize, u32_lt _⟩
  · obtain ⟨v, hv, rfl⟩ := List.mem_map.mp he
    refine ⟨by norm_num, ?_⟩
    rcases List.mem_append.mp hv with hv | hv
    · exact words_lt _ v (List.mem_of_mem_tail hv)
    · rw [List.mem_singleton.mp hv]
      norm_num

theorem stts_short (mov : MOVContext) (h : Plain track) (hb : Bounded track) :
    (sttsBox mov track).encode.length < 2 ^ 32 := by
  rw [← stts_length mov h, movGetSttsTagSize]
  cases hty : track.enc.codec_type with
  | video =>
    have := hb.stts hty
    dsimp only
    omega
  | audio =>
    dsimp only
    omega

theorem stsz_short (mov : MOVContext) (hb : Bounded track) :
    (stszBox mov track).encode.length < 2 ^ 32 := by
  have := hb.stsz
  rw [← stsz_length, movGetStszTagSize]
  omega

/-- the track of a stream in the tree -/
theorem moov_trakBox (htype : ∀ i ∈ writtenTracks mov, (mov.tracks i).enc.codec_type = i)
    {t : CodecType} (ht : t ∈ writtenTracks mov) :
    trakBoxOf (moovBox env mov) t = some (trakBox env mov (mov.tracks t)) := by
  have hhandler : ∀ i ∈ writtenTracks mov,
      ((trakBox env mov (mov.tracks i)).under [fourcc 'm' 'd' 'i' 'a', fourcc 'h' 'd' 'l' 'r']).map
        (fun hdlr => slice hdlr.body 8 4) = some (hdlrType i).val := by
    intro i hi
    rw [trak_under.1, Option.map_some, hdlr_handler, htype i hi]
  unfold trakBoxOf
  rw [find_unique (trak_child ht)]
  · exact decide_eq_true ⟨rfl, hhandler t ht⟩
  · intro v hv hp
    obtain ⟨htag, hhandle⟩ := of_decide_eq_true hp
    obtain ⟨i, hi, rfl⟩ := moov_children hv htag
    rw [hdlrType_inj (Option.some.inj ((hhandler i hi).symm.trans hhandle))]

/-- a table in the tree -/
theorem moov_stblChild (htype : ∀ i ∈ writtenTracks mov, (mov.tracks i).enc.codec_type = i)
    {t : CodecType} (ht : t ∈ writtenTracks mov) (tag : Tag) :
    tableBox (moovBox env mov) t tag = (stblBox env mov (mov.tracks t)).child tag := by
  unfold tableBox
  rw [moov_trakBox htype ht, Option.bind_some, trak_under.2, Option.bind_some]

/-- **The tables in the tree** are those that were written. -/
theorem moov_tableBox (htype : ∀ i ∈ writtenTracks mov, (mov.tracks i).enc.codec_type = i)
    {t : CodecType} (ht : t ∈ writtenTracks mov) {u : Box}
    (hu : u ∈ [sttsBox mov (mov.tracks t), stscBox mov (mov.tracks t),
      stszBox mov (mov.tracks t), stcoBox mov (mov.tracks t)]) : tableBox (moovBox env mov) t u.tag
        = some u := by
  rw [moov_stblChild htype ht, stbl_child hu]

/-- **The runs that are read** are those that were written. -/
theorem moov_times (h : (moovBox env mov).encode.length < 2 ^ 32)
    (htype : ∀ i ∈ writtenTracks mov, (mov.tracks i).enc.codec_type = i) {t : CodecType}
    (ht : t ∈ writtenTracks mov) :
    timesOf (moovBox env mov).body t = some (sttsEntries (sttsBox mov (mov.tracks t)).body) := by
  obtain ⟨htrak, hlen⟩ := moov_trak h htype ht
  obtain ⟨-, hpath, hstbl⟩ := trak_path hlen
  obtain ⟨hfound, -⟩ := findBox_child hstbl (stbl_child (u := sttsBox mov (mov.tracks t)) (by simp))
  unfold timesOf
  rw [htrak, Option.bind_some, hpath, Option.bind_some,
    show findBox (fourcc 's' 't' 't' 's').val _ = _ from hfound, Option.map_some]

end

/-! ## every session -/

/-- a session with a result has at most two tracks, and a packet -/
theorem session_some {env : Env} {ctx : AVFormatContext} (hf : Fresh ctx)
    {calls : List (Mem × AVPacket)} {total : Option Int} {session : List CacheOp × AVFormatContext}
    (h : mp4Session env ctx calls total = some session) :
    ctx.mTrackCnt ≤ 2 ∧ calls ≠ [] := by
  obtain ⟨header, hheader, hrest⟩ := Option.bind_eq_some_iff.mp h
  unfold movWriteHeader at hheader
  split at hheader
  · next hn =>
    refine ⟨hn, ?_⟩
    rintro rfl
    cases hheader
    have hlast : (totalTime ctx.headed total).priv_data.last_stream_idx = none := by
      rw [totalTime_rest]
      exact hf.last
    have hclosing : movWritePacket (totalTime ctx.headed total) (fun _ => 0) lastPacket = none := by
      unfold movWritePacket
      dsimp only
      rw [if_pos (show lastPacket.stream_idx = -1 from rfl), hlast, Option.map_none]
    rw [packets, Option.bind_some] at hrest
    dsimp only at hrest
    unfold movWriteTrailer at hrest
    rw [show Option.elim total _ _ = totalTime ctx.headed total from rfl, hclosing] at hrest
    cases hrest
  · cases hheader

/-- the durations behind the closing packet -/
theorem Parts.durations {ctx : AVFormatContext} (hf : Fresh ctx) {calls : List (Mem × AVPacket)}
    (hs : Streamed calls) (hcap : Capacity calls) {total : Option Int}
    {body : List CacheWrite × AVFormatContext} {u : CodecType} {c : Chunk} {mov : MOVContext}
    (h : Parts ctx calls total body u c mov) :
    Filled mov (.stts, .video) (durations calls) := by
  have hclock := packets_clocked hf hs hcap h.packets
  obtain ⟨offsets, counts, sizes, hareas, hwords⟩ := hclock.recording
  have hcounted := (hclock.toTracked.totalTime total).counted
  have hlast : (totalTime body.2 total).priv_data.last_stream_idx = some u := by
    rw [hcounted.last, h.current]
    rfl
  have hbefore : Located (totalTime body.2 total).priv_data
      (layout mdatStart (events ctx.streams calls)) offsets
      (Mp4.durations calls) := by
    rw [totalTime_rest]
    exact ⟨counts, sizes, hareas.congr rfl rfl, hwords⟩
  obtain ⟨counts', sizes', hend⟩ := hbefore.endChunk hcounted hlast (hcap.room ctx.streams)
  rw [h.context]
  exact hend (.stts, .video) duration_real

/-- the runs of the video track -/
theorem Parts.runs_video (env : Env) {ctx : AVFormatContext} (hf : Fresh ctx)
    {calls : List (Mem × AVPacket)} (hs : Streamed calls) (hcap : Capacity calls)
    {total : Option Int} {body : List CacheWrite × AVFormatContext} {u : CodecType} {c : Chunk}
    {mov : MOVContext} (h : Parts ctx calls total body u c mov) (ht : .video ∈ writtenTracks mov) :
    runsOfTrack (mov.prepared env) ((mov.prepared env).tracks .video)
      = singles (shifted ((Mp4.durations calls).map UInt32.toNat)) := by
  have htype := h.closed.prepared_type env hf .video (by rw [prepared_written]; exact ht)
  have hread : mov.cache_read_ptr = cacheStart :=
    (congrArg Setup.cache_read_ptr h.closed.setup).trans hf.placed.next
  have hcount : (mov.tracks .video).stts_size = (Mp4.durations calls).length := by
    rw [h.closed.timed.stts, h.closed.stsz, ← packetsOf_length, Mp4.durations, List.length_map]
  have hwords := (h.durations hf hs hcap).entries (congrFun hread _)
  unfold runsOfTrack
  rw [htype, prepared_entries, prepared_tracks env mov .video (written_below ht).1]
  dsimp only
  rw [hcount, hwords]

theorem toNat_duration {v : Int} (h0 : 0 ≤ v) (h1 : v < 2 ^ 31) :
    ((UInt32.ofInt v).toNat : Int) = v := by
  have hlt : (v % 2 ^ 32).toNat < 2 ^ 32 := by omega
  rw [UInt32.ofInt, UInt32.toNat_ofNat_of_lt' hlt]
  omega

/-- the presentation time of video packet `k` -/
def ptsOf (calls : List (Mem × AVPacket)) (k : Nat) : Int :=
  ((packetsOf .video calls).map AVPacket.pts).getD k 0

theorem ptsOf_eq {calls : List (Mem × AVPacket)} {k : Nat}
    (hk : k < (packetsOf .video calls).length) :
    ptsOf calls k = (packetsOf .video calls)[k].pts := by
  rw [ptsOf, List.getD_eq_getElem?_getD, List.getElem?_map, List.getElem?_eq_getElem hk]
  rfl

/-- the recorded durations are the gaps, but for the first one -/
theorem durations_gaps {calls : List (Mem × AVPacket)} (h : Gaps (packetsOf .video calls)) (k : Nat)
    (hk : k + 1 < ((durations calls).map UInt32.toNat).length) :
    (((durations calls).map UInt32.toNat)[k + 1] : Int) = ptsOf calls (k + 1) - ptsOf calls k := by
  have hlt : k + 1 < (packetsOf .video calls).length := by
    rw [List.length_map, durations, List.length_map] at hk
    exact hk
  obtain ⟨hgap, h0, h1⟩ := h k hlt
  have hword : ((durations calls).map UInt32.toNat)[k + 1]
      = (UInt32.ofInt (packetsOf .video calls)[k + 1].duration).toNat := by
    rw [List.getElem_map]
    unfold durations
    rw [List.getElem_map]
  rw [hword, toNat_duration h0 h1, hgap, ptsOf_eq hlt, ptsOf_eq (by omega)]

/-- a session with a result writes the box `moov` -/
theorem Parts.session_moov (env : Env) {ctx : AVFormatContext} (hf : Fresh ctx)
    {calls : List (Mem × AVPacket)} {total : Option Int} {body : List CacheWrite × AVFormatContext}
    {u : CodecType} {c : Chunk} {mov : MOVContext} (h : Parts ctx calls total body u c mov)
    {ops : List CacheOp}
    (hops : some ops = (movWriteMoovTag env mov).map fun moov =>
      bodyOps body.1 ++ (moov.1 ++ finishOps moov.2) ++ [.tell]) :
    ∃ (front back : List CacheOp) (ws : List CacheWrite), ops = front ++ writeOps ws ++ back ∧
      emitted ws = (moovBox env (mov.prepared env)).encode := by
  obtain ⟨written, hwritten, hops⟩ := Option.map_eq_some_iff.mp hops.symm
  obtain ⟨box, hbox, rfl⟩ := Option.map_eq_some_iff.mp hwritten
  obtain ⟨hbytes, -, -⟩ := emitted_moov (fun i hi => h.closed.plain hf hi) hbox
  refine ⟨bodyOps body.1 ++ (if moovFits env mov then [CacheOp.seek mov.free_pos .seekSet] else []),
    (if moovFits env mov then
        writeOps (movWriteFreeTag (u32 (movHeaderReserveSize - moovSize env mov - 28)))
      else []) ++ finishOps box.2 ++ [.tell], box.1, ?_, hbytes⟩
  rw [← hops]
  simp only [List.append_assoc]

/-- the parts of a session with a result, and its box `moov` -/
theorem session_parts (env : Env) {ctx : AVFormatContext} (hf : Fresh ctx)
    {calls : List (Mem × AVPacket)} (hs : Streamed calls) {total : Option Int}
    {session : List CacheOp × AVFormatContext} (h : mp4Session env ctx calls total = some session) :
    ∃ body u c mov, Parts ctx calls total body u c mov ∧
      some session.1 = (movWriteMoovTag env mov).map (fun moov =>
        bodyOps body.1 ++ (moov.1 ++ finishOps moov.2) ++ [.tell]) ∧
      ∃ (front back : List CacheOp) (ws : List CacheWrite),
        session.1 = front ++ writeOps ws ++ back ∧
        emitted ws = (moovBox env (mov.prepared env)).encode := by
  obtain ⟨hn, hne⟩ := session_some hf h
  obtain ⟨body, u, c, mov, hparts, hsession⟩ := mp4Session_parts env hf hn hs hne total
  rw [h, Option.map_some] at hsession
  exact ⟨body, u, c, mov, hparts, hsession, hparts.session_moov env hf hsession⟩

/-- the track of a stream with packets is written -/
theorem Parts.mem_written {ctx : AVFormatContext} {calls : List (Mem × AVPacket)}
    {total : Option Int} {body : List CacheWrite × AVFormatContext} {u : CodecType} {c : Chunk}
    {mov : MOVContext} (h : Parts ctx calls total body u c mov) {t : CodecType}
    (hbelow : t ∈ streamsBelow ctx.mTrackCnt) (hpackets : packetsOf t calls ≠ []) :
    t ∈ writtenTracks mov ∧ (mov.tracks t).stsz_size = (packetsOf t calls).length := by
  have hsize : (mov.tracks t).stsz_size = (packetsOf t calls).length := by
    rw [h.closed.stsz, packetsOf_length t ctx.streams]
  refine ⟨List.mem_filter.mpr ⟨?_, decide_eq_true ?_⟩, hsize⟩
  · rw [show mov.nb_streams = ctx.mTrackCnt from congrArg Setup.nb_streams h.closed.setup]
    exact hbelow
  · rw [hsize]
    exact List.length_pos_of_ne_nil hpackets

/-- it has a sample for each packet, and its tables hold them -/
theorem Parts.written (env : Env) {ctx : AVFormatContext} (hf : Fresh ctx)
    {calls : List (Mem × AVPacket)} (hcap : Capacity calls) {total : Option Int}
    {body : List CacheWrite × AVFormatContext} {u : CodecType} {c : Chunk} {mov : MOVContext}
    (h : Parts ctx calls total body u c mov) {t : CodecType}
    (hbelow : t ∈ streamsBelow ctx.mTrackCnt) (hpackets : packetsOf t calls ≠ []) :
    t ∈ writtenTracks mov ∧ ((mov.prepared env).tracks t).stsz_size = (packetsOf t calls).length ∧
      Plain ((mov.prepared env).tracks t) ∧ Bounded ((mov.prepared env).tracks t) := by
  obtain ⟨ht, hsize⟩ := h.mem_written hbelow hpackets
  have htrack := prepared_tracks env mov t (written_below ht).1
  refine ⟨ht, ?_, ?_, ?_⟩
  · rw [htrack]
    exact hsize
  · obtain ⟨h1, h2, h3, h4, h5⟩ := h.closed.plain hf ht
    rw [htrack]
    exact ⟨h1, h2, h3, h4, h5⟩
  · obtain ⟨h1, h2, h3, h4, h5⟩ := h.closed.bounded hf hcap ht
    rw [htrack]
    exact ⟨h1, h2, h3, h4, h5⟩

/-- `stsz` and `stts` of a track have an entry for each packet of its stream -/
theorem Parts.sample_tables (env : Env) {ctx : AVFormatContext} (hf : Fresh ctx)
    {calls : List (Mem × AVPacket)} (hs : Streamed calls) (hcap : Capacity calls)
    {total : Option Int} {body : List CacheWrite × AVFormatContext} {u : CodecType} {c : Chunk}
    {mov : MOVContext} (h : Parts ctx calls total body u c mov) {t : CodecType}
    (hbelow : t ∈ streamsBelow ctx.mTrackCnt) (hpackets : packetsOf t calls ≠ []) :
    tableBox (moovBox env (mov.prepared env)) t (fourcc 's' 't' 's' 'z')
        = some (stszBox (mov.prepared env) ((mov.prepared env).tracks t)) ∧
      tableBox (moovBox env (mov.prepared env)) t (fourcc 's' 't' 't' 's')
        = some (sttsBox (mov.prepared env) ((mov.prepared env).tracks t)) ∧
      (stszEntries (stszBox (mov.prepared env) ((mov.prepared env).tracks t)).body).length
        = (packetsOf t calls).length ∧
      (expand (sttsEntries (sttsBox (mov.prepared env) ((mov.prepared env).tracks t)).body)).length
        = (packetsOf t calls).length := by
  obtain ⟨ht, hnumber, hplain, hbounded⟩ := h.written env hf hcap hbelow hpackets
  have hprepared : t ∈ writtenTracks (mov.prepared env) := by
    rw [prepared_written]
    exact ht
  have htypes := h.closed.prepared_type env hf
  refine ⟨moov_tableBox htypes hprepared
    (List.mem_cons_of_mem _ (List.mem_cons_of_mem _ List.mem_cons_self)),
    moov_tableBox htypes hprepared List.mem_cons_self, ?_, ?_⟩
  · rw [stsz_read (stsz_short (mov.prepared env) hbounded), tableOf, List.length_map,
      entries_length, hnumber]
  · rw [stts_read hplain (hbounded.stsz.trans_lt (by norm_num))
      (stts_short (mov.prepared env) hplain hbounded)]
    cases t with
    | video =>
      have hne : (Mp4.durations calls).map UInt32.toNat ≠ [] := by
        rw [Ne, List.map_eq_nil_iff, Mp4.durations, List.map_eq_nil_iff]
        exact hpackets
      rw [h.runs_video env hf hs hcap ht, expand_singles, shifted_length hne, List.length_map,
        Mp4.durations, List.length_map]
    | audio =>
      unfold runsOfTrack
      rw [htypes .audio hprepared]
      dsimp only
      rw [expand_run, hnumber]

/-- **The times of a session.**  Every session with a result writes a box `moov`.  The `stts` of
each track with a packet has as many samples as its `stsz`, one for each packet; and if the duration
of each video packet is the time since the one before it, video sample `k` is decoded as long after
the first one as it was presented.  A reader of the bytes finds these two tables if the size of
`moov` fits into its 32 bits. -/
theorem timeline_kept (env : Env) {ctx : AVFormatContext} (ho : Opened ctx)
    {calls : List (Mem × AVPacket)} (hs : Streamed calls) (hcap : Capacity calls)
    {total : Option Int} {session : List CacheOp × AVFormatContext}
    (h : mp4Session env ctx calls total = some session) :
    ∃ (moov : Box) (front back : List CacheOp) (ws : List CacheWrite),
      session.1 = front ++ writeOps ws ++ back ∧
      emitted ws = moov.encode ∧ moov.tag = fourcc 'm' 'o' 'o' 'v' ∧
      ∀ t ∈ streamsBelow ctx.mTrackCnt, packetsOf t calls ≠ [] →
        ∃ stts stsz, tableBox moov t (fourcc 's' 't' 't' 's') = some stts ∧
          tableBox moov t (fourcc 's' 't' 's' 'z') = some stsz ∧
          (expand (sttsEntries stts.body)).length = (stszEntries stsz.body).length ∧
          (stszEntries stsz.body).length = (packetsOf t calls).length ∧
          (t = .video → Gaps (packetsOf t calls) → ∀ k (_ : k < (packetsOf t calls).length),
            (decodeTime (sttsEntries stts.body) k : Int)
              = (packetsOf t calls)[k].pts - (packetsOf t calls)[0].pts) ∧
          (moov.encode.length < 2 ^ 32 → timesOf moov.body t = some (sttsEntries stts.body) ∧
            ∃ T, trackTable moov.body t = some T ∧ T.sizes = stszEntries stsz.body) := by
  have hf := ho.fresh
  obtain ⟨body, u, c, mov, hparts, -, front, back, ws, hwrites, hbytes⟩ := session_parts env hf hs h
  refine ⟨moovBox env (mov.prepared env), front, back, ws, hwrites, hbytes, rfl, ?_⟩
  intro t hbelow hpackets
  obtain ⟨ht, -, hplain, hbounded⟩ := hparts.written env hf hcap hbelow hpackets
  have htypes := hparts.closed.prepared_type env hf
  have hprepared : t ∈ writtenTracks (mov.prepared env) := by
    rw [prepared_written]
    exact ht
  -- what is read from the two tables
  have htimes :=
    stts_read hplain (hbounded.stsz.trans_lt (by norm_num))
      (stts_short (mov.prepared env) hplain hbounded)
  have hsizes := stsz_read (stsz_short (mov.prepared env) hbounded)
  obtain ⟨hstsz, hstts, hcount, hexpand⟩ := hparts.sample_tables env hf hs hcap hbelow hpackets
  refine ⟨_, _, hstts, hstsz, hexpand.trans hcount.symm, hcount, ?_, ?_⟩
  · rintro rfl hgaps k hk
    have hlen : k < ((Mp4.durations calls).map UInt32.toNat).length := by
      rw [List.length_map, Mp4.durations, List.length_map]
      exact hk
    rw [htimes, hparts.runs_video env hf hs hcap ht, decodeTime_gaps (durations_gaps hgaps) hlen,
      ptsOf_eq hk, ptsOf_eq (by omega)]
  · intro hmoov
    exact ⟨moov_times hmoov htypes hprepared, _, moov_table hmoov htypes hprepared, hsizes.symm⟩

/-- a session whose tracks can be written has a result -/
theorem session_ready {env : Env} {ctx : AVFormatContext} (hf : Fresh ctx) (hn : ctx.mTrackCnt ≤ 2)
    {calls : List (Mem × AVPacket)} (hs : Streamed calls) (hne : calls ≠ []) {total : Option Int}
    (hready : ((packets ctx.headed calls).bind fun body =>
      (movWritePacket (totalTime body.2 total) (fun _ => 0) lastPacket).map
        fun closed : Int × List CacheWrite × AVFormatContext =>
          decide (∀ i ∈ writtenTracks closed.2.2.priv_data,
            Writable env (closed.2.2.priv_data.tracks i)))
      = some true) : ∃ session, mp4Session env ctx calls total = some session := by
  obtain ⟨body, u, c, mov, hparts, hsession⟩ := mp4Session_parts env hf hn hs hne total
  rw [hparts.packets, Option.bind_some, hparts.last, Option.map_some] at hready
  exact Option.isSome_iff_exists.mp
    ((hparts.session_isSome hf hsession).mpr (of_decide_eq_true (Option.some.inj hready)))

/-! ## a small session with times -/

def timedPacket (stream_idx : Int) (pts duration : Int) : AVPacket where
  pts := pts
  data0 := 0
  size0 := 6
  data1 := 100
  size1 := 0
  stream_idx := stream_idx
  flags := 0
  duration := duration

/-- three video packets with an audio packet between them -/
def timedCalls : List (Mem × AVPacket) :=
  [(fun a => UInt8.ofNat a.toNat, timedPacket 0 1000 7),
    (fun a => UInt8.ofNat a.toNat, timedPacket 0 1040 40),
    (fun a => UInt8.ofNat a.toNat, timedPacket 1 1050 23),
    (fun a => UInt8.ofNat a.toNat, timedPacket 0 1100 60)]

theorem timedCalls_capacity : Capacity timedCalls := by
  intro t
  cases t <;> decide

/-- its tracks can be written -/
theorem timed_writable :
    ((packets smallContext.headed timedCalls).bind fun body =>
      (movWritePacket (totalTime body.2 (some 100)) (fun _ => 0) lastPacket).map
        fun closed : Int × List CacheWrite × AVFormatContext =>
          decide (∀ i ∈ writtenTracks closed.2.2.priv_data,
            Writable smallEnv (closed.2.2.priv_data.tracks i)))
      = some true := by
  decide +kernel

theorem timed_session :
    ∃ session, mp4Session smallEnv smallContext timedCalls (some 100) = some session :=
  session_ready smallContext_opened.fresh (by decide) (by decide)
    (List.cons_ne_nil _ _) timed_writable

theorem timeline_kept_three :
    ∃ session moov stts, mp4Session smallEnv smallContext timedCalls (some 100) = some session ∧
      tableBox moov .video (fourcc 's' 't' 't' 's') = some stts ∧
      (expand (sttsEntries stts.body)).length = 3 ∧
      decodeTime (sttsEntries stts.body) 1 = 40 ∧ decodeTime (sttsEntries stts.body) 2 = 100 := by
  obtain ⟨session, hsession⟩ := timed_session
  obtain ⟨moov, -, -, -, -, -, -, htables⟩ := timeline_kept smallEnv smallContext_opened
    (by decide : Streamed timedCalls) timedCalls_capacity hsession
  have hvideo : packetsOf .video timedCalls
      = [timedPacket 0 1000 7, timedPacket 0 1040 40, timedPacket 0 1100 60] := by
    decide
  obtain ⟨stts, stsz, hstts, -, hlen, hcount, htimes, -⟩ := htables .video (by decide)
    (by rw [hvideo]; exact List.cons_ne_nil _ _)
  rw [hvideo] at hcount
  have hgaps : Gaps (packetsOf .video timedCalls) := by
    rw [hvideo]
    intro k hk
    have hcases : k = 0 ∨ k = 1 := by
      simp only [List.length_cons, List.length_nil] at hk
      omega
    rcases hcases with rfl | rfl <;> simp [timedPacket]
  refine ⟨session, moov, stts, hsession, hstts, hlen.trans hcount, ?_, ?_⟩
  · exact Int.ofNat_inj.mp (htimes rfl hgaps 1 (by decide))
  · exact Int.ofNat_inj.mp (htimes rfl hgaps 2 (by decide))

end Pluto.Mp4

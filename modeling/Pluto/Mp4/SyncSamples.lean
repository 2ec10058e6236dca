import Pluto.Mp4.Timeline
import Pluto.Mp4.Stores
import Pluto.Mp4.Driver

/-!
# The key frames of a track

A video packet with an IDR unit stores the number of its sample in the key-frame table; the number
comes from the counter of `stts`, the trailer writes as many entries as another counter says.

* `callsOf`, `idrSamples`   the packets of a stream, and the numbers of those with an IDR unit;
* `Synced`                  the key-frame table lists these numbers, behind every packet of a
  session;
* `stss_read`               what is read from `stss`;
* `stss_exact`              every session lists exactly the samples with an IDR unit.
-/

namespace Pluto.Mp4
open Octets Boxes SampleTables

/-! ## the packets of a stream -/

def callsOf (t : CodecType) (calls : List (Mem × AVPacket)) : List (Mem × AVPacket) :=
  calls.filter fun c => codecType c.2.stream_idx = some t

/-- the NAL type behind the start code is 5, in whichever segment its byte lies -/
def Idr (c : Mem × AVPacket) : Prop := byteAt (c.2.payload c.1) 4 &&& 0x1f = 5

instance : DecidablePred Idr :=
  fun c => inferInstanceAs (Decidable (byteAt (c.2.payload c.1) 4 &&& 0x1f = 5))

/-- the numbers of the samples with an IDR unit, from one on -/
def idrSamples (calls : List (Mem × AVPacket)) : List Nat :=
  (callsOf .video calls).findIdxs (fun c => decide (Idr c)) 1

theorem callsOf_packets (t : CodecType) (calls : List (Mem × AVPacket)) :
    (callsOf t calls).map Prod.snd = packetsOf t calls := by
  unfold callsOf packetsOf
  rw [List.filter_map]
  rfl

theorem callsOf_length (t : CodecType) (calls : List (Mem × AVPacket)) :
    (callsOf t calls).length = (packetsOf t calls).length := by
  rw [← callsOf_packets, List.length_map]

theorem callsOf_concat (t : CodecType) (cs : List (Mem × AVPacket)) {c : Mem × AVPacket}
    {u : CodecType} (hu : codecType c.2.stream_idx = some u) :
    callsOf t (cs ++ [c]) = callsOf t cs ++ if u = t then [c] else [] := by
  unfold callsOf
  rw [List.filter_append, List.filter_singleton, hu]
  by_cases h : u = t <;> simp [h]

theorem idrSamples_concat (cs : List (Mem × AVPacket)) {c : Mem × AVPacket} {t : CodecType}
    (ht : codecType c.2.stream_idx = some t) :
    idrSamples (cs ++ [c])
      = idrSamples cs ++ if t = .video ∧ Idr c then [(packetsOf .video cs).length + 1] else [] := by
  unfold idrSamples
  rw [callsOf_concat .video cs ht, List.findIdxs_append]
  by_cases hv : t = .video
  · rw [if_pos hv, List.findIdxs_singleton, callsOf_length, Nat.add_comm 1]
    by_cases hi : Idr c
    · rw [if_pos (decide_eq_true hi), if_pos ⟨hv, hi⟩]
    · rw [if_neg (by simpa using hi), if_neg fun h => hi h.2]
  · rw [if_neg hv, if_neg fun h => hv h.1]
    rfl

theorem mem_idrSamples {calls : List (Mem × AVPacket)} {k : Nat} :
    k ∈ idrSamples calls ↔ 1 ≤ k ∧ ∃ c, (callsOf .video calls)[k - 1]? = some c ∧ Idr c := by
  unfold idrSamples
  rw [List.mem_findIdxs_iff_getElem_sub_pos]
  refine and_congr_right fun _ => ⟨?_, ?_⟩
  · rintro ⟨hlt, hi⟩
    exact ⟨_, List.getElem?_eq_getElem hlt, of_decide_eq_true hi⟩
  · rintro ⟨c, hc, hi⟩
    obtain ⟨hlt, rfl⟩ := List.getElem?_eq_some_iff.mp hc
    exact ⟨hlt, decide_eq_true hi⟩

/-- of these no number is larger than the number of packets -/
theorem idrSamples_le {calls : List (Mem × AVPacket)} {k : Nat} (hk : k ∈ idrSamples calls) :
    k ≤ (packetsOf .video calls).length := by
  obtain ⟨h1, c, hc, -⟩ := mem_idrSamples.mp hk
  have hlt := (List.getElem?_eq_some_iff.mp hc).1
  rw [callsOf_length] at hlt
  omega

/-- the key frames that are recorded are the IDR units -/
theorem keyFrame_idr {streams : CodecType → AVCodecContext}
    (h264 : (streams .video).codec_id = codecIdH264) {c : Mem × AVPacket} {t : CodecType}
    (ht : codecType c.2.stream_idx = some t) (hp : Proper c.2 t) :
    KeyFrame streams c ↔ t = .video ∧ Idr c := by
  rw [keyFrame_iff streams ht]
  refine and_congr_right fun hv => ?_
  subst hv
  have hbyte : strmByte c.1 c.2 = byteAt (c.2.payload c.1) 4 := by
    rw [strmByte_payload c.1 hp.2, if_neg (by have := hp.1; omega)]
    rfl
  rw [hbyte]
  exact ⟨fun h => h.2, fun h => ⟨h264, h⟩⟩

/-! ## the key-frame table -/

/-- the entries that the trailer writes -/
def MOVContext.keyframes (mov : MOVContext) : List UInt32 :=
  (List.range (mov.tracks .video).keyFrame_num).map mov.cache_keyframe

theorem keyframes_congr {a b : MOVContext}
    (hnum : (a.tracks .video).keyFrame_num = (b.tracks .video).keyFrame_num)
    (hkey : a.cache_keyframe = b.cache_keyframe) : a.keyframes = b.keyframes := by
  unfold MOVContext.keyframes
  rw [hnum, hkey]

theorem wrap_keyframe (mov : MOVContext) (k : Table) :
    (mov.wrap k).cache_keyframe = mov.cache_keyframe := by
  unfold MOVContext.wrap
  split <;> rfl

theorem countPacket_keyframe (mov : MOVContext) (t : CodecType) (size : Nat) :
    (mov.countPacket t size).cache_keyframe = mov.cache_keyframe := by
  unfold MOVContext.countPacket MOVContext.countSample
  rw [wrap_keyframe]
  show (if some t ≠ mov.last_stream_idx then mov.switchStream t else mov).cache_keyframe = _
  split
  · unfold MOVContext.switchStream
    rw [wrap_keyframe]
    dsimp only
    split
    · rfl
    · rw [wrap_keyframe]
      rfl
  · rfl

theorem countDuration_keyframe (mov : MOVContext) (duration : Int) :
    (mov.countDuration duration).cache_keyframe = mov.cache_keyframe := by
  unfold MOVContext.countDuration
  rw [wrap_keyframe]
  rfl

/-- an IDR unit adds the number of samples with a duration -/
theorem countKeyFrame_keyframes (mov : MOVContext) (b : UInt8) :
    (mov.countKeyFrame b).keyframes
      = mov.keyframes ++ if b &&& 0x1f = 5 then [UInt32.ofNat (mov.tracks .video).stts_size]
        else [] := by
  have hnum := congrArg MOVTrack.keyFrame_num (countKeyFrame_tracks mov b .video)
  unfold MOVContext.keyframes
  rw [hnum]
  by_cases hb : b &&& 0x1f = 5
  · have hstore : (mov.countKeyFrame b).cache_keyframe
        = Function.update mov.cache_keyframe (mov.tracks .video).keyFrame_num
          (UInt32.ofNat (mov.tracks .video).stts_size) := by
      unfold MOVContext.countKeyFrame
      rw [if_pos hb]
      rfl
    dsimp only
    rw [if_pos ⟨rfl, hb⟩, if_pos hb, List.range_succ, List.map_append, List.map_singleton, hstore,
      Function.update_self]
    refine congrArg (· ++ _) (List.map_congr_left fun i hi => ?_)
    exact Function.update_of_ne (List.mem_range.mp hi).ne _ _
  · have hsame : mov.countKeyFrame b = mov := if_neg hb
    dsimp only
    rw [if_neg fun h => hb h.2, if_neg hb, hsame, List.append_nil, Nat.add_zero]

/-- **One packet** adds the number of its sample if it is a key frame. -/
theorem record_keyframes {mov : MOVContext} {x : Layout CodecType} (hx : Counted mov x)
    (h : Timed mov) {streams : CodecType → AVCodecContext} {t : CodecType} {c : Mem × AVPacket}
    (ht : codecType c.2.stream_idx = some t) :
    (mov.record streams t c.1 c.2).keyframes
      = mov.keyframes ++ if KeyFrame streams c then
        [UInt32.ofNat ((mov.tracks .video).stsz_size + 1)] else [] := by
  have hcount : (mov.countPacket t (c.2.size0 + c.2.size1)).keyframes = mov.keyframes :=
    keyframes_congr (countPacket_keys mov t _ .video) (countPacket_keyframe mov t _)
  simp only [keyFrame_iff streams ht]
  cases t with
  | audio =>
    have hrecord : (mov.record streams .audio c.1 c.2).keyframes
        = (mov.countPacket .audio (c.2.size0 + c.2.size1)).keyframes := rfl
    rw [if_neg (fun h => nomatch h.1), List.append_nil, hrecord, hcount]
  | video =>
    have hduration : ((mov.countPacket .video (c.2.size0 + c.2.size1)).countDuration
        c.2.duration).keyframes
        = mov.keyframes := by
      rw [← hcount]
      refine keyframes_congr ?_ (countDuration_keyframe _ _)
      rw [countDuration_tracks]
    have hstts :
        (((mov.countPacket .video (c.2.size0 + c.2.size1)).countDuration c.2.duration).tracks
          .video).stts_size
        = (mov.tracks .video).stsz_size + 1 := by
      rw [countDuration_tracks, countPacket_tracks hx, ← h.stts]
      rfl
    by_cases h264 : (streams .video).codec_id = codecIdH264
    · have hrecord : (mov.record streams .video c.1 c.2).keyframes = (((mov.countPacket .video
          (c.2.size0 + c.2.size1)).countDuration c.2.duration).countKeyFrame
              (strmByte c.1 c.2)).keyframes := by
        unfold MOVContext.record
        dsimp only
        rw [if_pos h264]
        exact keyframes_congr rfl rfl
      rw [hrecord, countKeyFrame_keyframes, hduration, hstts]
      simp only [h264, true_and]
    · have hrecord : mov.record streams .video c.1 c.2
          = (mov.countPacket .video (c.2.size0 + c.2.size1)).countDuration c.2.duration := by
        unfold MOVContext.record
        exact if_neg h264
      rw [if_neg fun h => h264 h.2.1, List.append_nil, hrecord, hduration]

/-- the context behind the calls `cs`, with the key-frame table -/
structure Synced (start : Setup) (streams : CodecType → AVCodecContext) (mov : MOVContext)
    (cs : List (Mem × AVPacket)) : Prop extends Tracked start mov (events streams cs) where
  keyframes : mov.keyframes = (idrSamples cs).map UInt32.ofNat

theorem Fresh.synced {ctx : AVFormatContext} (h : Fresh ctx) :
    Synced ctx.headed.priv_data.setup ctx.streams ctx.headed.priv_data [] where
  toTracked := h.tracked
  keyframes := by
    have hzero : (ctx.headed.priv_data.tracks .video).keyFrame_num = 0 := (h.headed_idle .video).key
    unfold MOVContext.keyframes
    rw [hzero]
    rfl

/-- **The packets of a session**: key frames. -/
theorem packets_synced {ctx : AVFormatContext} (h : Fresh ctx)
    (h264 : (ctx.streams .video).codec_id = codecIdH264) {calls : List (Mem × AVPacket)}
    (hs : Streamed calls) (hp : Started calls) {r : List CacheWrite × AVFormatContext}
    (hr : packets ctx.headed calls = some r) :
    Synced ctx.headed.priv_data.setup ctx.streams r.2.priv_data calls := by
  refine packets_prefix (P := Synced ctx.headed.priv_data.setup ctx.streams) ctx.headed []
    rfl rfl hs ?_ h.synced hr
  intro mov cs t c hc ht hpre hmov
  have hevents := events_concat ctx.streams cs ht
  have hnumber : (mov.tracks .video).stsz_size = (packetsOf .video cs).length := by
    rw [hmov.counted.stsz, packetsOf_length .video ctx.streams, (layout_of mdatStart _).samples]
  refine ⟨?_, ?_⟩
  · rw [hevents]
    exact hmov.toTracked.record ctx.headed.streams t _ c.1 c.2
  · have hidr : KeyFrame ctx.headed.streams c ↔ t = .video ∧ Idr c :=
      keyFrame_idr h264 ht (hp.proper hc ht)
    rw [record_keyframes hmov.counted hmov.timed ht, hmov.keyframes, hnumber,
      idrSamples_concat cs ht, List.map_append]
    simp only [hidr]
    split <;> rfl

/-- the closing packet and the total time leave the table alone -/
theorem keyframes_closed (ctx : AVFormatContext) (total : Option Int) (u : CodecType) :
    ((totalTime ctx total).priv_data.endChunk u).keyframes = ctx.priv_data.keyframes := by
  obtain ⟨d, hd⟩ := totalTime_tracks ctx total .video
  have hend : (((totalTime ctx total).priv_data.endChunk u).tracks .video).keyFrame_num
      = ((totalTime ctx total).priv_data.tracks .video).keyFrame_num := by
    unfold MOVContext.endChunk
    rw [setTrack_tracks]
    cases u <;> rfl
  refine keyframes_congr (hend.trans (by rw [hd])) ?_
  · show (totalTime ctx total).priv_data.cache_keyframe = _
    rw [totalTime_rest]

/-! ## reading `stss` -/

/-- what a reader finds in `stss` of the video track -/
structure Lists (stss : Bytes) (entries : List Nat) : Prop where
  read : stssEntries stss = entries
  count : word stss 4 = entries.length
  length : stss.length = 8 + 4 * entries.length

theorem stss_read (env : Env) {mov : MOVContext} (hvideo : .video ∈ streamsBelow mov.nb_streams)
    (hlen : mov.keyframes.length < 2 ^ 32) :
    Lists (stssBox (mov.prepared env) ((mov.prepared env).tracks .video)).body
      (mov.keyframes.map UInt32.toNat) := by
  have hnum : ((mov.prepared env).tracks .video).keyFrame_num
      = (mov.tracks .video).keyFrame_num := by
    rw [prepared_tracks env mov .video hvideo]
  have hkey : (mov.prepared env).cache_keyframe = mov.cache_keyframe := by
    unfold MOVContext.prepared MOVContext.fillTitle
    split <;> rfl
  have hcount : (mov.tracks .video).keyFrame_num = (mov.keyframes.map UInt32.toNat).length := by
    rw [List.length_map, MOVContext.keyframes, List.length_map, List.length_range]
  have hbody : (stssBox (mov.prepared env) ((mov.prepared env).tracks .video)).body
      = be 4 0 ++ be 4 (mov.keyframes.map UInt32.toNat).length
          ++ (mov.keyframes.map UInt32.toNat).flatMap (be 4) := by
    rw [stssBox, leaf_body, stssFields, hnum, hkey, ← hcount, MOVContext.keyframes, emitted_append,
      emitted_append, emitted_putBe32, emitted_putBe32, emitted_flatMap, List.map_map,
      List.flatMap_map]
    simp only [emitted_putBe32, Function.comp_apply]
  have hwords : (mov.keyframes.map UInt32.toNat).length < 2 ^ 32 := by rwa [List.length_map]
  rw [hbody]
  refine ⟨?_, ?_, ?_⟩
  · exact stcoEntries_eq _ hwords (words_lt _)
  · exact word_at (be 4 0) _ _ hwords
  · rw [List.length_append, List.length_append, be_length, be_length,
      flatMap_length _ _ 4 fun v _ => be_length 4 v]

/-! ## every session -/

theorem stbl_sync {env : Env} {mov : MOVContext} {track : MOVTrack}
    (h : track.enc.codec_type = .video) :
    (stblBox env mov track).child (fourcc 's' 't' 's' 's') = some (stssBox mov track) := by
  unfold stblBox syncBoxes
  rw [if_pos h]
  rfl

theorem Parts.keyframes {ctx : AVFormatContext} (hf : Fresh ctx)
    (h264 : (ctx.streams .video).codec_id = codecIdH264) {calls : List (Mem × AVPacket)}
    (hs : Streamed calls) (hp : Started calls) {total : Option Int}
    {body : List CacheWrite × AVFormatContext} {u : CodecType} {c : Chunk} {mov : MOVContext}
    (h : Parts ctx calls total body u c mov) :
    mov.keyframes = (idrSamples calls).map UInt32.ofNat := by
  rw [h.context, keyframes_closed]
  exact (packets_synced hf h264 hs hp h.packets).keyframes

/-- the numbers fit into the words of the table -/
theorem idrSamples_words {calls : List (Mem × AVPacket)}
    (h : (packetsOf .video calls).length < 2 ^ 32) :
    ((idrSamples calls).map UInt32.ofNat).map UInt32.toNat = idrSamples calls := by
  rw [List.map_map]
  refine List.map_congr_left (g := id) (fun k hk => ?_) |>.trans (List.map_id _)
  exact UInt32.toNat_ofNat_of_lt' ((idrSamples_le hk).trans_lt h)

/-- **The key frames of a session.**  Every H.264 session with a result, each video packet of it
with a start code and a byte behind it, writes a box `moov`.  If the video track has a packet, the
`stss` of the track declares as many entries as it holds; they are strictly increasing, and are the
numbers, from one on, of the packets whose fifth byte has the NAL type 5.  `stsz` and `stts` have
one sample for each of these packets. -/
theorem stss_exact (env : Env) {ctx : AVFormatContext} (ho : Opened ctx)
    (h264 : (ctx.streams .video).codec_id = codecIdH264) {calls : List (Mem × AVPacket)}
    (hs : Streamed calls) (hp : Started calls) (hcap : Capacity calls) {total : Option Int}
    {session : List CacheOp × AVFormatContext} (h : mp4Session env ctx calls total = some session) :
    ∃ (moov : Box) (front back : List CacheOp) (ws : List CacheWrite),
      session.1 = front ++ writeOps ws ++ back ∧
      emitted ws = moov.encode ∧ moov.tag = fourcc 'm' 'o' 'o' 'v' ∧
      (.video ∈ streamsBelow ctx.mTrackCnt → callsOf .video calls ≠ [] →
        ∃ stss stsz stts entries, tableBox moov .video (fourcc 's' 't' 's' 's') = some stss ∧
          tableBox moov .video (fourcc 's' 't' 's' 'z') = some stsz ∧
          tableBox moov .video (fourcc 's' 't' 't' 's') = some stts ∧
          (stszEntries stsz.body).length = (callsOf .video calls).length ∧
          (expand (sttsEntries stts.body)).length = (callsOf .video calls).length ∧
          Lists stss.body entries ∧ entries.Pairwise (· < ·) ∧
          ∀ k, k ∈ entries ↔ 1 ≤ k ∧ ∃ c, (callsOf .video calls)[k - 1]? = some c ∧ Idr c) := by
  have hf := ho.fresh
  obtain ⟨body, u, c, mov, hparts, -, front, back, ws, hwrites, hbytes⟩ := session_parts env hf hs h
  refine ⟨moovBox env (mov.prepared env), front, back, ws, hwrites, hbytes, rfl, ?_⟩
  intro hbelow hcalls
  have hpackets : packetsOf .video calls ≠ [] := by
    rw [← callsOf_packets, Ne, List.map_eq_nil_iff]
    exact hcalls
  obtain ⟨ht, -, -, -⟩ := hparts.written env hf hcap hbelow hpackets
  obtain ⟨hstsz, hstts, hsizes, htimes⟩ := hparts.sample_tables env hf hs hcap hbelow hpackets
  have htypes := hparts.closed.prepared_type env hf
  have hprepared : CodecType.video ∈ writtenTracks (mov.prepared env) := by
    rw [prepared_written]
    exact ht
  have hcount : (packetsOf .video calls).length < 2 ^ 32 := by
    have hle := (hcap .video).1
    rw [← events_streams ctx.streams, ← track_length, ← packetsOf_length] at hle
    omega
  have hkeys := hparts.keyframes hf h264 hs hp
  have hread := stss_read env (written_below ht).1 (by
    rw [hkeys, List.length_map, idrSamples, List.length_findIdxs]
    exact (List.countP_le_length.trans (callsOf_length .video calls).le).trans_lt hcount)
  rw [hkeys, idrSamples_words hcount] at hread
  refine ⟨_, _, _, idrSamples calls, ?_, hstsz, hstts, ?_, ?_, hread, List.pairwise_findIdxs,
    fun k => mem_idrSamples⟩
  · rw [moov_stblChild htypes hprepared]
    exact stbl_sync (htypes .video hprepared)
  · rw [hsizes, callsOf_length]
  · rw [htimes, callsOf_length]

/-- three video packets with an audio packet between them; the second one has an IDR unit -/
def idrCalls : List (Mem × AVPacket) :=
  [(fun a => UInt8.ofNat a.toNat, timedPacket 0 1000 7), (fun _ => 0x65, timedPacket 0 1040 40),
    (fun _ => 0x65, timedPacket 1 1050 23), (fun a => UInt8.ofNat a.toNat, timedPacket 0 1100 60)]

theorem idr_session :
    ∃ session, mp4Session smallEnv smallContext idrCalls (some 100) = some session :=
  session_ready smallContext_opened.fresh (by decide) (by decide) (List.cons_ne_nil _ _)
    (by decide +kernel)

theorem stss_exact_second :
    ∃ session moov stss, mp4Session smallEnv smallContext idrCalls (some 100) = some session ∧
      tableBox moov .video (fourcc 's' 't' 's' 's') = some stss ∧ 2 ∈ stssEntries stss.body ∧
      1 ∉ stssEntries stss.body ∧ 3 ∉ stssEntries stss.body := by
  obtain ⟨session, hsession⟩ := idr_session
  have hcap : Capacity idrCalls := by
    intro t
    cases t <;> decide
  obtain ⟨moov, -, -, -, -, -, -, htables⟩ :=
    stss_exact smallEnv smallContext_opened rfl (by decide : Streamed idrCalls)
      (by decide) hcap hsession
  obtain ⟨stss, stsz, stts, entries, hstss, -, -, -, -, hlists, -, hmem⟩ :=
    htables (by decide) (List.cons_ne_nil _ _)
  refine ⟨session, moov, stss, hsession, hstss, ?_, ?_, ?_⟩ <;> rw [hlists.read, hmem]
  · exact ⟨by decide, _, rfl, by decide⟩
  · rintro ⟨-, c, hc, hi⟩
    cases hc
    exact absurd hi (by decide)
  · rintro ⟨-, c, hc, hi⟩
    cases hc
    exact absurd hi (by decide)

end Pluto.Mp4

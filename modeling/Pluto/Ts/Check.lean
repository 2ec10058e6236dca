import Pluto.Ts.Checker
import Pluto.Ts.Receive

/-!
# The checker on the file of a session

* `Carried.muxed`, `es_calls`  the packets of a session and their elementary streams;
* `check_stream`           the program on a stream of packets;
* `checker_extracts`       when it ends on the file of a session, and what it has written.
-/

namespace Pluto.Ts
open Octets Transport

/-! ## the packets of a run -/

section
variable (pcr : Int → Int) {ctx : AVFormatContext} {c : Mem × AVPacket} {t : CodecType}

theorem Carried.muxed (h : Carried ctx c t) {p : Packet} (hp : p ∈ callPackets pcr ctx c) :
    Muxed p := by
  rw [h.packets, List.mem_append, pesPackets, List.mem_cons] at hp
  rcases hp with hp | rfl | hp
  · cases t with
    | video =>
      rcases List.mem_cons.mp hp with rfl | hp
      · exact Muxed.pat
      · rw [List.mem_singleton.mp hp]
        exact Muxed.pmt
    | audio => cases hp
  · have hpayload : (pesPacket ctx c.2 t (c.2.payload c.1)).take 176
        = pesHeader (streamId t) (pesPacketLength (streamSize ctx c.2 t)) (ptsOf c.2.pts)
          ++ (esHead ctx c.2 t ++ c.2.payload c.1).take 162 := by
      rw [pesPacket, List.append_assoc]
      rfl
    exact Muxed.first t rfl rfl rfl (clockField_length _) hpayload
  · obtain ⟨hstart, hpid⟩ := fragments_mem hp
    exact Muxed.rest t hstart hpid

/-- the first packet of an access unit is the only one that starts -/
theorem Carried.starts (h : Carried ctx c t) {u : CodecType} {p : Packet}
    (hp : p ∈ callPackets pcr ctx c) (hs : Starts u p) :
    u = t ∧ p.payload = (pesPacket ctx c.2 t (c.2.payload c.1)).take 176 := by
  rw [h.packets, List.mem_append, pesPackets, List.mem_cons] at hp
  rcases hp with hp | rfl | hp
  · exact absurd hs.2 (tablePackets_pid hp u)
  · exact ⟨(trackPid_injective hs.2).symm, rfl⟩
  · exact absurd ((fragments_mem hp).1.symm.trans hs.1) Bool.false_ne_true

theorem Carried.exists_start (h : Carried ctx c t) : ∃ p ∈ callPackets pcr ctx c, Starts t p := by
  rw [h.packets, pesPackets]
  exact ⟨_, List.mem_append_right _ List.mem_cons_self, rfl, rfl⟩

/-- the elementary stream of an access unit -/
theorem Carried.es (h : Carried ctx c t) (u : CodecType) :
    (callPackets pcr ctx c).flatMap (esOf u)
      = if u = t then (pesPacket ctx c.2 t (c.2.payload c.1)).drop (skipped t) else [] := by
  have htables : (tablePackets t).flatMap (esOf u) = [] :=
    List.flatMap_eq_nil_iff.mpr fun p hp => if_neg (tablePackets_pid hp u)
  rw [h.packets, List.flatMap_append, htables, List.nil_append]
  by_cases hu : u = t
  · subst hu
    have hfirst : ∀ p : Packet, p.start = true → p.pid = trackPid u →
        esOf u p = p.payload.drop (skipped u) := by
      intro p hstart hpid
      rw [esOf, if_pos hpid, if_pos hstart]
    have hrest : ∀ p ∈ fragments (trackPid u) ((pesPacket ctx c.2 u (c.2.payload c.1)).drop 176),
        esOf u p = p.payload := by
      intro p hp
      obtain ⟨hstart, hpid⟩ := fragments_mem hp
      rw [esOf, if_pos hpid, if_neg (by rw [hstart]; exact Bool.false_ne_true)]
    have hskip : skipped u ≤ 176 := by cases u <;> decide
    rw [if_pos rfl, pesPackets, List.flatMap_cons, hfirst _ rfl rfl, List.flatMap_congr hrest,
      List.flatMap_def, fragments_payload]
    show ((pesPacket ctx c.2 u (c.2.payload c.1)).take 176).drop (skipped u) ++ _ = _
    rw [← List.drop_append_of_le_length
      (by rw [List.length_take, Nat.min_eq_left h.long]; exact hskip),
      List.take_append_drop]
  · have hpid : trackPid t ≠ trackPid u := fun e => hu (trackPid_injective e).symm
    rw [if_neg hu]
    exact List.flatMap_eq_nil_iff.mpr fun p hp => if_neg (by rw [pesPackets_pid hp]; exact hpid)

theorem es_video (payload : Bytes) : (pesPacket ctx c.2 .video payload).drop (skipped .video)
    = (if c.2.flags ≠ 0 then ctx.mTrackCSD .video else []) ++ payload := by
  unfold pesPacket esHead
  rw [List.append_assoc, List.append_assoc]
  rfl

theorem es_audio {csd0 csd1 : UInt8} {more : Bytes}
    (hcsd : ctx.mTrackCSD .audio = csd0 :: csd1 :: more) (hsmall : c.2.size0 + c.2.size1 < 65520)
    (payload : Bytes) :
    (pesPacket ctx c.2 .audio payload).drop (skipped .audio)
      = adtsHeader csd0 csd1 (c.2.size0 + c.2.size1 + 7) ++ payload := by
  have hsize : streamSize ctx c.2 .audio = c.2.size0 + c.2.size1 + 7 := Nat.mod_eq_of_lt (by omega)
  unfold pesPacket esHead
  rw [hcsd, hsize, List.append_assoc]
  rfl

/-- the elementary stream of a track -/
theorem es_calls {calls : List (Mem × AVPacket)} (hcalls : ∀ c ∈ calls, ∃ t, Carried ctx c t)
    (u : CodecType) :
    (calls.flatMap (callPackets pcr ctx)).flatMap (esOf u)
      = (calls.filter fun c => codecType c.2.stream_idx = some u).flatMap fun c =>
          (pesPacket ctx c.2 u (c.2.payload c.1)).drop (skipped u) := by
  induction calls with
  | nil => rfl
  | cons c calls ih =>
    obtain ⟨t, ht⟩ := hcalls c List.mem_cons_self
    rw [List.flatMap_cons, List.flatMap_append, ht.es,
      ih fun d hd => hcalls d (List.mem_cons_of_mem c hd)]
    by_cases hu : u = t
    · subst hu
      rw [if_pos rfl, List.filter_cons_of_pos (by simpa using ht.track), List.flatMap_cons]
    · rw [if_neg hu, List.filter_cons_of_neg (by simpa [ht.track] using Ne.symm hu),
        List.nil_append]

/-- the length in a PES header -/
theorem pes_length_bytes (payload : Bytes) :
    byteAt (pesPacket ctx c.2 t payload) 4 * 256 + byteAt (pesPacket ctx c.2 t payload) 5
      = pesPacketLength (streamSize ctx c.2 t) := by
  have hpair := ofBe_pair (lt_trans (pesPacketLength_lt (streamSize ctx c.2 t)) (by decide))
  have hbytes : ∀ a b : UInt8, ofBe [a, b] = a.toNat * 256 + b.toNat := fun a b => by simp [ofBe]
  rw [hbytes] at hpair
  exact hpair

end

/-! ## the program on a file -/

theorem Searched.found_iff {looked : List Packet} {s : Search} (h : Searched looked s) :
    s.found = true ↔ (∃ p ∈ looked, p.pid = patPid) ∧ (∃ p ∈ looked, p.pid = pmtPid) ∧
      ∀ t, ∃ p ∈ looked, Starts t p := by
  have hsome : ∀ t, (s.pidOf t).isSome = true ↔ ∃ p ∈ looked, Starts t p := by
    intro t
    rw [h.track t]
    split
    · next hp => exact iff_of_true rfl hp
    · next hp => exact iff_of_false Bool.false_ne_true hp
  have hboth : (∀ t, ∃ p ∈ looked, Starts t p) ↔
      s.audio_pid.isSome = true ∧ s.video_pid.isSome = true := by
    refine ⟨fun hall => ⟨(hsome .audio).mpr (hall .audio), (hsome .video).mpr (hall .video)⟩,
      fun hall t => ?_⟩
    cases t with
    | audio => exact (hsome .audio).mp hall.1
    | video => exact (hsome .video).mp hall.2
  unfold Search.found
  rw [Bool.and_eq_true, Bool.and_eq_true, Bool.and_eq_true, h.pat, h.pmt, hboth, and_assoc,
    and_assoc]

theorem checkTsMuxer_searched {n : Nat} {file buf : Bytes} {looked : List Packet} {s : Search}
    (hs : search n (searchStart file buf) = some s) (h : Searched looked s) :
    checkTsMuxer n file buf = if s.found = true then
        (extract (trackPid .audio) (trackPid .video) ⟨file, s.input.buf⟩ ⟨[], []⟩).map .done
      else some .searching := by
  unfold checkTsMuxer
  rw [hs, Option.bind_some]
  by_cases hfound : s.found = true
  · obtain ⟨-, -, hall⟩ := h.found_iff.mp hfound
    have haudio : s.audio_pid = some (trackPid .audio : Nat) :=
      (h.track .audio).trans (if_pos (hall .audio))
    have hvideo : s.video_pid = some (trackPid .video : Nat) :=
      (h.track .video).trans (if_pos (hall .video))
    rw [if_pos hfound, hfound, haudio, hvideo]
  · rw [if_neg hfound, Bool.eq_false_of_not_eq_true hfound]

section
variable {ps : List Packet} {file : Bytes}

theorem searchStart_reading (hm : ∀ p ∈ ps, Muxed p) (cc : Counters) (buf : Bytes) :
    Reading [] ps (searchStart (stream cc ps) buf) := by
  refine ⟨⟨?_, ?_, fun t => ?_⟩, hm, ⟨cc, rfl⟩, fun hne => absurd rfl hne⟩
  · exact iff_of_false Bool.false_ne_true (by simp)
  · exact iff_of_false Bool.false_ne_true (by simp)
  · rw [if_neg (by simp)]
    cases t <;> rfl

/-- **The program on the packets of a session.** -/
theorem check_stream (hne : ps ≠ []) (hm : ∀ p ∈ ps, Muxed p)
    (haudio : ∀ p ∈ ps, Starts .audio p → 170 ≤ byteAt p.payload 4 * 256 + byteAt p.payload 5)
    (cc : Counters) (buf : Bytes) :
    (∀ n, checkTsMuxer n (stream cc ps) buf = some .searching ∨
        checkTsMuxer n (stream cc ps) buf
          = some (.done ⟨ps.flatMap (esOf .audio), ps.flatMap (esOf .video)⟩)) ∧
      ((∃ n out, checkTsMuxer n (stream cc ps) buf = some (.done out)) ↔
        (∃ p ∈ ps, p.pid = patPid) ∧ (∃ p ∈ ps, p.pid = pmtPid) ∧ ∀ t, ∃ p ∈ ps, Starts t p) := by
  have hsearch := fun n => search_reading (searchStart_reading hm cc buf) (by simpa using hne) n
  have hextract := extract_stream cc hm haudio
  refine ⟨fun n => ?_, fun ⟨n, out, hdone⟩ => ?_, fun hall => ?_⟩
  · obtain ⟨s, looked, hs, hsearched, -, -⟩ := hsearch n
    rw [checkTsMuxer_searched hs hsearched]
    split
    · right
      rw [hextract]
      rfl
    · exact Or.inl rfl
  · obtain ⟨s, looked, hs, hsearched, hsub, -⟩ := hsearch n
    rw [checkTsMuxer_searched hs hsearched] at hdone
    split at hdone
    · next hfound =>
      obtain ⟨⟨p, hp, hpat⟩, ⟨q, hq, hpmt⟩, hstarts⟩ := hsearched.found_iff.mp hfound
      refine ⟨⟨p, hsub p hp, hpat⟩, ⟨q, hsub q hq, hpmt⟩, fun t => ?_⟩
      obtain ⟨r, hr, hstart⟩ := hstarts t
      exact ⟨r, hsub r hr, hstart⟩
    · cases hdone
  · obtain ⟨s, looked, hs, hsearched, -, hend⟩ := hsearch ps.length
    have hfound : s.found = true := by
      rcases hend le_rfl with hfound | hlooked
      · exact hfound
      · obtain ⟨⟨p, hp, hpat⟩, ⟨q, hq, hpmt⟩, hstarts⟩ := hall
        refine hsearched.found_iff.mpr ⟨⟨p, hlooked p hp, hpat⟩, ⟨q, hlooked q hq, hpmt⟩,
          fun t => ?_⟩
        obtain ⟨r, hr, hstart⟩ := hstarts t
        exact ⟨r, hlooked r hr, hstart⟩
    refine ⟨ps.length, ⟨ps.flatMap (esOf .audio), ps.flatMap (esOf .video)⟩, ?_⟩
    rw [checkTsMuxer_searched hs hsearched, if_pos hfound, hextract]
    rfl

end

section
variable (pcr : Int → Int) {channelCnt sampleRate : Int} {videoCSD more : Bytes} {csd0 csd1 : UInt8}
  {s : MmStreamInfo} {mpCache : Bytes} {cacheSize : Int} {calls : List (Mem × AVPacket)}

/-- the tracks of which an access unit starts -/
theorem starts_iff {ctx : AVFormatContext} (hcalls : ∀ c ∈ calls, ∃ t, Carried ctx c t)
    (t : CodecType) :
    (∃ p ∈ calls.flatMap (callPackets pcr ctx), Starts t p) ↔
      ∃ c ∈ calls, codecType c.2.stream_idx = some t := by
  constructor
  · rintro ⟨p, hp, hstart⟩
    obtain ⟨c, hc, hp⟩ := List.mem_flatMap.mp hp
    obtain ⟨u, hu⟩ := hcalls c hc
    exact ⟨c, hc, (hu.starts pcr hp hstart).1 ▸ hu.track⟩
  · rintro ⟨c, hc, ht⟩
    obtain ⟨u, hu⟩ := hcalls c hc
    obtain rfl : u = t := Option.some.inj (hu.track.symm.trans ht)
    obtain ⟨p, hp, hstart⟩ := hu.exists_start pcr
    exact ⟨p, List.mem_flatMap.mpr ⟨c, hc, hp⟩, hstart⟩

/-- the first loop finds what it looks for -/
theorem found_calls {ctx : AVFormatContext} (hcalls : ∀ c ∈ calls, ∃ t, Carried ctx c t) :
    ((∃ p ∈ calls.flatMap (callPackets pcr ctx), p.pid = patPid) ∧
        (∃ p ∈ calls.flatMap (callPackets pcr ctx), p.pid = pmtPid) ∧
        ∀ t, ∃ p ∈ calls.flatMap (callPackets pcr ctx), Starts t p) ↔
      (∃ c ∈ calls, c.2.stream_idx = 0) ∧ ∃ c ∈ calls, c.2.stream_idx = 1 := by
  simp only [starts_iff pcr hcalls]
  constructor
  · rintro ⟨-, -, hall⟩
    obtain ⟨c, hc, hvideo⟩ := hall .video
    obtain ⟨d, hd, haudio⟩ := hall .audio
    exact ⟨⟨c, hc, codecType_video.mp hvideo⟩, d, hd, codecType_audio.mp haudio⟩
  · rintro ⟨hvideo, d, hd, haudio⟩
    obtain ⟨hpat, hpmt⟩ := tables_mem pcr ctx hvideo
    refine ⟨⟨_, hpat, rfl⟩, ⟨_, hpmt, rfl⟩, fun t => ?_⟩
    cases t with
    | video =>
      obtain ⟨c, hc, h0⟩ := hvideo
      exact ⟨c, hc, codecType_video.mpr h0⟩
    | audio => exact ⟨d, hd, codecType_audio.mpr haudio⟩

/-- the audio access units are not taken for small frames -/
theorem audio_lengths {ctx : AVFormatContext} (hcsd : CsdReady ctx .audio)
    (hcalls : ∀ c ∈ calls, ∃ t, Muxable ctx c.2 t ∧ Carried ctx c t)
    (haudio : ∀ c ∈ calls, c.2.stream_idx = 1 → c.2.size0 + c.2.size1 < 65520) {p : Packet}
    (hp : p ∈ calls.flatMap (callPackets pcr ctx)) (hstart : Starts .audio p) :
    170 ≤ byteAt p.payload 4 * 256 + byteAt p.payload 5 := by
  obtain ⟨c, hc, hp⟩ := List.mem_flatMap.mp hp
  obtain ⟨t, hmux, ht⟩ := hcalls c hc
  obtain ⟨rfl, hpayload⟩ := ht.starts pcr hp hstart
  have hsmall := haudio c hc (codecType_audio.mp ht.track)
  have hsize := streamSize_eq_unitSize ht.track hcsd hmux.fits
  have hlarge := hmux.large
  have hunit : unitSize ctx c.2 .audio = c.2.size0 + c.2.size1 + 7 := rfl
  have hbytes : ∀ j, j < 176 →
      byteAt p.payload j = byteAt (pesPacket ctx c.2 .audio (c.2.payload c.1)) j := by
    intro j hj
    rw [hpayload]
    exact byteAt_take hj
  rw [hbytes 4 (by decide), hbytes 5 (by decide), pes_length_bytes, hsize, pesPacketLength,
    Nat.mod_eq_of_lt (by omega)]
  split <;> omega

/-- **The checker gets the tracks back.**  On the file of a session with at least one packet, and no
audio access unit whose PES length does not fit, no `assert` of the checker fails and nothing
outside its buffer is written.  It ends if and only if there is a packet of each track.  It has then
written the video packets, each key frame behind the CSD, and the audio packets behind their ADTS
headers. -/
theorem checker_extracts (hc : channelCnt ≠ 0) (hs : sampleRate ≠ 0) (hv : videoCSD.length ≤ 156)
    (hfull : s.AlwaysFull) (hempty : s.contents = []) (hpos : s.pos = 0) (hcache : 0 < cacheSize)
    (hlen : (mpCache.length : Int) = cacheSize) (hne : calls ≠ [])
    (hcalls : ∀ c ∈ calls, ∃ t,
      Muxable (session channelCnt sampleRate videoCSD (csd0 :: csd1 :: more)) c.2 t)
    (haudio : ∀ c ∈ calls, c.2.stream_idx = 1 → c.2.size0 + c.2.size1 < 65520) (buf : Bytes) :
    ∃ size file, tsFile pcr (session channelCnt sampleRate videoCSD (csd0 :: csd1 :: more)) s
      mpCache cacheSize calls
        = some (size, file) ∧
      (∀ n, (checkTsMuxer n file buf).isSome) ∧
      ((∃ n out, checkTsMuxer n file buf = some (.done out)) ↔
        (∃ c ∈ calls, c.2.stream_idx = 0) ∧ ∃ c ∈ calls, c.2.stream_idx = 1) ∧
      ∀ n out, checkTsMuxer n file buf = some (.done out) →
        out.video = ((calls.filter fun c => c.2.stream_idx = 0).flatMap fun c =>
          (if c.2.flags ≠ 0 then videoCSD else []) ++ c.2.payload c.1) ∧
        out.audio = ((calls.filter fun c => c.2.stream_idx = 1).flatMap fun c =>
          adtsHeader csd0 csd1 (c.2.size0 + c.2.size1 + 7) ++ c.2.payload c.1) := by
  have ha : 2 ≤ (csd0 :: csd1 :: more).length := by simp
  obtain ⟨file, hfile, hbytes⟩ :=
    tsFile_packets pcr hc hs hv ha hfull hempty hpos hcache hlen hcalls
  have hcsd := fun t => session_csd (t := t) hc hs hv fun _ => ha
  have hcarried := session_carried hc hs hv ha hcalls
  have hcsds := session_csds channelCnt sampleRate videoCSD (csd0 :: csd1 :: more)
  generalize session channelCnt sampleRate videoCSD (csd0 :: csd1 :: more) = ctx at *
  have hmuxed : ∀ p ∈ calls.flatMap (callPackets pcr ctx), Muxed p := by
    intro p hp
    obtain ⟨c, hmem, hp⟩ := List.mem_flatMap.mp hp
    obtain ⟨t, ht⟩ := hcarried c hmem
    exact ht.muxed pcr hp
  have hpackets : calls.flatMap (callPackets pcr ctx) ≠ [] := by
    obtain ⟨c, calls, rfl⟩ := List.exists_cons_of_ne_nil hne
    obtain ⟨t, ht⟩ := hcarried c List.mem_cons_self
    rw [List.flatMap_cons]
    exact List.append_ne_nil_of_left_ne_nil (List.ne_nil_of_length_pos (ht.length_pos pcr)) _
  have hlengths : ∀ p ∈ calls.flatMap (callPackets pcr ctx), Starts .audio p →
      170 ≤ byteAt p.payload 4 * 256 + byteAt p.payload 5 := fun p hp hstart =>
    audio_lengths pcr (hcsd .audio) (fun c hmem => by
      obtain ⟨t, ht⟩ := hcalls c hmem
      exact ⟨t, ht, ht.carried (hcsd t)⟩) haudio hp hstart
  obtain ⟨hruns, hends⟩ := check_stream hpackets hmuxed hlengths (fun _ => 0) buf
  rw [← hbytes] at hruns hends
  refine ⟨_, file, hfile, fun n => ?_, hends.trans (found_calls pcr hcarried),
    fun n out hdone => ?_⟩
  · rcases hruns n with hn | hn <;>
      · rw [hn]
        rfl
  · rcases hruns n with hn | hn
    · rw [hn] at hdone
      cases hdone
    · rw [hn] at hdone
      cases hdone
      dsimp only
      rw [es_calls pcr hcarried, es_calls pcr hcarried]
      simp only [codecType_video, codecType_audio]
      constructor
      · refine List.flatMap_congr fun c _ => ?_
        rw [← hcsds.1, es_video]
      · refine List.flatMap_congr fun c hmem => ?_
        obtain ⟨hmem, hidx⟩ := List.mem_filter.mp hmem
        exact es_audio hcsds.2 (haudio c hmem (of_decide_eq_true hidx)) _

end

/-- a key frame of 300 bytes behind a CSD of eight, and an AAC frame of 200 bytes -/
theorem checker_extracts_two :
    ∃ size file n out, tsFile (· * 27000) (session 2 48000 [0, 0, 0, 1, 0x67, 1, 2, 3] [0x11, 0x90])
        newFile [0, 0, 0, 0, 0, 0, 0] 7 twoCalls = some (size, file) ∧
      checkTsMuxer n file (zeros 1000000) = some (.done out) ∧ out.video.length = 308 ∧
        out.audio.length = 207 := by
  obtain ⟨size, file, hfile, -, hends, hout⟩ := checker_extracts (· * 27000) (s := newFile)
    (by decide) (by decide) (by decide) ⟨by decide, fun _ => rfl⟩ rfl rfl (by decide)
    (show ((([0, 0, 0, 0, 0, 0, 0] : Bytes).length : Int) = 7) from rfl)
      (List.cons_ne_nil _ _) twoCalls_muxable (by decide) (zeros 1000000)
  have hboth : (∃ c ∈ twoCalls, c.2.stream_idx = 0) ∧ ∃ c ∈ twoCalls, c.2.stream_idx = 1 :=
    ⟨⟨_, List.mem_cons_self, rfl⟩, _, List.mem_cons_of_mem _ List.mem_cons_self, rfl⟩
  obtain ⟨n, out, hdone⟩ := hends.mpr hboth
  obtain ⟨hvideo, haudio⟩ := hout n out hdone
  refine ⟨size, file, n, out, hfile, hdone, ?_, ?_⟩
  · rw [hvideo]
    simp
  · rw [haudio]
    simp [adtsHeader]

end Pluto.Ts

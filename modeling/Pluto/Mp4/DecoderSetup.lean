import Pluto.Mp4.Play
import Pluto.Mp4.NalUnits
import Pluto.Mp4.Esds

/-!
# A decoder is set up from the file

Before it plays a track, a player takes from the sample entry in `stsd` what its decoder needs: the
size of the picture and the parameter sets, or the sound format and the CSD.

* `VideoSetup`, `videoSetup`, `AudioSetup`, `audioSetup`   what a player reads;
* `moov_entry`           the sample entry of a track, in the bytes of `moov`;
* `videoSetup_moov`, `audioSetup_moov`   what is read from the `moov` that was written;
* `set_up`               every recording sets up its decoders.
-/

namespace Pluto.Mp4
open Octets Boxes AnnexB SampleTables
open Descriptors (Descr descrsOf)

/-! ## the player -/

/-- the format and the body of the sample entry of a stream, from the body of `moov` -/
def entryOf (moov : Bytes) (t : CodecType) : Option (Bytes × Bytes) :=
  (stblTable moov t (fourcc 's' 't' 's' 'd')).bind fun stsd => (nextBox (stsd.drop 8)).map fun r =>
    (r.1, r.2.1)

def half (b : Bytes) (p : Nat) : Nat := ofBe (slice b p 2)

structure VideoSetup where
  format : Bytes
  width : Nat
  height : Nat
  sps : Bytes
  pps : Bytes
deriving DecidableEq

/-- one SPS and one PPS of an `avcC` -/
def videoSetup (file : Bytes) : Option VideoSetup :=
  (findBox (fourcc 'm' 'o' 'o' 'v').val file).bind fun moov =>
    (entryOf moov .video).bind fun e =>
      (findBox (fourcc 'a' 'v' 'c' 'C').val (e.2.drop 78)).map fun avcc =>
        { format := e.1
          width := half e.2 24
          height := half e.2 26
          sps := slice avcc 8 (half avcc 6)
          pps := slice avcc (11 + half avcc 6) (half avcc (9 + half avcc 6)) }

structure AudioSetup where
  format : Bytes
  channels : Nat
  bits_per_sample : Nat
  sample_rate : Nat
  csd : Bytes
deriving DecidableEq

/-- the first descriptor of a list with this tag: its fields and its children -/
def descrAt (tag : UInt8) : List Descr → Option (Bytes × List Descr)
  | [] => none
  | .mk tag' fields children :: ds => if tag' = tag then some (fields, children) else descrAt tag ds

/-- the DecoderSpecificInfo in the DecoderConfig descriptor of an ES descriptor -/
def decoderInfo (ds : List Descr) : Option Bytes :=
  (descrAt 3 ds).bind fun es => (descrAt 4 es.2).bind fun config =>
    (descrAt 5 config.2).map Prod.fst

def audioSetup (file : Bytes) : Option AudioSetup :=
  (findBox (fourcc 'm' 'o' 'o' 'v').val file).bind fun moov =>
    (entryOf moov .audio).bind fun e =>
      (findBox (fourcc 'e' 's' 'd' 's').val (e.2.drop 28)).bind fun esds =>
        ((descrsOf mpeg4Own (esds.drop 4)).bind decoderInfo).map fun csd =>
          { format := e.1
            channels := half e.2 16
            bits_per_sample := half e.2 18
            sample_rate := half e.2 24
            csd := csd }

/-! ## the sample entry -/

theorem half_at (a b : Bytes) (v : Nat) : half (a ++ be 2 v ++ b) a.length = v % 2 ^ 16 := by
  have h2 := be_length 2 v
  have hmid := slice_mid a (be 2 v) b
  rw [h2] at hmid
  rw [half, hmid, ← be_mod 2 v, ofBe_be 2 _ (Nat.mod_lt v (by norm_num))]
  rfl

section
variable {env : Env} {mov : MOVContext}

theorem moov_entry (h : (moovBox env mov).encode.length < 2 ^ 32)
    (htype : ∀ i ∈ writtenTracks mov, (mov.tracks i).enc.codec_type = i) {t : CodecType}
    (ht : t ∈ writtenTracks mov) :
    entryOf (moovBox env mov).body t
        = some ((leTag (mov.tracks t).tag).val, (entryBox env (mov.tracks t)).body) ∧
      (entryBox env (mov.tracks t)).encode.length < 2 ^ 32 := by
  obtain ⟨hread, hlen⟩ := moov_stbl h htype ht (fourcc 's' 't' 's' 'd')
  have hchild : (stblBox env mov (mov.tracks t)).child (fourcc 's' 't' 's' 'd')
      = some (stsdBox env (mov.tracks t)) := rfl
  obtain ⟨hfound, hstsd⟩ := findBox_child hlen hchild
  have hbody : (stsdBox env (mov.tracks t)).body
      = be 4 0 ++ be 4 1 ++ (entryBox env (mov.tracks t)).encode := by
    show be 4 0 ++ be 4 1 ++ encodeAll [entryBox env (mov.tracks t)] = _
    rw [encodeAll_cons, encodeAll_nil, List.append_nil]
  have hentry : (entryBox env (mov.tracks t)).encode.length < 2 ^ 32 := by
    have hle := body_le (stsdBox env (mov.tracks t))
    rw [hbody, List.length_append] at hle
    omega
  have h8 : (be 4 0 ++ be 4 1).length = 8 := rfl
  have hdrop := @List.drop_left _ (be 4 0 ++ be 4 1) (entryBox env (mov.tracks t)).encode
  have hnext := nextBox_encode hentry []
  rw [List.append_nil] at hnext
  rw [h8, ← hbody] at hdrop
  refine ⟨?_, hentry⟩
  unfold entryOf
  rw [hread, hfound, Option.bind_some, hdrop, hnext]
  rfl

/-- the boxes inside an entry -/
theorem entry_codec {track : MOVTrack} {n : Nat} (hn : (emitted (entryFields track)).length = n)
    (h : (entryBox env track).encode.length < 2 ^ 32) {b : Box} (hb : codecBoxes env track = [b]) :
    findBox b.tag.val ((entryBox env track).body.drop n) = some b.body ∧
      b.encode.length < 2 ^ 32 := by
  have hbody : (entryBox env track).body = emitted (entryFields track) ++ b.encode := by
    show emitted (entryFields track) ++ encodeAll (codecBoxes env track) = _
    rw [hb, encodeAll_cons, encodeAll_nil, List.append_nil]
  have hle := (body_le (entryBox env track)).trans_lt h
  rw [hbody, List.length_append] at hle
  have hall : encodeAll [b] = b.encode := by rw [encodeAll_cons, encodeAll_nil, List.append_nil]
  have hlt : (encodeAll [b]).length < 2 ^ 32 := by rw [hall]; omega
  have hread := findBox_encodeAll hlt b.tag.val
  rw [hall, List.find?_cons_of_pos (by simp)] at hread
  rw [hbody, ← hn, List.drop_left]
  exact ⟨hread, by omega⟩

/-! ## video -/

/-- the size of the picture stands in the fields of the entry -/
theorem entry_size (track : MOVTrack) (htype : track.enc.codec_type = .video) :
    half (entryBox env track).body 24 = u32 track.enc.width % 2 ^ 16 ∧
      half (entryBox env track).body 26 = u32 track.enc.height % 2 ^ 16 := by
  have hfields : entryFields track = videoFields track := by rw [entryFields, htype]
  have hbody : ∃ rest, (entryBox env track).body
      = be 4 0 ++ be 2 0 ++ be 2 1 ++ be 2 0 ++ be 2 0 ++ be 4 0 ++ be 4 0 ++ be 4 0
        ++ be 2 (u32 track.enc.width)
        ++ (be 2 (u32 track.enc.height) ++ rest) := by
    refine ⟨emitted (putBe32 0x00480000 ++ putBe32 0x00480000 ++ putBe32 0 ++ putBe16 1
      ++ putByte (strlen (zeros 32))
      ++ putBuffer ((zeros 32).take 31) ++ putBe16 0x18 ++ putBe16 0xffff)
        ++ encodeAll (codecBoxes env track), ?_⟩
    show emitted (entryFields track) ++ encodeAll (codecBoxes env track) = _
    rw [hfields, videoFields]
    simp only [emitted_append, emitted_putBe32, emitted_putBe16, List.append_assoc]
  obtain ⟨rest, hbody⟩ := hbody
  rw [hbody]
  refine ⟨half_at _ _ _, ?_⟩
  rw [← List.append_assoc]
  exact half_at (be 4 0 ++ be 2 0 ++ be 2 1 ++ be 2 0 ++ be 2 0 ++ be 4 0 ++ be 4 0 ++ be 4 0
    ++ be 2 (u32 track.enc.width))
    rest _

/-- the body of `avcC` for a CSD of units behind start codes of four bytes -/
theorem avcc_body {track : MOVTrack} {us : List Bytes} {sps pps : Bytes}
    (hcsd : track.csdData.val = stream (us.map (true, ·)))
    (hu : ∀ u ∈ us, Payload u ∧ 4 ≤ u.length ∧ u.length ≤ 65535)
    (hs : (us.filter (nalType · = 7)).getLast? = some sps)
    (hp : (us.filter (nalType · = 8)).getLast? = some pps) :
    (avccBox env track).body = avcDecoderConfigurationRecord sps pps := by
  have hne : us ≠ [] := by
    rintro rfl
    cases hs
  have hsize := (hu sps (List.mem_of_mem_filter (List.mem_of_getLast? hs))).2.1
  have hunits : ∀ u ∈ us, u ≠ [] ∧ u.length < 2 ^ 32 := fun u hmem =>
    ⟨(hu u hmem).1.ne_nil, by have := (hu u hmem).2.2; omega⟩
  obtain ⟨off, hsps, hsat⟩ := parameterSets_last env.heap false hunits hs
  obtain ⟨off', hpps, hpat⟩ := parameterSets_last env.heap true hunits hp
  obtain ⟨hs1, hs2⟩ := Prod.mk.inj hsps
  obtain ⟨hp1, hp2⟩ := Prod.mk.inj hpps
  have hparse := parse_long 0 hne fun u hmem => ⟨(hu u hmem).1, (hu u hmem).2.1⟩
  have hstart : (stream (us.map (true, ·))).length > 6 ∧
      hasStartCode (stream (us.map (true, ·))) := by
    obtain ⟨u, us', rfl⟩ := List.exists_cons_of_ne_nil hne
    have h4 := (hu u List.mem_cons_self).2.1
    rw [List.map_cons, stream_cons]
    refine ⟨?_, rfl⟩
    rw [List.length_append, List.length_append, startCode_length, Bool.toNat_true]
    dsimp only
    omega
  rw [avccBox, leaf_body, hcsd, ← ffIsomWriteAvccAt_zero, ffIsomWriteAvccAt, if_pos hstart.1,
    if_pos hstart.2, hparse]
  simp only [Option.bind_some, hs1, hs2, hp1, hp2, Option.map_some, Option.getD_some, hsat, hpat,
    bufAt_slice env.heap hsat (show 1 < sps.length by omega),
    bufAt_slice env.heap hsat (show 2 < sps.length by omega),
    bufAt_slice env.heap hsat (show 3 < sps.length by omega), emitted_append, emitted_putByte,
    emitted_putBe16,
    emitted_putBuffer]
  simp [avcDecoderConfigurationRecord, be]

/-- both sets are read from the record -/
theorem record_sets {sps pps : Bytes} (hs : sps.length < 2 ^ 16) (hp : pps.length < 2 ^ 16) :
    slice (avcDecoderConfigurationRecord sps pps) 8 (half (avcDecoderConfigurationRecord sps pps) 6)
      = sps ∧
      slice (avcDecoderConfigurationRecord sps pps)
        (11 + half (avcDecoderConfigurationRecord sps pps) 6)
        (half (avcDecoderConfigurationRecord sps pps)
          (9 + half (avcDecoderConfigurationRecord sps pps) 6)) = pps := by
  have hlen : half (avcDecoderConfigurationRecord sps pps) 6 = sps.length := by
    have hat := half_at [1, byteAt sps 1, byteAt sps 2, byteAt sps 3, 0xff, 0xe1]
      (sps ++ [1] ++ be 2 pps.length ++ pps) sps.length
    rw [Nat.mod_eq_of_lt hs, show [1, byteAt sps 1, byteAt sps 2, byteAt sps 3, 0xff, 0xe1].length
      = 6 from rfl] at hat
    simpa only [avcDecoderConfigurationRecord, List.append_assoc] using hat
  have hplen : half (avcDecoderConfigurationRecord sps pps) (9 + sps.length) = pps.length := by
    have hat :=
      half_at ([1, byteAt sps 1, byteAt sps 2, byteAt sps 3, 0xff, 0xe1] ++ be 2 sps.length ++ sps
        ++ [1]) pps
      pps.length
    rw [Nat.mod_eq_of_lt hp] at hat
    have hpos : ([1, byteAt sps 1, byteAt sps 2, byteAt sps 3, 0xff, 0xe1] ++ be 2 sps.length ++ sps
        ++ [1]).length
        = 9 + sps.length := by
      simp
      omega
    rwa [hpos] at hat
  rw [hlen, hplen]
  constructor
  · have hmid :=
      slice_mid ([1, byteAt sps 1, byteAt sps 2, byteAt sps 3, 0xff, 0xe1] ++ be 2 sps.length) sps
        ([1] ++ be 2 pps.length ++ pps)
    have hpos : ([1, byteAt sps 1, byteAt sps 2, byteAt sps 3, 0xff, 0xe1]
        ++ be 2 sps.length).length = 8 := by
      simp
    rw [hpos] at hmid
    simpa only [avcDecoderConfigurationRecord, List.append_assoc] using hmid
  · have hmid :=
      slice_mid ([1, byteAt sps 1, byteAt sps 2, byteAt sps 3, 0xff, 0xe1] ++ be 2 sps.length ++ sps
        ++ [1]
      ++ be 2 pps.length) pps []
    have hpos : ([1, byteAt sps 1, byteAt sps 2, byteAt sps 3, 0xff, 0xe1] ++ be 2 sps.length ++ sps
        ++ [1]
        ++ be 2 pps.length).length = 11 + sps.length := by
      simp
      omega
    rwa [hpos, List.append_nil] at hmid

/-- **What is read of a video track.** -/
theorem videoSetup_moov {file : Bytes}
    (hfile : findBox (fourcc 'm' 'o' 'o' 'v').val file = some (moovBox env mov).body)
    (h : (moovBox env mov).encode.length < 2 ^ 32)
    (htype : ∀ i ∈ writtenTracks mov, (mov.tracks i).enc.codec_type = i)
    (ht : .video ∈ writtenTracks mov) (htag : (mov.tracks .video).tag = mkTag 'a' 'v' 'c' '1')
    {us : List Bytes} {sps pps : Bytes}
    (hcsd : (mov.tracks .video).csdData.val = stream (us.map (true, ·)))
    (hu : ∀ u ∈ us, Payload u ∧ 4 ≤ u.length ∧ u.length ≤ 65535)
    (hs : (us.filter (nalType · = 7)).getLast? = some sps)
    (hp : (us.filter (nalType · = 8)).getLast? = some pps) :
    videoSetup file = some ⟨(fourcc 'a' 'v' 'c' '1').val,
      u32 (mov.tracks .video).enc.width % 2 ^ 16, u32 (mov.tracks .video).enc.height % 2 ^ 16, sps,
      pps⟩ := by
  obtain ⟨hentry, hlen⟩ := moov_entry h htype ht
  obtain ⟨hwidth, hheight⟩ := @entry_size env (mov.tracks .video) (htype .video ht)
  have hfields : (emitted (entryFields (mov.tracks .video))).length = 78 := by
    rw [entryFields, htype .video ht]
    exact videoFields_length _
  have hcodec : codecBoxes env (mov.tracks .video) = [avccBox env (mov.tracks .video)] := by
    unfold codecBoxes
    rw [htype .video ht]
    exact if_pos htag
  obtain ⟨havcc, -⟩ := entry_codec hfields hlen hcodec
  have hsps := (hu sps (List.mem_of_mem_filter (List.mem_of_getLast? hs))).2.2
  have hpps := (hu pps (List.mem_of_mem_filter (List.mem_of_getLast? hp))).2.2
  obtain ⟨h1, h2⟩ :=
    record_sets (show sps.length < 2 ^ 16 by omega) (show pps.length < 2 ^ 16 by omega)
  unfold videoSetup
  rw [hfile, Option.bind_some, hentry, Option.bind_some,
    show findBox (fourcc 'a' 'v' 'c' 'C').val _ = some (avccBox env (mov.tracks .video)).body from
      havcc,
    Option.map_some, avcc_body hcsd hu hs hp, h1, h2, hwidth, hheight, htag]
  rfl

/-! ## audio -/

/-- the sound format stands in the fields of the entry -/
theorem entry_sound (track : MOVTrack) (htype : track.enc.codec_type = .audio) :
    half (entryBox env track).body 16 = u32 track.enc.channels % 2 ^ 16 ∧
      half (entryBox env track).body 18 = u32 track.enc.bits_per_sample % 2 ^ 16 ∧
      half (entryBox env track).body 24 = u32 track.enc.sample_rate % 2 ^ 16 := by
  have hfields : entryFields track = audioFields track := by rw [entryFields, htype]
  have hbody : (entryBox env track).body
      = be 4 0 ++ be 2 0 ++ be 2 1 ++ be 2 0 ++ be 2 0 ++ be 4 0 ++ be 2 (u32 track.enc.channels)
        ++ (be 2 (u32 track.enc.bits_per_sample)
        ++ (be 2 0 ++ (be 2 0 ++ (be 2 (u32 track.enc.sample_rate)
        ++ (be 2 0 ++ encodeAll (codecBoxes env track)))))) := by
    show emitted (entryFields track) ++ encodeAll (codecBoxes env track) = _
    rw [hfields, audioFields]
    simp only [emitted_append, emitted_putBe32, emitted_putBe16, List.append_assoc]
  rw [hbody]
  refine ⟨half_at _ _ _, ?_, ?_⟩
  · rw [← List.append_assoc]
    exact half_at (be 4 0 ++ be 2 0 ++ be 2 1 ++ be 2 0 ++ be 2 0 ++ be 4 0
      ++ be 2 (u32 track.enc.channels)) _ _
  · rw [← List.append_assoc, ← List.append_assoc, ← List.append_assoc, ← List.append_assoc]
    exact half_at (be 4 0 ++ be 2 0 ++ be 2 1 ++ be 2 0 ++ be 2 0 ++ be 4 0
      ++ be 2 (u32 track.enc.channels)
      ++ be 2 (u32 track.enc.bits_per_sample) ++ be 2 0 ++ be 2 0) _ _

/-- the CSD is read from the descriptors -/
theorem esds_info {track : MOVTrack} (h : track.csdData.val.length < 2 ^ 27)
    (hne : track.csdData.val ≠ []) :
    (descrsOf mpeg4Own ((esdsBox track).body.drop 4)).bind decoderInfo
      = some track.csdData.val := by
  have hbody : (esdsBox track).body = be 4 0 ++ (esDescr track).encode :=
    (leaf_body _ _).trans (emitted_esdsFields track h)
  have hread := Descriptors.descrsOf_encodeAll mpeg4Own [esDescr track] fun t ht => by
    rw [List.mem_singleton.mp ht]
    exact esDescr_wellFormed track h
  rw [Descriptors.encodeAll_cons, Descriptors.encodeAll_nil, List.append_nil] at hread
  have h4 : (be 4 0).length = 4 := be_length 4 0
  have hdrop := @List.drop_left _ (be 4 0) (esDescr track).encode
  rw [h4, ← hbody] at hdrop
  have hcsd : csdDescr track = [.mk 5 track.csdData.val []] :=
    if_pos (List.length_pos_of_ne_nil hne).ne'
  rw [hdrop, hread, Option.bind_some, esDescr, hcsd]
  rfl

/-- **What is read of an audio track.** -/
theorem audioSetup_moov {file : Bytes}
    (hfile : findBox (fourcc 'm' 'o' 'o' 'v').val file = some (moovBox env mov).body)
    (h : (moovBox env mov).encode.length < 2 ^ 32)
    (htype : ∀ i ∈ writtenTracks mov, (mov.tracks i).enc.codec_type = i)
    (ht : .audio ∈ writtenTracks mov) (htag : (mov.tracks .audio).tag = mkTag 'm' 'p' '4' 'a')
    (hcsd : (mov.tracks .audio).csdData.val.length < 2 ^ 27)
    (hne : (mov.tracks .audio).csdData.val ≠ []) :
    audioSetup file = some ⟨(fourcc 'm' 'p' '4' 'a').val,
      u32 (mov.tracks .audio).enc.channels % 2 ^ 16,
      u32 (mov.tracks .audio).enc.bits_per_sample % 2 ^ 16,
      u32 (mov.tracks .audio).enc.sample_rate % 2 ^ 16,
      (mov.tracks .audio).csdData.val⟩ := by
  obtain ⟨hentry, hlen⟩ := moov_entry h htype ht
  obtain ⟨hchannels, hbits, hrate⟩ := @entry_sound env (mov.tracks .audio) (htype .audio ht)
  have hfields : (emitted (entryFields (mov.tracks .audio))).length = 28 := by
    rw [entryFields, htype .audio ht]
    exact audioFields_length _
  have hcodec : codecBoxes env (mov.tracks .audio) = [esdsBox (mov.tracks .audio)] := by
    unfold codecBoxes
    rw [htype .audio ht]
    exact if_pos htag
  obtain ⟨hesds, -⟩ := entry_codec hfields hlen hcodec
  unfold audioSetup
  rw [hfile, Option.bind_some, hentry, Option.bind_some,
    show findBox (fourcc 'e' 's' 'd' 's').val _ = some (esdsBox (mov.tracks .audio)).body from
      hesds,
    Option.bind_some, esds_info hcsd hne, Option.map_some, hchannels, hbits, hrate, htag]
  rfl

end

/-! ## the file -/

section
variable {env : Env} {ctx : AVFormatContext} {calls : List (Mem × AVPacket)}

/-- a track is written with the tag, the codec and the CSD that it was given -/
theorem Parts.given (env : Env) {total : Option Int} {body : List CacheWrite × AVFormatContext}
    {u : CodecType} {c : Chunk} {mov : MOVContext} (h : Parts ctx calls total body u c mov)
    {t : CodecType} (ht : t ∈ writtenTracks mov) :
    ((mov.prepared env).tracks t).tag = movFindCodecTag (ctx.streams t) ∧
      ((mov.prepared env).tracks t).enc = ctx.streams t ∧
      ((mov.prepared env).tracks t).csdData = (ctx.priv_data.tracks t).csdData := by
  rw [prepared_tracks env mov t (written_below ht).1]
  refine ⟨?_, h.closed.enc ht, h.closed.csdData t⟩
  have htag : (mov.tracks t).tag = (ctx.headed.priv_data.tracks t).tag :=
    congrArg TrackSetup.tag (h.closed.setup_track t)
  show (mov.tracks t).tag = _
  rw [htag, headed_tracks, if_pos (h.closed.below ht)]

/-- what a player reads to set up the decoders of a session -/
theorem Recordable.sets_up (h : Recordable env ctx calls) {s : MmStreamInfo} (hfull : s.AlwaysFull)
    (hempty : s.contents = []) (hpos : s.pos = 0) {mpCache : Bytes} {cacheSize : Int}
    (hcache : 0 < cacheSize) (hlen : (mpCache.length : Int) = cacheSize) (total : Option Int) :
    ∃ out, mp4File env ctx s mpCache cacheSize calls total = some out ∧
      (.video ∈ streamsBelow ctx.mTrackCnt → callsOf .video calls ≠ [] →
        ∀ (us : List Bytes) (sps pps : Bytes),
        (ctx.priv_data.tracks .video).csdData.val = stream (us.map (true, ·)) →
        (∀ u ∈ us, Payload u ∧ 4 ≤ u.length ∧ u.length ≤ 65535) →
        (us.filter (nalType · = 7)).getLast? = some sps →
        (us.filter (nalType · = 8)).getLast? = some pps →
        videoSetup out.2.1 = some ⟨(fourcc 'a' 'v' 'c' '1').val,
          u32 (ctx.streams .video).width % 2 ^ 16, u32 (ctx.streams .video).height % 2 ^ 16, sps,
          pps⟩) ∧
      (.audio ∈ streamsBelow ctx.mTrackCnt → callsOf .audio calls ≠ [] →
        (ctx.streams .audio).codec_id = codecIdAac →
        (ctx.priv_data.tracks .audio).csdData.val ≠ [] →
        audioSetup out.2.1 = some ⟨(fourcc 'm' 'p' '4' 'a').val,
          u32 (ctx.streams .audio).channels % 2 ^ 16,
          u32 (ctx.streams .audio).bits_per_sample % 2 ^ 16,
          u32 (ctx.streams .audio).sample_rate % 2 ^ 16,
          (ctx.priv_data.tracks .audio).csdData.val⟩) := by
  obtain ⟨out, body, u, c, mov, heq, hparts, -, hmoov, hfound, -⟩ :=
    h.file hfull hempty hpos hcache hlen total
  have htypes := hparts.closed.prepared_type env h.opened.fresh
  refine ⟨out, heq, ?_, ?_⟩
  · intro hbelow hcalls us sps pps hcsd hu hsps hpps
    obtain ⟨ht, hprepared, -, -⟩ := h.written hparts hbelow hcalls
    obtain ⟨htag, henc, hdata⟩ := hparts.given env ht
    have h264 : movFindCodecTag (ctx.streams .video) = mkTag 'a' 'v' 'c' '1' := if_pos h.h264
    have hsetup :=
      videoSetup_moov hfound hmoov htypes hprepared (htag.trans h264)
        (by rw [hdata]; exact hcsd) hu hsps hpps
    rwa [henc] at hsetup
  · intro hbelow hcalls haac hne
    obtain ⟨ht, hprepared, -, -⟩ := h.written hparts hbelow hcalls
    obtain ⟨htag, henc, hdata⟩ := hparts.given env ht
    have hmp4a : movFindCodecTag (ctx.streams .audio) = mkTag 'm' 'p' '4' 'a' := by
      unfold movFindCodecTag
      rw [haac]
      rfl
    have hsetup :=
      audioSetup_moov hfound hmoov htypes hprepared (htag.trans hmp4a)
        (by rw [hdata]; exact h.csd .audio)
      (by rw [hdata]; exact hne)
    rwa [henc, hdata] at hsetup

/-- **The decoders are set up.**  From the file of a recordable session a player reads, for a video
track whose CSD is NAL units behind start codes of four bytes, the size of the picture, the last SPS
and the last PPS of the CSD, and for an audio track the sound format and the CSD; of the size and
the sound format it gets the low 16 bits. -/
theorem set_up (h : Recordable env ctx calls) {s : MmStreamInfo} (hfull : s.AlwaysFull)
    (hempty : s.contents = []) (hpos : s.pos = 0) {mpCache : Bytes} {cacheSize : Int}
    (hcache : 0 < cacheSize) (hlen : (mpCache.length : Int) = cacheSize) (total : Option Int) :
    ∃ out, mp4File env ctx s mpCache cacheSize calls total = some out ∧
      (.video ∈ streamsBelow ctx.mTrackCnt → callsOf .video calls ≠ [] →
        ∀ (us : List Bytes) (sps pps : Bytes),
        (ctx.priv_data.tracks .video).csdData.val = stream (us.map (true, ·)) →
        (∀ u ∈ us, Payload u ∧ 4 ≤ u.length ∧ u.length ≤ 65535) →
        (us.filter (nalType · = 7)).getLast? = some sps →
        (us.filter (nalType · = 8)).getLast? = some pps →
        videoSetup out.2.1 = some ⟨(fourcc 'a' 'v' 'c' '1').val,
          u32 (ctx.streams .video).width % 2 ^ 16, u32 (ctx.streams .video).height % 2 ^ 16, sps,
          pps⟩) ∧
      (.audio ∈ streamsBelow ctx.mTrackCnt → callsOf .audio calls ≠ [] →
        (ctx.streams .audio).codec_id = codecIdAac →
        (ctx.priv_data.tracks .audio).csdData.val ≠ [] →
        audioSetup out.2.1 = some ⟨(fourcc 'm' 'p' '4' 'a').val,
          u32 (ctx.streams .audio).channels % 2 ^ 16,
          u32 (ctx.streams .audio).bits_per_sample % 2 ^ 16,
          u32 (ctx.streams .audio).sample_rate % 2 ^ 16,
          (ctx.priv_data.tracks .audio).csdData.val⟩) :=
  h.sets_up hfull hempty hpos hcache hlen total

end

/-- two sets, and the CSD of 44.1 kHz stereo -/
def setupContext : AVFormatContext :=
  (mp4MuxerOpen 0 (fun _ => 0) (fun _ => 0)).commands [.trackInfo smallInfo,
    .csd ⟨[0, 0, 0, 1, 0x67, 0x42, 0xc0, 0x1e, 0, 0, 0, 1, 0x68, 0xce, 0x3c, 0x80], by decide⟩
      .video,
    .csd ⟨[0x12, 0x10], by decide⟩ .audio]

/-- any packets within the capacities, in this context -/
theorem setup_recordable {calls : List (Mem × AVPacket)} (hnonempty : calls ≠ [])
    (hstreamed : Streamed calls) (hstarted : Started calls) (hcapacity : Capacity calls)
    (hdata : (payload (samples calls)).length < 2 ^ 28) :
    Recordable smallEnv setupContext calls where
  opened := ⟨0, _, _, _, rfl⟩
  count := by decide
  h264 := rfl
  scales := by decide
  csd := by
    intro t
    cases t <;> decide
  avcc := by decide +kernel
  nonempty := hnonempty
  streamed := hstreamed
  started := hstarted
  capacity := hcapacity
  data := hdata

theorem set_up_small :
    ∃ out, mp4File smallEnv setupContext newFile [0, 0, 0, 0] 4 idrCalls (some 100)
        = some out ∧
      videoSetup out.2.1 = some ⟨[0x61, 0x76, 0x63, 0x31], 640, 480, [0x67, 0x42, 0xc0, 0x1e],
        [0x68, 0xce, 0x3c, 0x80]⟩ ∧
      audioSetup out.2.1 = some ⟨[0x6d, 0x70, 0x34, 0x61], 2, 16, 44100, [0x12, 0x10]⟩ := by
  have hidr := idrCalls_recordable
  obtain ⟨out, hout, hvideo, haudio⟩ :=
    set_up (setup_recordable hidr.nonempty hidr.streamed hidr.started hidr.capacity hidr.data)
      newFile_full rfl rfl
      (by decide) small_cache (some 100)
  refine ⟨out, hout, ?_, ?_⟩
  · exact hvideo (by decide) (List.cons_ne_nil _ _)
      [[0x67, 0x42, 0xc0, 0x1e], [0x68, 0xce, 0x3c, 0x80]] _ _ rfl (by decide)
      rfl rfl
  · exact haudio (by decide) (List.cons_ne_nil _ _) rfl (List.cons_ne_nil _ _)

end Pluto.Mp4

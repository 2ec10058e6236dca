import Pluto.Mp4.DecoderSetup
import Pluto.Ts.Aac
import Pluto.Ts.TimeStamp
import Pluto.Ts.Check

/-!
# The two muxers record the same

The same packets go to both muxers.  A receiver of the transport stream and a player of the MP4 file
read nothing but their bytes.

* `TsUnit`, `tsUnits` an access unit of the transport stream: its time stamp and what is behind its
  PES header;
* `SameUnit`             an access unit and a sample that hold the same;
* `Shared`               a session that both muxers can write;
* `muxers_agree`         the access units are the samples, one by one.
-/

namespace Pluto.Agree
open Octets Transport

/-! ## what is read of the two files -/

structure TsUnit where
  es : Bytes
  pts : Nat

/-- the access units of a track: its PES packets, by their PID -/
def tsUnits (file : Bytes) (t : CodecType) : List TsUnit :=
  (elementary (Ts.trackPid t) file).2.map fun pes =>
    ⟨Ts.pesPayload pes, Ts.ptsField (slice pes 9 5)⟩

/-- a picture stands behind the delimiter, and at a sample where a player may start behind the
codec-specific data as well; its time stamp counts the 90 kHz clock from `first` on.  A frame of
sound stands behind an ADTS header. -/
def SameUnit (videoCSD audioCSD : Bytes) (first : Nat) : CodecType → TsUnit → Mp4.Sample → Prop
  | .video, u, s =>
    u.es = Ts.nalAud ++ ((if s.sync then videoCSD else []) ++ ([0, 0, 0, 1] ++ s.bytes)) ∧
      u.pts = first + 90 * s.time
  | .audio, u, s =>
    ∃ h, Ts.Configured (audioCSD.getD 0 0) (audioCSD.getD 1 0) h ∧
      Adts.frames u.es = some [(h, s.bytes)]

/-! ## a session for both -/

/-- a picture behind a start code of four bytes, marked as a key frame if it has an IDR unit, at a
time below the wrap-around of the clock -/
structure Picture (c : Mem × AVPacket) : Prop where
  start : (c.2.payload c.1).take 4 = [0, 0, 0, 1]
  flag : c.2.flags ≠ 0 ↔ Mp4.Idr c
  early : 0 ≤ c.2.pts
  late : 90 * c.2.pts < 2 ^ 32

/-- packets that both muxers can write; the codec-specific data of the transport stream is an
AudioSpecificConfig of two bytes in the audio track -/
structure Shared (env : Mp4.Env) (ctx : Mp4.AVFormatContext) (channelCnt sampleRate : Int)
    (videoCSD audioCSD : Bytes) (calls : List (Mem × AVPacket)) : Prop where
  recordable : Mp4.Recordable env ctx calls
  channels : channelCnt ≠ 0
  rate : sampleRate ≠ 0
  csd : videoCSD.length ≤ 156
  config : audioCSD.length = 2
  object : 1 ≤ (audioCSD.getD 0 0).toNat / 8 ∧ (audioCSD.getD 0 0).toNat / 8 ≤ 4
  layout : (audioCSD.getD 1 0).toNat / 8 % 16 ≤ 7
  muxable : ∀ c ∈ calls, ∃ t, Ts.Muxable (Ts.session channelCnt sampleRate videoCSD audioCSD) c.2 t
  pictures : ∀ c ∈ Mp4.callsOf .video calls, Picture c
  frames : ∀ c ∈ Mp4.callsOf .audio calls, c.2.size0 + c.2.size1 + 7 < 8192
  gaps : Mp4.Gaps (Mp4.packetsOf .video calls)

/-- presentation times do not go back -/
theorem ptsOf_le {calls : List (Mem × AVPacket)} (hgaps : Mp4.Gaps (Mp4.packetsOf .video calls))
    {k : Nat} (hk : k < (Mp4.packetsOf .video calls).length) :
    Mp4.ptsOf calls 0 ≤ Mp4.ptsOf calls k := by
  induction k with
  | zero => exact le_rfl
  | succ k ih =>
    have hprev := ih (by omega)
    obtain ⟨hgap, h0, -⟩ := hgaps k hk
    have hlt : k < (Mp4.packetsOf .video calls).length := by omega
    rw [Mp4.ptsOf_eq hlt] at hprev
    rw [Mp4.ptsOf_eq hk]
    omega

section
variable {channelCnt sampleRate : Int} {videoCSD audioCSD : Bytes}

/-- the time stamp in a PES packet -/
theorem ptsField_pesPacket (ctx : Ts.AVFormatContext) {pkt : AVPacket} {t : CodecType}
    (payload : Bytes) (h0 : 0 ≤ pkt.pts) (h1 : 90 * pkt.pts < 2 ^ 32) :
    Ts.ptsField (slice (Ts.pesPacket ctx pkt t payload) 9 5) = 90 * pkt.pts.toNat := by
  have hread :=
    (Ts.pesHeader_pts (Ts.streamId t) (Ts.pesPacketLength (Ts.streamSize ctx pkt t))
      (Ts.ptsOf pkt.pts)).2
  have hlt : 90 * pkt.pts.toNat < 2 ^ 32 := by omega
  unfold Ts.pesPacket
  rw [List.append_assoc, slice_append_left _ _ _ _ (show 9 + 5 ≤ 14 by decide), hread,
    Ts.ptsOf_eq h0, Nat.mod_eq_of_lt hlt, Nat.mod_eq_of_lt (hlt.trans (by decide))]

/-- the presentation time of a picture is that of its call -/
theorem ptsOf_call {calls : List (Mem × AVPacket)} {k : Nat}
    (hk : k < (Mp4.callsOf .video calls).length) :
    Mp4.ptsOf calls k = (Mp4.callsOf .video calls)[k].2.pts := by
  have hkp : k < (Mp4.packetsOf .video calls).length := by rwa [← Mp4.callsOf_length]
  rw [Mp4.ptsOf_eq hkp]
  simp only [← Mp4.callsOf_packets, List.getElem_map]

/-- the codec-specific data goes in front of the pictures where a player may start -/
theorem esHead_picture {tctx : Ts.AVFormatContext} (hcsd : tctx.mTrackCSD .video = videoCSD)
    {c : Mem × AVPacket} (hflag : c.2.flags ≠ 0 ↔ Mp4.Idr c) :
    Ts.esHead tctx c.2 .video = Ts.nalAud ++ if Mp4.syncOf .video c then videoCSD else [] := by
  show Ts.nalAud ++ (if c.2.flags ≠ 0 then tctx.mTrackCSD .video else []) = _
  rw [hcsd]
  by_cases hidr : Mp4.Idr c
  · have hsync : Mp4.syncOf .video c = true := decide_eq_true hidr
    rw [if_pos (hflag.mpr hidr), if_pos hsync]
  · have hsync : ¬ Mp4.syncOf .video c = true := by
      show ¬ decide _ = true
      rwa [decide_eq_true_iff]
    rw [if_neg fun h => hidr (hflag.mp h), if_neg hsync]

/-- one picture -/
theorem sameUnit_video {calls : List (Mem × AVPacket)} {ctx : Mp4.AVFormatContext}
    {tctx : Ts.AVFormatContext} (hcsd : tctx.mTrackCSD .video = videoCSD)
    (hpictures : ∀ c ∈ Mp4.callsOf .video calls, Picture c)
    (hgaps : Mp4.Gaps (Mp4.packetsOf .video calls)) {k : Nat}
    (hk : k < (Mp4.callsOf .video calls).length) :
    SameUnit videoCSD audioCSD (90 * (Mp4.ptsOf calls 0).toNat) .video
      ⟨Ts.pesPayload (Ts.pesPacket tctx (Mp4.callsOf .video calls)[k].2 .video
          ((Mp4.callsOf .video calls)[k].2.payload (Mp4.callsOf .video calls)[k].1)),
        Ts.ptsField (slice (Ts.pesPacket tctx (Mp4.callsOf .video calls)[k].2 .video
          ((Mp4.callsOf .video calls)[k].2.payload (Mp4.callsOf .video calls)[k].1)) 9 5)⟩
      ⟨Mp4.unitOf .video (Mp4.callsOf .video calls)[k], Mp4.timeOf ctx calls k .video,
        Mp4.syncOf .video (Mp4.callsOf .video calls)[k]⟩ := by
  obtain ⟨hstart, hflag, hearly, hlate⟩ := hpictures _ (List.getElem_mem hk)
  constructor
  · show Ts.pesPayload _ = _
    have hpayload :=
      List.take_append_drop 4
        ((Mp4.callsOf .video calls)[k].2.payload (Mp4.callsOf .video calls)[k].1)
    rw [hstart] at hpayload
    rw [Ts.pesPayload_pesPacket, esHead_picture hcsd hflag, List.append_assoc]
    dsimp only
    unfold Mp4.unitOf
    dsimp only
    rw [hpayload]
  · show Ts.ptsField _ = 90 * (Mp4.ptsOf calls 0).toNat
      + 90 * (Mp4.ptsOf calls k - Mp4.ptsOf calls 0).toNat
    have hle :=
      ptsOf_le hgaps (show k < (Mp4.packetsOf .video calls).length by rwa [← Mp4.callsOf_length])
    have hfirst : 0 ≤ Mp4.ptsOf calls 0 := by
      have h0 : 0 < (Mp4.callsOf .video calls).length := by omega
      rw [ptsOf_call h0]
      exact (hpictures _ (List.getElem_mem h0)).early
    rw [ptsField_pesPacket tctx _ hearly hlate, ← ptsOf_call hk]
    omega

/-- one frame of sound -/
theorem sameUnit_audio {ctx : Mp4.AVFormatContext} {tctx : Ts.AVFormatContext}
    {calls : List (Mem × AVPacket)} {csd0 csd1 : UInt8}
    (hcsd : tctx.mTrackCSD .audio = [csd0, csd1]) {h : Adts.Header} (hc : Ts.Configured csd0 csd1 h)
    (htype : 1 ≤ csd0.toNat / 8) {c : Mem × AVPacket} (hlen : c.2.size0 + c.2.size1 + 7 < 8192)
    (first k : Nat) (pts : Nat) :
    SameUnit videoCSD [csd0, csd1] first .audio
      ⟨Ts.pesPayload (Ts.pesPacket tctx c.2 .audio (c.2.payload c.1)), pts⟩
      ⟨Mp4.unitOf .audio c, Mp4.timeOf ctx calls k .audio, Mp4.syncOf .audio c⟩ := by
  have hsize : Ts.streamSize tctx c.2 .audio = c.2.size0 + c.2.size1 + 7 := by
    show (c.2.size0 + c.2.size1 + 7) % 2 ^ 32 = _
    omega
  have hpayload : (c.2.payload c.1).length + 7 = c.2.size0 + c.2.size1 + 7 := by
    rw [AVPacket.payload_length]
  have hhead : Ts.esHead tctx c.2 .audio = h.encode ((c.2.payload c.1).length + 7) := by
    unfold Ts.esHead
    rw [hcsd]
    dsimp only
    rw [hsize, Ts.adtsHeader_encode hc htype hlen, hpayload]
  refine ⟨h, hc, ?_⟩
  dsimp only
  rw [Ts.pesPayload_pesPacket, hhead]
  have hframes := @Adts.frames_encode [(h, c.2.payload c.1)] fun f hf => by
    rw [List.mem_singleton.mp hf]
    show (c.2.payload c.1).length + 7 < 8192
    omega
  rw [List.flatMap_cons, List.flatMap_nil, List.append_nil] at hframes
  exact hframes

end

section
variable (pcr : Int → Int) {env : Mp4.Env} {ctx : Mp4.AVFormatContext} {channelCnt sampleRate : Int}
  {videoCSD audioCSD : Bytes} {calls : List (Mem × AVPacket)} {s₁ s₂ : MmStreamInfo}
  {mpCache₁ mpCache₂ : Bytes} {cacheSize₁ cacheSize₂ : Int}

/-- the access units of a track and its samples -/
theorem Shared.units (h : Shared env ctx channelCnt sampleRate videoCSD audioCSD calls)
    (t : CodecType) :
    List.Forall₂ (SameUnit videoCSD audioCSD (90 * (Mp4.ptsOf calls 0).toNat) t)
      (((Mp4.callsOf t calls).map fun c =>
        Ts.pesPacket (Ts.session channelCnt sampleRate videoCSD audioCSD) c.2 t
            (c.2.payload c.1)).map fun pes =>
          (⟨Ts.pesPayload pes, Ts.ptsField (slice pes 9 5)⟩ : TsUnit))
      (Mp4.recorded ctx calls t) := by
  unfold Mp4.recorded
  rw [List.map_map]
  apply List.forall₂_iff_get.mpr
  refine ⟨by rw [List.length_map, List.length_mapIdx], fun k hk _ => ?_⟩
  have hlt : k < (Mp4.callsOf t calls).length := by rwa [List.length_map] at hk
  simp only [List.get_eq_getElem, List.getElem_map, List.getElem_mapIdx, Function.comp_apply]
  cases t with
  | video =>
    have hcsd := (Ts.session_csds channelCnt sampleRate videoCSD audioCSD).1
    exact sameUnit_video hcsd h.pictures h.gaps hlt
  | audio =>
    obtain ⟨csd0, csd1, hcsd⟩ := List.length_eq_two.mp h.config
    have hobject := h.object
    have hlayout := h.layout
    subst hcsd
    have hcsd := (Ts.session_csds channelCnt sampleRate videoCSD [csd0, csd1]).2
    obtain ⟨header, hheader⟩ := Ts.configured_exists csd0 csd1 hobject.2 hlayout
    have hmem : (Mp4.callsOf .audio calls)[k] ∈ Mp4.callsOf .audio calls := List.getElem_mem hlt
    exact sameUnit_audio hcsd hheader hobject.1 (h.frames _ hmem) _ k _

/-- **The two muxers record the same.**  Packets that both can write are written by the one through
any cache into a transport stream, by the other through any cache into an MP4 file.  In each track
with a packet the access units that a receiver gets and the samples that a player gets are the same,
one by one: the bytes, for pictures the times, and the pictures where a player may start. -/
theorem muxers_agree (h : Shared env ctx channelCnt sampleRate videoCSD audioCSD calls)
    (hfull₁ : s₁.AlwaysFull) (hempty₁ : s₁.contents = []) (hpos₁ : s₁.pos = 0)
    (hcache₁ : 0 < cacheSize₁) (hlen₁ : (mpCache₁.length : Int) = cacheSize₁)
    (hfull₂ : s₂.AlwaysFull) (hempty₂ : s₂.contents = []) (hpos₂ : s₂.pos = 0)
    (hcache₂ : 0 < cacheSize₂) (hlen₂ : (mpCache₂.length : Int) = cacheSize₂) (total : Option Int) :
    ∃ ts mp4, Ts.tsFile pcr (Ts.session channelCnt sampleRate videoCSD audioCSD) s₁ mpCache₁
      cacheSize₁ calls = some ts ∧
      Mp4.mp4File env ctx s₂ mpCache₂ cacheSize₂ calls total = some mp4 ∧
      ∀ t ∈ Mp4.streamsBelow ctx.mTrackCnt, Mp4.callsOf t calls ≠ [] →
        ∃ samples, Mp4.play mp4.2.1 t = some samples ∧
          List.Forall₂ (SameUnit videoCSD audioCSD (90 * (Mp4.ptsOf calls 0).toNat) t)
            (tsUnits ts.2 t) samples := by
  have ha : 2 ≤ audioCSD.length := h.config.ge
  obtain ⟨file, hfile, hbytes⟩ :=
    Ts.tsFile_packets pcr h.channels h.rate h.csd ha hfull₁ hempty₁ hpos₁ hcache₁ hlen₁ h.muxable
  have hcarried := Ts.session_carried h.channels h.rate h.csd ha h.muxable
  obtain ⟨mp4, hmp4, hplay⟩ := h.recordable.plays hfull₂ hempty₂ hpos₂ hcache₂ hlen₂ total
  refine ⟨_, mp4, hfile, hmp4, fun t ht hcalls => ⟨_, hplay t ht hcalls fun _ => h.gaps, ?_⟩⟩
  have helementary : elementary (Ts.trackPid t) file
      = ([], Ts.trackUnits (Ts.session channelCnt sampleRate videoCSD audioCSD) calls t) := by
    rw [hbytes]
    exact (Ts.receives_calls pcr hcarried t).elementary _
  unfold tsUnits
  dsimp only
  rw [helementary]
  exact h.units t

end

/-- a start code of four bytes, and a unit that consists of one byte over and over -/
def pictureMem (b : UInt8) : Mem := fun a => if a < 3 then 0 else if a = 3 then 1 else b

/-- a key frame, a frame of sound, another picture -/
def threeCalls : List (Mem × AVPacket) :=
  [(pictureMem 0x65, ⟨1000, 0, 200, 0, 0, 0, 1, 0⟩), (fun _ => 7, ⟨1010, 0, 200, 0, 0, 1, 0, 20⟩),
    (pictureMem 0x41, ⟨1040, 0, 200, 0, 0, 0, 0, 40⟩)]

theorem threeCalls_shared :
    Shared Mp4.smallEnv Mp4.setupContext 2 44100 [0, 0, 0, 1, 0x67, 1, 2, 3]
      [0x12, 0x10] threeCalls where
  recordable := by
    refine Mp4.setup_recordable (List.cons_ne_nil _ _) (by decide)
      (by decide) ?_ (by decide +kernel)
    intro t
    cases t <;> decide
  channels := by decide
  rate := by decide
  csd := by decide
  config := rfl
  object := by decide
  layout := by decide
  muxable := by
    intro c hc
    simp only [threeCalls, List.mem_cons, List.not_mem_nil, or_false] at hc
    rcases hc with rfl | rfl | rfl
    · exact ⟨.video, rfl, by decide, by decide, by decide, .inl rfl⟩
    · exact ⟨.audio, rfl, by decide, by decide, by decide, .inl rfl⟩
    · exact ⟨.video, rfl, by decide, by decide, by decide, .inl rfl⟩
  pictures := by
    intro c hc
    have hcalls : Mp4.callsOf .video threeCalls = [(pictureMem 0x65, ⟨1000, 0, 200, 0, 0, 0, 1, 0⟩),
        (pictureMem 0x41, ⟨1040, 0, 200, 0, 0, 0, 0, 40⟩)] := rfl
    simp only [hcalls, List.mem_cons, List.not_mem_nil, or_false] at hc
    rcases hc with rfl | rfl
    · exact ⟨by decide +kernel, by decide +kernel, by decide, by decide⟩
    · exact ⟨by decide +kernel, by decide +kernel, by decide, by decide⟩
  frames := by
    intro c hc
    have hcalls : Mp4.callsOf .audio threeCalls = [(fun _ => 7, ⟨1010, 0, 200, 0, 0, 1, 0, 20⟩)] :=
      rfl
    rw [hcalls] at hc
    rw [List.mem_singleton.mp hc]
    decide
  gaps := by
    intro k hk
    have hlen : (Mp4.packetsOf .video threeCalls).length = 2 := rfl
    have hk0 : k = 0 := by omega
    subst hk0
    decide +revert

theorem muxers_agree_three :
    ∃ ts mp4, Ts.tsFile (· * 27000) (Ts.session 2 44100 [0, 0, 0, 1, 0x67, 1, 2, 3] [0x12, 0x10])
        newFile [0, 0, 0, 0, 0, 0, 0] 7 threeCalls = some ts ∧
      Mp4.mp4File Mp4.smallEnv Mp4.setupContext newFile [0, 0, 0, 0] 4 threeCalls none
        = some mp4 ∧
      ∃ pictures sound, Mp4.play mp4.2.1 .video = some pictures ∧
        Mp4.play mp4.2.1 .audio = some sound ∧
        List.Forall₂ (SameUnit [0, 0, 0, 1, 0x67, 1, 2, 3] [0x12, 0x10] 90000 .video)
          (tsUnits ts.2 .video) pictures ∧
        List.Forall₂ (SameUnit [0, 0, 0, 1, 0x67, 1, 2, 3] [0x12, 0x10] 90000 .audio)
          (tsUnits ts.2 .audio) sound := by
  obtain ⟨ts, mp4, hts, hmp4, hsame⟩ :=
    muxers_agree (· * 27000) threeCalls_shared newFile_full rfl rfl (by decide)
      (show ((([0, 0, 0, 0, 0, 0, 0] : Bytes).length : Int) = 7) from rfl) newFile_full
        rfl rfl (by decide) Mp4.small_cache none
  obtain ⟨pictures, hpictures, hvideo⟩ := hsame .video (by decide) (List.cons_ne_nil _ _)
  obtain ⟨sound, hsound, haudio⟩ := hsame .audio (by decide) (List.cons_ne_nil _ _)
  exact ⟨ts, mp4, hts, hmp4, pictures, sound, hpictures, hsound, hvideo, haudio⟩

end Pluto.Agree

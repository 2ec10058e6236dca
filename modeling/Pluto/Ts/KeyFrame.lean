import Pluto.Ts.Aac
import Pluto.Ts.Padding

/-!
# Key frames with a CSD

The access unit delimiter and the CSD of a key frame are written in front of the payload, into the
first packet.  What the packet has left for the payload is `162 - 6 - nCsdLen`; the padding goes by
`stream_size`, which counts the payload as well.  A CSD of more than 156 bytes leaves less than
nothing, and that is passed to `cache_write` as a length (`key_frame_iff`).

* `KeyFrame`        the packets in question;
* `KeyFrameCarried`  whole packets that carry the key frame;
* `run_kept`        what a run keeps of the session.
-/

namespace Pluto.Ts
open Octets Transport

/-- a video key frame whose segments are contiguous; `data1` may be missing behind a payload in
`data0` -/
structure KeyFrame (pkt : AVPacket) : Prop where
  video : pkt.stream_idx = 0
  key : pkt.flags ≠ 0
  fits : pkt.Fits
  segments : pkt.data1 = pkt.data0 + pkt.size0 ∨ pkt.size1 = 0 ∧ 0 < pkt.size0

/-- the writes of an access unit are whole packets, and these carry the PES header, the delimiter,
the CSD and the two segments -/
structure KeyFrameCarried (ctx : AVFormatContext) (m : Mem) (pkt : AVPacket)
    (ws : List CacheWrite) : Prop where
  nonneg : ∀ w ∈ ws, 0 ≤ w.size
  total : ((emitted ws).length : Int) = (ws.map CacheWrite.size).sum
  packets : 188 ∣ (emitted ws).length
  sync : ∀ b ∈ cut (emitted ws), b.head? = some 0x47
  carries : carriedPes ws
    = pesHeader (streamId .video) (pesPacketLength (streamSize ctx pkt .video)) (ptsOf pkt.pts)
      ++ nalAud ++ ctx.mTrackCSD .video ++ pkt.seg0 m ++ pkt.seg1 m

/-! ## one access unit -/

section
variable (pcr : Int → Int) {ctx : AVFormatContext} {pkt : AVPacket} {m : Mem}

theorem KeyFrame.contiguous (h : KeyFrame pkt) : pkt.Contiguous := by
  rcases h.segments with hs | ⟨hs, -⟩
  · exact Or.inr hs
  · exact Or.inl hs

theorem KeyFrame.empty (h : KeyFrame pkt) (h0 : pkt.size = 0) : pkt.data1 = pkt.data0 := by
  unfold AVPacket.size at h0
  rcases h.segments with hs | ⟨-, hs⟩ <;> omega

theorem KeyFrame.header (h : KeyFrame pkt) (ctx : AVFormatContext) :
    unitHeader ctx pkt .video = some [nalAud, ctx.mTrackCSD .video] := by
  rw [unitHeader, if_pos h.key]

theorem keyHeader_length (ctx : AVFormatContext) :
    [nalAud, ctx.mTrackCSD .video].flatten.length = 6 + (ctx.mTrackCSD .video).length := by
  rw [List.flatten_cons, List.flatten_cons, List.flatten_nil, List.append_nil, List.length_append]
  rfl

theorem KeyFrame.unit (h : KeyFrame pkt) (hcsd : (ctx.mTrackCSD .video).length ≤ 156) :
    AccessUnit ctx pkt .video [nalAud, ctx.mTrackCSD .video] := by
  refine ⟨codecType_video.mpr h.video, h.header ctx, ?_, h.fits⟩
  rw [keyHeader_length]
  omega

theorem KeyFrame.pes (h : KeyFrame pkt) (m : Mem) :
    pesPacket ctx pkt .video (pkt.payload m)
      = pesHeader (streamId .video) (pesPacketLength (streamSize ctx pkt .video)) (ptsOf pkt.pts)
        ++ nalAud ++ ctx.mTrackCSD .video ++ pkt.seg0 m ++ pkt.seg1 m := by
  unfold pesPacket esHead AVPacket.payload
  dsimp only
  rw [if_pos h.key]
  simp only [List.append_assoc]

/-- A CSD of more than 156 bytes: what the payload gets of the first packet is a negative length. -/
theorem csd_fits (h : KeyFrame pkt) (h162 : 162 ≤ streamSize ctx pkt .video)
    {r : List CacheWrite × AVFormatContext} (hr : writeAccessUnit pcr ctx m pkt = some r)
    (hnn : ∀ w ∈ r.1, 0 ≤ w.size) :
    (ctx.mTrackCSD .video).length ≤ 156 := by
  by_contra hlong
  rw [writeAccessUnit_parts pcr (codecType_video.mpr h.video) (h.header ctx) m,
    paddingSize_large h162, keyHeader_length] at hr
  split at hr
  · cases hr
  · next ws left ptr hw =>
    obtain ⟨s, -, rfl⟩ := Option.map_eq_some_iff.mp hr
    obtain ⟨w, hmem, hneg⟩ := write_negative (by omega) hw
    have := hnn w (List.mem_append_left _ (List.mem_append_right _ hmem))
    omega

/-- without a payload there is no room left, and an empty write at `data0` -/
theorem write_empty (h : KeyFrame pkt) (h0 : pkt.size = 0) :
    writeAvTsPacket m pkt 0 0 pkt.data0 = some ([⟨.memory m pkt.data0, 0⟩], 0, pkt.data0) := by
  have hd := h.empty h0
  unfold AVPacket.size at h0
  obtain ⟨hs0, hs1⟩ := Nat.add_eq_zero_iff.mp h0
  have hcur : toInt32 (pkt.data1 + pkt.size1 - pkt.data0) = 0 := by
    rw [hd, hs1]
    simp [toInt32]
  have hout : ¬ (pkt.data0 ≤ pkt.data0 ∧ pkt.data0 < pkt.data0 + (pkt.size0 : Int)) := by
    rw [hs0, Nat.cast_zero, add_zero]
    exact fun hin => lt_irrefl _ hin.2
  unfold writeAvTsPacket
  dsimp only
  simp only [if_neg hout, hcur]
  simp

theorem writeAccessUnit_empty (h : KeyFrame pkt) (hcsd : (ctx.mTrackCSD .video).length = 156)
    (h0 : pkt.size = 0) :
    ∃ r, writeAccessUnit pcr ctx m pkt = some r ∧ (∀ w ∈ r.1, (w.bytes.length : Int) = w.size) ∧
      emitted r.1 = unitBytes pcr ctx pkt .video [nalAud, ctx.mTrackCSD .video]
        (pkt.payload m) := by
  have hau := h.unit hcsd.le
  have hlen := keyHeader_length ctx
  have hpayload : pkt.payload m = [] :=
    List.length_eq_zero_iff.mp (by rw [AVPacket.payload_length]; exact h0)
  refine ⟨(CacheWrite.all (unitPrefix pcr ctx pkt .video)
    :: [nalAud, ctx.mTrackCSD .video].map CacheWrite.all
    ++ [⟨.memory m pkt.data0, 0⟩] ++ [], bump ctx .video), ?_, ?_, ?_⟩
  · rw [writeAccessUnit_eq pcr hau m, h0, hlen, hcsd, paddingSize_large (by decide)]
    have hroom : (162 - (0 : Nat) - (6 + 156 : Nat) : Int) = 0 := rfl
    simp only [Nat.cast_zero] at hroom ⊢
    rw [hroom, write_empty h h0]
    rfl
  · intro w hw
    rw [List.append_nil] at hw
    rcases List.mem_append.mp hw with hw | hw
    · exact (inside_all pkt (unitPrefix pcr ctx pkt .video :: [nalAud, ctx.mTrackCSD .video]) w
        hw).1
    · rw [List.mem_singleton.mp hw]
      rfl
  · have hnone : emitted [⟨.memory m pkt.data0, 0⟩] = [] := rfl
    rw [List.append_nil, emitted_append, emitted_cons, CacheWrite.all_bytes, emitted_all, hnone,
      hpayload, unitBytes, List.take_nil, List.drop_nil, carried_nil, List.append_nil]
    simp only [List.append_nil]

theorem writeAccessUnit_key (h : KeyFrame pkt) (hcsd : (ctx.mTrackCSD .video).length ≤ 156)
    (h162 : 162 ≤ streamSize ctx pkt .video) :
    ∃ r, writeAccessUnit pcr ctx m pkt = some r ∧ (∀ w ∈ r.1, (w.bytes.length : Int) = w.size) ∧
      emitted r.1 = unitBytes pcr ctx pkt .video [nalAud, ctx.mTrackCSD .video]
        (pkt.payload m) := by
  have hau := h.unit hcsd
  have hsize := hau.streamSize
  rcases Nat.eq_zero_or_pos pkt.size with h0 | hpos
  · have hlen := keyHeader_length ctx
    exact writeAccessUnit_empty pcr h (by omega) h0
  · obtain ⟨ws, hw, hin, hem⟩ :=
      writeAccessUnit_bytes pcr hau m hpos (hsize ▸ h162) h.contiguous.disjoint
        ⟨fun _ => h.contiguous, fun _ _ => h.contiguous⟩
    exact ⟨_, hw, fun w hmem => (hin w hmem).1, hem⟩

theorem keyFrame_carried (h : KeyFrame pkt) {pid : Fin 8192} (hpid : ctx.mTrackPid .video = pid)
    (hcounter : ctx.mTSContinuityCounter .video ≤ 15) (hcsd : (ctx.mTrackCSD .video).length ≤ 156)
    (h162 : 162 ≤ streamSize ctx pkt .video) :
    ∃ r, writeAccessUnit pcr ctx m pkt = some r ∧ KeyFrameCarried ctx m pkt r.1 := by
  have hau := h.unit hcsd
  obtain ⟨r, hr, hexact, hem⟩ := writeAccessUnit_key pcr (m := m) h hcsd h162
  have hpes : 176 ≤ (pesPacket ctx pkt .video (pkt.payload m)).length := by
    rw [pesPacket_length hau m]
    omega
  have hstream :=
    hem.trans (unitBytes_packets pcr (fun _ => ⟨ctx.mTSContinuityCounter .video, by omega⟩) hau hpid
      rfl m
    h162 hpes)
  refine ⟨r, hr, fun w hw => ?_, emitted_total hexact, ?_, fun b hb => ?_, ?_⟩
  · rw [← hexact w hw]
    exact Int.natCast_nonneg _
  · rw [hstream, stream_length]
    exact Nat.dvd_mul_right 188 _
  · rw [hstream] at hb
    exact sync_stream hb
  · unfold carriedPes
    rw [hstream, payloads_stream, payloads_pesPackets, h.pes]

theorem keyFrame_iff (h : KeyFrame pkt) {pid : Fin 8192} (hpid : ctx.mTrackPid .video = pid)
    (hcounter : ctx.mTSContinuityCounter .video ≤ 15) (h162 : 162 ≤ streamSize ctx pkt .video) :
    (∃ r, writeAccessUnit pcr ctx m pkt = some r ∧ KeyFrameCarried ctx m pkt r.1)
      ↔ (ctx.mTrackCSD .video).length ≤ 156 := by
  constructor
  · rintro ⟨r, hr, hcarried⟩
    exact csd_fits pcr h h162 hr hcarried.nonneg
  · intro hcsd
    exact keyFrame_carried pcr h hpid hcounter hcsd h162

/-! ## in a session -/

theorem run_kept {ctx : AVFormatContext} {calls : List (Mem × AVPacket)}
    {r : List (List CacheWrite) × AVFormatContext} (hr : run pcr ctx calls = some r) :
    Kept ctx r.2 := by
  induction calls generalizing ctx r with
  | nil =>
    cases hr
    exact Kept.refl ctx
  | cons c calls ih =>
    unfold run at hr
    split at hr
    · cases hr
    · next ws ctx₁ hcall =>
      obtain ⟨rest, hrest, rfl⟩ := Option.map_eq_some_iff.mp hr
      have hnext := ih hrest
      exact (call_kept pcr hcall).trans hnext

/-- the context that `write_access_unit` gets from `mpeg2ts_write_packet` for a video packet -/
def afterTables (ctx : AVFormatContext) : AVFormatContext :=
  (writeProgramMapTable (writeProgramAssociationTable ctx).2).2

theorem afterTables_kept (ctx : AVFormatContext) : Kept ctx (afterTables ctx) := ⟨rfl, rfl, rfl, id⟩

/-- **Key frames are carried up to a CSD of 156 bytes.**  After any packets of any session, take a
key frame with contiguous segments and a `stream_size` of at least 162.  Its access unit is written
with non-negative lengths and as whole packets that carry PES header, delimiter, CSD, `data0` and
`data1`, if and only if the CSD has at most 156 bytes. -/
theorem key_frame_iff {channelCnt sampleRate : Int} {videoCSD audioCSD : Bytes}
    {calls : List (Mem × AVPacket)} {wss : List (List CacheWrite)} {ctx : AVFormatContext}
    (hrun : run pcr (session channelCnt sampleRate videoCSD audioCSD) calls = some (wss, ctx))
    (m : Mem) {pkt : AVPacket} (h : KeyFrame pkt)
    (h162 : 162 ≤ streamSize (afterTables ctx) pkt .video) :
    (∃ r, writeAccessUnit pcr (afterTables ctx) m pkt = some r ∧
      KeyFrameCarried (afterTables ctx) m pkt r.1)
      ↔ videoCSD.length ≤ 156 := by
  have hkept := (run_kept pcr hrun).trans (afterTables_kept ctx)
  have hcsd : (session channelCnt sampleRate videoCSD audioCSD).mTrackCSD .video = videoCSD := by
    unfold session mpeg2tsMuxerWriteHeader
    split <;> rfl
  have hcounter : ∀ t, (session channelCnt sampleRate videoCSD audioCSD).mTSContinuityCounter t
      ≤ 15 := by
    intro t
    unfold session mpeg2tsMuxerWriteHeader
    split <;> exact Nat.zero_le 15
  have hpid := (session_tracks channelCnt sampleRate videoCSD audioCSD).1 .video
  rw [keyFrame_iff pcr h ((congrFun hkept.pid _).trans hpid) (hkept.counters hcounter .video) h162,
    hkept.csd, hcsd]

end

/-- a key frame of `n` bytes at address `0` -/
def keyFrame (n : Nat) : AVPacket := ⟨0, 0, n, n, 0, 0, 1, 33⟩

theorem keyFrame_key {n : Nat} (h : n < 2 ^ 31) : KeyFrame (keyFrame n) :=
  ⟨rfl, one_ne_zero, h, Or.inl (Int.zero_add _).symm⟩

theorem key_frame_iff_small :
    ∃ r, writeAccessUnit (· * 27000)
      (afterTables (session 2 48000 [0, 0, 0, 1, 0x67, 1, 2, 3] [0x11, 0x90]))
        (fun x => UInt8.ofInt x) (keyFrame 200) = some r ∧
      KeyFrameCarried (afterTables (session 2 48000 [0, 0, 0, 1, 0x67, 1, 2, 3] [0x11, 0x90]))
        (fun x => UInt8.ofInt x) (keyFrame 200) r.1 := by
  have hrun : run (· * 27000) (session 2 48000 [0, 0, 0, 1, 0x67, 1, 2, 3] [0x11, 0x90]) []
      = some ([], session 2 48000 [0, 0, 0, 1, 0x67, 1, 2, 3] [0x11, 0x90]) := rfl
  exact (key_frame_iff (· * 27000) hrun (fun x => UInt8.ofInt x) (keyFrame_key (by decide))
    (by decide)).mpr (by decide)

/-- with a CSD of 157 bytes the payload starts with a length of `-1` -/
theorem long_csd_negative :
    (writeAccessUnit (· * 27000)
      (afterTables (session 2 48000 (List.replicate 157 0x67) [0x11, 0x90]))
        (fun x => UInt8.ofInt x) (keyFrame 200)).map (fun r => r.1.map CacheWrite.size)
      = some [26, 6, 157, -1, 4, 184, 171, 17] ∧
    ¬ ∃ r, writeAccessUnit (· * 27000)
      (afterTables (session 2 48000 (List.replicate 157 0x67) [0x11, 0x90]))
        (fun x => UInt8.ofInt x) (keyFrame 200) = some r ∧
      KeyFrameCarried (afterTables (session 2 48000 (List.replicate 157 0x67) [0x11, 0x90]))
        (fun x => UInt8.ofInt x) (keyFrame 200) r.1 := by
  refine ⟨by decide +kernel, ?_⟩
  rintro ⟨r, hr, hcarried⟩
  have := csd_fits (· * 27000) (keyFrame_key (by decide)) (by decide +kernel) hr hcarried.nonneg
  exact absurd this (by decide +kernel)

end Pluto.Ts

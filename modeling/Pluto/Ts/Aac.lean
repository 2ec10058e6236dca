import Pluto.Bytes.Adts
import Pluto.Ts.Pids

/-!
# The audio of a run

* `audioStream`          the elementary stream bytes of the audio access units of a run;
* `adtsHeader_encode`    the header of a frame is the ADTS header of its configuration;
* `audioStream_run`      the bytes of the access units are the frames behind their headers;
* `aac_frames`           a parser that goes by the lengths of the headers gets every frame back.
-/

namespace Pluto.Ts
open Octets Transport

/-! ## elementary streams -/

/-- the PES packet that the packets of one access unit carry -/
def carriedPes (ws : List CacheWrite) : Bytes := (cut (emitted ws)).flatMap payloadOf

/-- what stands behind a PES header; the ninth byte is the length of the fields that follow it -/
def pesPayload (pes : Bytes) : Bytes := pes.drop (9 + byteAt pes 8)

/-- the calls of the audio track, and what they wrote -/
def audioStream (calls : List (Mem × AVPacket)) (wss : List (List CacheWrite)) : Bytes :=
  ((calls.zip wss).filter fun x => x.1.2.stream_idx = 1).flatMap fun x =>
    pesPayload (carriedPes x.2)

theorem payloads_stream (cc : Counters) (ps : List Packet) :
    (cut (stream cc ps)).flatMap payloadOf = (ps.map Packet.payload).flatten := by
  have hpayload : ∀ x ∈ stamp cc ps, payloadOf (x.1.encode x.2) = x.1.payload :=
    fun x _ => payloadOf_encode x.1 x.2
  rw [cut_stream, List.flatMap_map, List.flatMap_congr hpayload]
  conv_rhs => rw [← stamp_packets cc ps]
  rw [List.map_map]
  rfl

theorem payloads_pesPackets {pid : Fin 8192} {clock pes : Bytes} (hclock : clock.length = 7)
    (h : 176 ≤ pes.length) :
    ((pesPackets pid clock pes hclock h).map Packet.payload).flatten = pes := by
  rw [pesPackets, List.map_cons, List.flatten_cons, fragments_payload]
  exact List.take_append_drop 176 pes

/-! ## the header of a frame -/

/-- the fields of a header are those of the two bytes of an AudioSpecificConfig: five bits of object
type, which is one more than the profile, four of sampling_frequency_index, four of
channel_configuration -/
structure Configured (csd0 csd1 : UInt8) (h : Adts.Header) : Prop where
  profile : (h.profile : Nat) = csd0.toNat / 8 - 1
  sampling : (h.sampling : Nat) = csd0.toNat % 8 * 2 + csd1.toNat / 128
  channels : (h.channels : Nat) = csd1.toNat / 8 % 16

theorem configured_exists (csd0 csd1 : UInt8) (htype : csd0.toNat / 8 ≤ 4)
    (hchannels : csd1.toNat / 8 % 16 ≤ 7) :
    ∃ h, Configured csd0 csd1 h := by
  have h0 := csd0.toNat_lt
  have h1 := csd1.toNat_lt
  exact ⟨⟨⟨csd0.toNat / 8 - 1, by omega⟩, ⟨csd0.toNat % 8 * 2 + csd1.toNat / 128, by omega⟩,
    ⟨csd1.toNat / 8 % 16, by omega⟩⟩, rfl, rfl, rfl⟩

theorem shift_eq (b : UInt8) :
    b >>> 3 = UInt8.ofNat (b.toNat / 8) ∧ b >>> 7 = UInt8.ofNat (b.toNat / 128) := by
  have hall : ∀ x : Fin 256, UInt8.ofNat x >>> 3 = UInt8.ofNat (x / 8) ∧
      UInt8.ofNat x >>> 7 = UInt8.ofNat (x / 128) := by
    decide +kernel
  have hb := hall ⟨b.toNat, b.toNat_lt⟩
  rw [UInt8.ofNat_toNat] at hb
  exact hb

section
variable {csd0 csd1 : UInt8} {h : Adts.Header}

theorem profile_bits (hc : Configured csd0 csd1 h) (htype : 1 ≤ csd0.toNat / 8) :
    (csd0 >>> 3) - 1 = UInt8.ofNat h.profile := by
  have hall : ∀ x : Fin 32, 1 ≤ (x : Nat) → UInt8.ofNat x - 1 = UInt8.ofNat (x - 1) := by decide
  have hlt := csd0.toNat_lt
  rw [(shift_eq csd0).1, hc.profile]
  exact hall ⟨csd0.toNat / 8, by omega⟩ htype

theorem sampling_bits (hc : Configured csd0 csd1 h) :
    ((csd0 &&& 7) <<< 1) ||| (csd1 >>> 7) = UInt8.ofNat h.sampling := by
  have hall : ∀ x : Fin 8, ∀ y : Fin 2, (UInt8.ofNat x <<< 1) ||| UInt8.ofNat y
      = UInt8.ofNat (x * 2 + y) := by decide
  have hlt := csd1.toNat_lt
  have hand : csd0 &&& 7 = UInt8.ofNat (csd0.toNat % 8) := by
    apply UInt8.toNat_inj.mp
    rw [UInt8.toNat_and, UInt8.toNat_ofNat', Nat.mod_eq_of_lt (by omega)]
    exact Nat.and_two_pow_sub_one_eq_mod _ 3
  rw [hand, (shift_eq csd1).2, hc.sampling]
  exact hall ⟨csd0.toNat % 8, Nat.mod_lt _ (by decide)⟩ ⟨csd1.toNat / 128, by omega⟩

theorem channel_bits (hc : Configured csd0 csd1 h) :
    (csd1 >>> 3) &&& 0x0f = UInt8.ofNat h.channels := by
  have hall : ∀ x : Fin 32, UInt8.ofNat x &&& 0x0f = UInt8.ofNat (x % 16) := by decide
  have hlt := csd1.toNat_lt
  rw [(shift_eq csd1).1, hc.channels]
  exact hall ⟨csd1.toNat / 8, by omega⟩

/-- **The header of a frame** of less than 2¹³ bytes is the ADTS header of the configuration. -/
theorem adtsHeader_encode (hc : Configured csd0 csd1 h) (htype : 1 ≤ csd0.toNat / 8) {n : Nat}
    (hn : n < 8192) :
    adtsHeader csd0 csd1 n = h.encode n := by
  have hthird : ∀ (p : Fin 4) (s : Fin 16) (c : Fin 8),
      (UInt8.ofNat p <<< 6) ||| (UInt8.ofNat s <<< 2) ||| ((UInt8.ofNat c >>> 2) &&& 1)
        = UInt8.ofNat (64 * p + 4 * s + c / 4) := by decide
  have hfourth : ∀ (c : Fin 8) (k : Fin 4),
      ((UInt8.ofNat c &&& 3) <<< 6) ||| UInt8.ofNat k = UInt8.ofNat (64 * (c % 4) + k) := by decide
  have hsixth : ∀ k : Fin 8, UInt8.ofNat ((k : Nat) <<< 5) = UInt8.ofNat (32 * k) := by decide
  have hlow : n &&& 7 = n % 8 := Nat.and_two_pow_sub_one_eq_mod n 3
  unfold adtsHeader Adts.Header.encode
  dsimp only
  rw [profile_bits hc htype, sampling_bits hc, channel_bits hc, hthird, Nat.shiftRight_eq_div_pow,
    Nat.shiftRight_eq_div_pow, and_0xff, hlow, hsixth ⟨n % 8, Nat.mod_lt _ (by decide)⟩,
    hfourth h.channels ⟨n / 2 ^ 11, by omega⟩]

end

/-! ## one call -/

/-- an AAC frame in one piece whose length, with a header, has 13 bits, and that fills a transport
packet -/
structure AacPacket (pkt : AVPacket) : Prop where
  low : 155 ≤ pkt.size0 + pkt.size1
  high : pkt.size0 + pkt.size1 ≤ 8184
  adjacent : pkt.data1 = pkt.data0 + pkt.size0

section
variable (pcr : Int → Int) {csd0 csd1 : UInt8} {h : Adts.Header}

theorem pesPayload_pesPacket {ctx : AVFormatContext} {pkt : AVPacket} {t : CodecType}
    (payload : Bytes) :
    pesPayload (pesPacket ctx pkt t payload) = esHead ctx pkt t ++ payload := by
  have hlen : byteAt (pesPacket ctx pkt t payload) 8 = 5 := rfl
  unfold pesPayload
  rw [hlen, pesPacket, List.append_assoc]
  rfl

/-- **An audio call** is its frame behind the header of the configuration. -/
theorem aac_call (hc : Configured csd0 csd1 h) (htype : 1 ≤ csd0.toNat / 8) {ctx : AVFormatContext}
    {pid : Fin 8192} (hcsd : ctx.mTrackCSD .audio = [csd0, csd1])
    (hpid : ctx.mTrackPid .audio = pid) (hcounter : ctx.mTSContinuityCounter .audio ≤ 15) (m : Mem)
    {pkt : AVPacket} (hidx : pkt.stream_idx = 1) (hpkt : AacPacket pkt) :
    ∃ r, mpeg2tsWritePacket pcr ctx m pkt = some r ∧
      pesPayload (carriedPes r.1) = Adts.encodeFrame (h, pkt.payload m) := by
  have hlow := hpkt.low
  have hhigh := hpkt.high
  have hcontiguous : pkt.Contiguous := Or.inr hpkt.adjacent
  have htrack := codecType_audio.mpr hidx
  have hau : AccessUnit ctx pkt .audio [adtsHeader csd0 csd1 (streamSize ctx pkt .audio)] := by
    have hroom : (7 : Nat) ≤ 162 := by decide
    refine ⟨htrack, ?_, hroom, ?_⟩
    · unfold unitHeader
      rw [hcsd]
    · unfold AVPacket.Fits AVPacket.size
      omega
  have hsize : streamSize ctx pkt .audio = pkt.size0 + pkt.size1 + 7 := hau.streamSize
  have h162 : 162 ≤ streamSize ctx pkt .audio := by omega
  have hlen := pesPacket_length hau m
  have hpes : 176 ≤ (pesPacket ctx pkt .audio (pkt.payload m)).length := by omega
  have hpos : 0 < pkt.size := by
    unfold AVPacket.size
    omega
  obtain ⟨ws, hws, -, hbytes⟩ :=
    writeAccessUnit_bytes pcr hau m hpos (h162.trans_eq hau.streamSize) hcontiguous.disjoint
      ⟨fun _ => hcontiguous, fun _ _ => hcontiguous⟩
  have hstream :=
    unitBytes_packets pcr (fun _ => ⟨ctx.mTSContinuityCounter .audio, by omega⟩) hau hpid rfl m h162
      hpes
  rw [hstream] at hbytes
  have hcall : mpeg2tsWritePacket pcr ctx m pkt = writeAccessUnit pcr ctx m pkt := by
    unfold mpeg2tsWritePacket
    rw [if_neg (by rw [hidx]; decide), if_pos hidx]
  refine ⟨_, hcall.trans hws, ?_⟩
  dsimp only
  unfold carriedPes
  rw [hbytes, payloads_stream, payloads_pesPackets, pesPayload_pesPacket]
  unfold esHead Adts.encodeFrame
  rw [hcsd, pkt.payload_length]
  dsimp only
  rw [hsize, adtsHeader_encode hc htype (by omega)]

/-! ## a run -/

/-- the frames of the audio calls -/
def aacFrames (h : Adts.Header) (calls : List (Mem × AVPacket)) : List (Adts.Header × Bytes) :=
  (calls.filter fun c => c.2.stream_idx = 1).map fun c => (h, c.2.payload c.1)

/-- **The audio of a run**, whatever video packets stand between. -/
theorem audioStream_run (hc : Configured csd0 csd1 h) (htype : 1 ≤ csd0.toNat / 8)
    {ctx : AVFormatContext} {pid : Fin 8192} (hcsd : ctx.mTrackCSD .audio = [csd0, csd1])
    (hpid : ctx.mTrackPid .audio = pid) (hcounter : ∀ t, ctx.mTSContinuityCounter t ≤ 15)
    {calls : List (Mem × AVPacket)} (hcalls : ∀ c ∈ calls, c.2.stream_idx = 1 → AacPacket c.2)
    {r : List (List CacheWrite) × AVFormatContext} (hr : run pcr ctx calls = some r) :
    audioStream calls r.1 = (aacFrames h calls).flatMap Adts.encodeFrame := by
  induction calls generalizing ctx r with
  | nil =>
    cases hr
    rfl
  | cons c calls ih =>
    unfold run at hr
    cases hcall : mpeg2tsWritePacket pcr ctx c.1 c.2 with
    | none =>
      rw [hcall] at hr
      cases hr
    | some out =>
      rw [hcall] at hr
      obtain ⟨rest, hrest, rfl⟩ := Option.map_eq_some_iff.mp hr
      have hkept := call_kept pcr hcall
      have hnext :=
        ih ((congrFun hkept.csd _).trans hcsd) ((congrFun hkept.pid _).trans hpid)
          (hkept.counters hcounter)
        (fun d hd => hcalls d (List.mem_cons_of_mem c hd)) hrest
      unfold audioStream aacFrames at hnext ⊢
      rw [List.zip_cons_cons]
      by_cases hidx : c.2.stream_idx = 1
      · obtain ⟨r, hr, hbytes⟩ :=
          aac_call pcr hc htype hcsd hpid (hcounter _) c.1 hidx (hcalls c List.mem_cons_self hidx)
        obtain rfl := Option.some.inj (hcall.symm.trans hr)
        rw [List.filter_cons_of_pos (by simpa using hidx),
          List.filter_cons_of_pos (by simpa using hidx), List.flatMap_cons,
          List.map_cons, List.flatMap_cons, hnext]
        exact congrArg (· ++ _) hbytes
      · rw [List.filter_cons_of_neg (by simpa using hidx),
          List.filter_cons_of_neg (by simpa using hidx)]
        exact hnext

/-- a run of audio calls returns -/
theorem aac_returns (hc : Configured csd0 csd1 h) (htype : 1 ≤ csd0.toNat / 8)
    {ctx : AVFormatContext} {pid : Fin 8192} (hcsd : ctx.mTrackCSD .audio = [csd0, csd1])
    (hpid : ctx.mTrackPid .audio = pid) (hcounter : ∀ t, ctx.mTSContinuityCounter t ≤ 15)
    {calls : List (Mem × AVPacket)} (hcalls : ∀ c ∈ calls, c.2.stream_idx = 1 ∧ AacPacket c.2) :
    (run pcr ctx calls).isSome := by
  induction calls generalizing ctx with
  | nil => rfl
  | cons c calls ih =>
    obtain ⟨hidx, hpkt⟩ := hcalls c List.mem_cons_self
    obtain ⟨r, hr, -⟩ := aac_call pcr hc htype hcsd hpid (hcounter _) c.1 hidx hpkt
    have hkept := call_kept pcr hr
    have hnext :=
      ih ((congrFun hkept.csd _).trans hcsd) ((congrFun hkept.pid _).trans hpid)
        (hkept.counters hcounter)
      fun d hd => hcalls d (List.mem_cons_of_mem c hd)
    unfold run
    rw [hr]
    dsimp only
    rw [Option.isSome_map]
    exact hnext

/-- **Every AAC frame is found.**  In every session with the configuration `csd0`, `csd1`, of an
object type from 1 to 4 and a channel configuration up to 7, a run of audio packets of 155 to 8184
bytes returns.  From the elementary stream bytes of the audio access units of this or any other run
that returns, with whatever video packets between, a parser that goes by sync words and frame
lengths gets the frames of the audio packets, in order, each behind a header with the fields of the
configuration. -/
theorem aac_frames (channelCnt sampleRate : Int) (videoCSD : Bytes)
    (htype : 1 ≤ csd0.toNat / 8 ∧ csd0.toNat / 8 ≤ 4) (hchannels : csd1.toNat / 8 % 16 ≤ 7)
    {calls : List (Mem × AVPacket)} (hcalls : ∀ c ∈ calls, c.2.stream_idx = 1 → AacPacket c.2) :
    ((∀ c ∈ calls, c.2.stream_idx = 1) →
      (run pcr (session channelCnt sampleRate videoCSD [csd0, csd1]) calls).isSome) ∧
      ∃ h, Configured csd0 csd1 h ∧
        ∀ r, run pcr (session channelCnt sampleRate videoCSD [csd0, csd1]) calls = some r →
          Adts.frames (audioStream calls r.1)
            = some ((calls.filter fun c => c.2.stream_idx = 1).map fun c =>
              (h, c.2.payload c.1)) := by
  obtain ⟨h, hc⟩ := configured_exists csd0 csd1 htype.2 hchannels
  obtain ⟨hpid, -⟩ := session_tracks channelCnt sampleRate videoCSD [csd0, csd1]
  have hcsd : (session channelCnt sampleRate videoCSD [csd0, csd1]).mTrackCSD .audio
      = [csd0, csd1] := by
    unfold session mpeg2tsMuxerWriteHeader
    split <;> rfl
  have hcounter : ∀ t, (session channelCnt sampleRate videoCSD [csd0, csd1]).mTSContinuityCounter t
      ≤ 15 := by
    intro t
    unfold session mpeg2tsMuxerWriteHeader
    split <;> exact Nat.zero_le 15
  refine ⟨fun hall => ?_, h, hc, fun r hr => ?_⟩
  · exact aac_returns pcr hc htype.1 hcsd (hpid .audio) hcounter fun c hmem =>
      ⟨hall c hmem, hcalls c hmem (hall c hmem)⟩
  · rw [audioStream_run pcr hc htype.1 hcsd (hpid .audio) hcounter hcalls hr]
    apply Adts.frames_encode
    intro f hf
    obtain ⟨c, hmem, rfl⟩ := List.mem_map.mp hf
    obtain ⟨hcall, hidx⟩ := List.mem_filter.mp hmem
    have hhigh := (hcalls c hcall (of_decide_eq_true hidx)).high
    dsimp only
    rw [c.2.payload_length]
    omega

end

/-- two frames, each in two adjacent segments -/
def aacCalls : List (Mem × AVPacket) :=
  [(fun x => UInt8.ofInt x, ⟨0, 0, 100, 100, 55, 1, 0, 20⟩),
    (fun x => UInt8.ofInt (x + 1), ⟨21, 0, 150, 150, 250, 1, 0, 20⟩)]

theorem aacCalls_packets : ∀ c ∈ aacCalls, c.2.stream_idx = 1 ∧ AacPacket c.2 := by
  intro c hc
  rcases List.mem_cons.mp hc with rfl | hc
  · exact ⟨rfl, by decide, by decide, rfl⟩
  · rw [List.mem_singleton.mp hc]
    exact ⟨rfl, by decide, by decide, rfl⟩

theorem aac_frames_two :
    ∃ r h, run (· * 27000) (session 2 48000 [] [0x11, 0x90]) aacCalls = some r ∧
      Configured 0x11 0x90 h ∧
      Adts.frames (audioStream aacCalls r.1)
        = some ((aacCalls.filter fun c => c.2.stream_idx = 1).map fun c =>
          (h, c.2.payload c.1)) := by
  obtain ⟨hsome, h, hc, hframes⟩ := aac_frames (· * 27000) 2 48000 []
    (by decide : 1 ≤ (0x11 : UInt8).toNat / 8 ∧ (0x11 : UInt8).toNat / 8 ≤ 4)
    (by decide : (0x90 : UInt8).toNat / 8 % 16 ≤ 7) fun c hc _ => (aacCalls_packets c hc).2
  obtain ⟨r, hr⟩ := Option.isSome_iff_exists.mp (hsome fun c hc => (aacCalls_packets c hc).1)
  exact ⟨r, h, hr, hc, hframes r hr⟩

end Pluto.Ts

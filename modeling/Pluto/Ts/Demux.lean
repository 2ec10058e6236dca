import Pluto.Ts.Session

/-!
# What a receiver gets

The two laws of a run over packets that fill a transport packet: demultiplexing gives the PES
packets of each track (`demux_run`), and the counters of each PID are consecutive (`counters_run`).
-/

namespace Pluto.Ts
open Octets Transport

theorem pesPacketLength_lt (n : Nat) : pesPacketLength n < 65535 := by
  unfold pesPacketLength
  dsimp only
  split <;> omega

theorem ofBe_pair {n : Nat} (h : n < 65536) :
    ofBe [UInt8.ofNat (n >>> 8), UInt8.ofNat (n &&& 0xff)] = n := by
  have e : ofBe [UInt8.ofNat (n >>> 8), UInt8.ofNat (n &&& 0xff)]
      = (0 * 256 + (UInt8.ofNat (n >>> 8)).toNat) * 256 + (UInt8.ofNat (n &&& 0xff)).toNat := rfl
  rw [e, UInt8.toNat_ofNat', UInt8.toNat_ofNat', and_0xff, Nat.shiftRight_eq_div_pow]
  omega

/-- the `PES_packet_length` of an access unit -/
theorem pes_length_field {ctx : AVFormatContext} {pkt : AVPacket} {t : CodecType}
    (h : Offered ctx pkt t) (m : Mem) :
    ofBe (slice (pesPacket ctx pkt t (pkt.payload m)) 4 2)
      = if unitSize ctx pkt t + 8 ≥ 65535 then 0
        else ((pesPacket ctx pkt t (pkt.payload m)).drop 6).length := by
  obtain ⟨hs, hau, -⟩ := unit_of_csd h.track h.csd h.fits
  have hsz := streamSize_eq_unitSize h.track h.csd h.fits
  have hlen := pesPacket_length hau m
  have hroom := hau.room
  have hfit := h.fits
  have hsum := hau.streamSize
  unfold AVPacket.Fits at hfit
  have hfield : ofBe (slice (pesPacket ctx pkt t (pkt.payload m)) 4 2)
      = pesPacketLength (streamSize ctx pkt t) :=
    ofBe_pair (lt_trans (pesPacketLength_lt _) (by decide))
  rw [hfield, List.length_drop, hlen, hsz, pesPacketLength, Nat.mod_eq_of_lt (by omega)]
  split
  · rfl
  · omega

section
variable (pcr : Int → Int) {channelCnt sampleRate : Int} {videoCSD audioCSD : Bytes}

/-- **Demultiplexing a run gives the access units back.**  For each track the payloads of its PID,
joined from start indicator to start indicator, are the PES packets of its access units in the order
of the calls; a `PES_packet_length` is the number of bytes behind it, or `0` where that is too
large. -/
theorem demux_run (hc : channelCnt ≠ 0) (hs : sampleRate ≠ 0) (hv : videoCSD.length ≤ 156)
    (ha : 2 ≤ audioCSD.length) (calls : List (Mem × AVPacket))
    (hcalls : ∀ c ∈ calls, ∃ t, Muxable (session channelCnt sampleRate videoCSD audioCSD) c.2 t) :
    ∃ wss ctx', run pcr (session channelCnt sampleRate videoCSD audioCSD) calls = some (wss, ctx') ∧
      ∀ t, elementary (trackPid t) (emitted wss.flatten)
          = ([], (calls.filter fun c => codecType c.2.stream_idx = some t).map fun c =>
              pesPacket (session channelCnt sampleRate videoCSD audioCSD) c.2 t (c.2.payload c.1)) ∧
        ∀ c ∈ calls, codecType c.2.stream_idx = some t →
          ofBe (slice (pesPacket (session channelCnt sampleRate videoCSD audioCSD) c.2 t
              (c.2.payload c.1)) 4 2)
            = if unitSize (session channelCnt sampleRate videoCSD audioCSD) c.2 t + 8 ≥ 65535 then 0
              else ((pesPacket (session channelCnt sampleRate videoCSD audioCSD) c.2 t
                (c.2.payload c.1)).drop 6).length := by
  obtain ⟨wss, ctx', ps, hrun, hem, hrec⟩ := session_run pcr hc hs hv (fun _ => ha) hcalls
  refine ⟨wss, ctx', hrun, fun t => ⟨?_, fun c hmem hct => ?_⟩⟩
  · rw [hem.bytes]
    exact (hrec t).elementary _
  · obtain ⟨u, hu⟩ := hcalls c hmem
    obtain rfl : u = t := Option.some.inj (hu.track.symm.trans hct)
    exact pes_length_field (hu.offered (session_csd hc hs hv fun _ => ha)).1 c.1

/-- a key frame of 300 bytes in two adjacent segments, then an AAC frame of 200 bytes -/
def twoCalls : List (Mem × AVPacket) :=
  [(fun x => UInt8.ofInt x, ⟨0, 0, 100, 100, 200, 0, 1, 40⟩),
    (fun x => UInt8.ofInt (x + 1), ⟨5, 0, 200, 0, 0, 1, 0, 20⟩)]

theorem twoCalls_muxable :
    ∀ c ∈ twoCalls, ∃ t, Muxable (session 2 48000 [0, 0, 0, 1, 0x67, 1, 2, 3] [0x11, 0x90]) c.2
      t := by
  intro c hc
  rcases List.mem_cons.mp hc with rfl | hc
  · exact ⟨.video, rfl, by decide, by decide, by decide, Or.inr rfl⟩
  · rw [List.mem_singleton.mp hc]
    exact ⟨.audio, rfl, by decide, by decide, by decide, Or.inl rfl⟩

theorem demux_run_two :
    ∃ wss ctx', run (· * 27000) (session 2 48000 [0, 0, 0, 1, 0x67, 1, 2, 3] [0x11, 0x90]) twoCalls
        = some (wss, ctx') ∧
      (elementary 0x1E1 (emitted wss.flatten)).2.length = 1 ∧
      (elementary 0x1E2 (emitted wss.flatten)).2.length = 1 := by
  obtain ⟨wss, ctx', hrun, hall⟩ :=
    demux_run (· * 27000) (by decide) (by decide) (by decide) (by decide)
      twoCalls twoCalls_muxable
  have hv := (hall .video).1
  have ha := (hall .audio).1
  exact ⟨wss, ctx', hrun, congrArg (fun r => r.2.length) hv, congrArg (fun r => r.2.length) ha⟩

/-- **The continuity counters.**  In a run the counters of the packets of each PID are `0, 1, 2, …`
modulo 16, and the stored ones stay below 16; so a counter never reaches the bits above it, which
are an adaptation_field_control of `1` or `3`. -/
theorem counters_run (hc : channelCnt ≠ 0) (hs : sampleRate ≠ 0) (hv : videoCSD.length ≤ 156)
    (calls : List (Mem × AVPacket))
    (ha : (∃ c ∈ calls, codecType c.2.stream_idx = some .audio) → 2 ≤ audioCSD.length)
    (hcalls : ∀ c ∈ calls, ∃ t, Muxable (session channelCnt sampleRate videoCSD audioCSD) c.2 t) :
    ∃ wss ctx', run pcr (session channelCnt sampleRate videoCSD audioCSD) calls = some (wss, ctx') ∧
      (∀ pid : Fin 8192,
        ((cut (emitted wss.flatten)).filter fun b => pidOf b = pid).map counterOf
          = (List.range ((cut (emitted wss.flatten)).filter fun b => pidOf b = pid).length).map
              (· % 16)) ∧
      (ctx'.mPATContinuityCounter ≤ 15 ∧ ctx'.mPMTContinuityCounter ≤ 15 ∧
        ∀ t, ctx'.mTSContinuityCounter t ≤ 15) ∧
      ∀ b ∈ cut (emitted wss.flatten),
        byteAt b 3 = 16 * controlOf b + counterOf b ∧ (controlOf b = 1 ∨ controlOf b = 3) := by
  obtain ⟨wss, ctx', ps, hrun, hem, -⟩ := session_run pcr hc hs hv ha hcalls
  refine ⟨wss, ctx', hrun, fun pid => ?_, ⟨?_, ?_, fun t => ?_⟩, fun b hb => ?_⟩
  · rw [hem.bytes, counters_stream]
    apply List.map_congr_left
    intro i _
    show (0 + i) % 16 = i % 16
    rw [Nat.zero_add]
  · rw [hem.counts.pat]
    exact Nat.le_of_lt_succ (Fin.isLt _)
  · rw [hem.counts.pmt]
    exact Nat.le_of_lt_succ (Fin.isLt _)
  · rw [hem.counts.track]
    exact Nat.le_of_lt_succ (Fin.isLt _)
  · rw [hem.bytes] at hb
    exact control_stream hb

/-- the key frame takes two packets, of which the first follows on the tables -/
theorem counters_run_two :
    ∃ wss ctx', run (· * 27000) (session 2 48000 [0, 0, 0, 1, 0x67, 1, 2, 3] [0x11, 0x90]) twoCalls
        = some (wss, ctx') ∧
      ((cut (emitted wss.flatten)).filter fun b => pidOf b = trackPid .video).map counterOf
        = [0, 1] := by
  obtain ⟨wss, ctx', hrun, hcounters, -⟩ :=
    counters_run (· * 27000) (by decide) (by decide) (by decide)
      twoCalls (fun _ => by decide) twoCalls_muxable
  have hcount :
      ((run (· * 27000) (session 2 48000 [0, 0, 0, 1, 0x67, 1, 2, 3] [0x11, 0x90]) twoCalls).map
          fun r =>
      ((cut (emitted r.1.flatten)).filter fun b => pidOf b = trackPid .video).length) = some 2 := by
    decide +kernel
  rw [hrun] at hcount
  have hvideo := hcounters (trackPid .video)
  have hlen : ((cut (emitted wss.flatten)).filter fun b => pidOf b = trackPid .video).length = 2 :=
    Option.some.inj hcount
  refine ⟨wss, ctx', hrun, ?_⟩
  rw [hlen] at hvideo
  exact hvideo

end

end Pluto.Ts

import Pluto.Cache.Refine
import Pluto.Ts.AccessUnit

/-!
# The muxer writes transport packets

The source keeps its counters in three fields and a wrap in three spellings; `Counts ctx cc` says
that they are the counters `cc` of a transport stream.  Under it what the muxer emits is a `stream`
of packets, and the counters go on with it.

* `patPid`, `pmtPid`, `trackPid`  the four PIDs;
* `esHead`, `pesPacket`    the PES packet that carries an access unit;
* `carried_stream`, `unitBytes_packets`  the bytes of an access unit are its packets;
* `mpeg2tsWritePacket_stream`    one call.
-/

namespace Pluto.Ts
open Octets Transport

def patPid : Fin 8192 := 0

def pmtPid : Fin 8192 := 0x1E0

def trackPid : CodecType → Fin 8192
  | .video => 0x1E1
  | .audio => 0x1E2

/-- the fields of the context that the packets depend on are those of a stream with counters `cc` -/
structure Counts (ctx : AVFormatContext) (cc : Counters) : Prop where
  pat : ctx.mPATContinuityCounter = cc patPid
  pmt : ctx.mPMTContinuityCounter = cc pmtPid
  track : ∀ t, ctx.mTSContinuityCounter t = cc (trackPid t)
  pids : ∀ t, ctx.mTrackPid t = trackPid t
  tracks : ctx.mTrackCnt = 2

theorem nextCounter_val (c : Fin 16) : nextCounter c = (c + 1 : Fin 16) := by
  revert c
  decide

theorem trackPid_injective {t u : CodecType} (h : trackPid t = trackPid u) : t = u := by
  cases t <;> cases u <;> first | rfl | exact absurd h (by decide)

theorem trackPid_ne_pat (t : CodecType) : trackPid t ≠ patPid := by cases t <;> decide

theorem trackPid_ne_pmt (t : CodecType) : trackPid t ≠ pmtPid := by cases t <;> decide

theorem Counts.bump {ctx : AVFormatContext} {cc : Counters} (h : Counts ctx cc) {t : CodecType}
    {p : Packet} (hp : p.pid = trackPid t) : Counts (bump ctx t) (cc.advance p) := by
  unfold Counters.advance
  rw [hp]
  refine ⟨?_, ?_, fun u => ?_, h.pids, h.tracks⟩
  · rw [Function.update_of_ne (trackPid_ne_pat t).symm]
    exact h.pat
  · rw [Function.update_of_ne (trackPid_ne_pmt t).symm]
    exact h.pmt
  · by_cases hu : u = t
    · rw [hu, bump_counter, h.track t, nextCounter_val, Function.update_self]
    · have hpid : trackPid u ≠ trackPid t := fun e => hu (trackPid_injective e)
      rw [Function.update_of_ne hpid, ← h.track u]
      exact Function.update_of_ne hu _ _

theorem Counts.bumps {ctx : AVFormatContext} {cc : Counters} (h : Counts ctx cc) {t : CodecType}
    {ps : List Packet} (hps : ∀ p ∈ ps, p.pid = trackPid t) :
    Counts ((Ts.bump · t)^[ps.length] ctx) (cc.after ps) := by
  induction ps generalizing ctx cc with
  | nil => exact h
  | cons p ps ih =>
    exact ih (h.bump (hps p List.mem_cons_self)) fun q hq => hps q (List.mem_cons_of_mem p hq)

/-! ## headers -/

theorem or_0x30 (c : Fin 16) : (0x30 ||| (c : Nat)) = 16 * 3 + c := by
  revert c
  decide

theorem or_0x10 (c : Fin 16) : (0x10 ||| (c : Nat)) = 16 * 1 + c := by
  revert c
  decide

theorem or_0x40 (pid : Fin 8192) : (0x40 ||| (pid : Nat) >>> 8) = 0x40 + pid / 256 := by
  have h : ∀ x : Fin 32, (0x40 ||| (x : Nat)) = 0x40 + x := by decide
  have := pid.isLt
  rw [Nat.shiftRight_eq_div_pow]
  exact h ⟨pid / 256, by omega⟩

theorem and_0xff (n : Nat) : n &&& 0xff = n % 256 := Nat.and_two_pow_sub_one_eq_mod n 8

theorem fragmentPrefix_eq (pid : Fin 8192) (c : Fin 16) (n : Nat) :
    fragmentPrefix pid c n
      = [0x47, UInt8.ofNat (pid / 256), UInt8.ofNat (pid % 256),
          UInt8.ofNat (16 * (if n < 184 then 3 else 1) + c)]
        ++ adaptationField (if n < 184 then some (stuffing (184 - n)) else none) := by
  unfold fragmentPrefix
  rw [and_0xff, Nat.shiftRight_eq_div_pow]
  by_cases h : n < 184
  · rw [if_pos h, if_pos h, if_pos h, or_0x30]
  · rw [if_neg h, if_neg h, if_neg h, or_0x10]

/-- **The packets behind the first.** -/
theorem carried_stream (pid : Fin 8192) (cc : Counters) (body : Bytes) :
    carried pid (cc pid) body = stream cc (fragments pid body) := by
  induction body using fragments.induct generalizing cc with
  | case1 => rw [carried_nil, fragments_nil, stream_nil]
  | case2 body h0 hlt =>
    rw [carried_ne_nil _ _ h0, fragmentPrefix_eq, if_pos hlt, if_pos hlt,
      List.take_of_length_le (by omega), List.drop_eq_nil_of_le (by omega), carried_nil, fragments,
      dif_neg h0, dif_pos hlt, stream_cons,
      stream_nil, Packet.encode_continue rfl]
    rfl
  | case3 body h0 hlt ih =>
    rw [carried_ne_nil _ _ h0, fragmentPrefix_eq, if_neg hlt, if_neg hlt, nextCounter_val,
      fragments, dif_neg h0, dif_neg hlt, stream_cons, Packet.encode_continue rfl, ← ih]
    rw [Counters.advance, Function.update_self]
    rfl

/-! ## the first packet -/

/-- what stands between the PES header and the payload -/
def esHead (ctx : AVFormatContext) (pkt : AVPacket) : CodecType → Bytes
  | .video => nalAud ++ if pkt.flags ≠ 0 then ctx.mTrackCSD .video else []
  | .audio =>
    match ctx.mTrackCSD .audio with
    | csd0 :: csd1 :: _ => adtsHeader csd0 csd1 (streamSize ctx pkt .audio)
    | _ => []

/-- the PES packet of an access unit -/
def pesPacket (ctx : AVFormatContext) (pkt : AVPacket) (t : CodecType) (payload : Bytes) : Bytes :=
  pesHeader (streamId t) (pesPacketLength (streamSize ctx pkt t)) (ptsOf pkt.pts)
    ++ esHead ctx pkt t ++ payload

/-- the adaptation field of a first packet: flags and clock value -/
def clockField (PCR : Int) : Bytes := (firstHeader 0 0 0 PCR).drop 5

theorem clockField_length (PCR : Int) : (clockField PCR).length = 7 := rfl

theorem AccessUnit.esHead {ctx : AVFormatContext} {pkt : AVPacket} {t : CodecType} {hs : List Bytes}
    (h : AccessUnit ctx pkt t hs) : hs.flatten = esHead ctx pkt t := by
  have hh := h.header
  cases t with
  | video =>
    obtain rfl := Option.some.inj hh
    unfold Ts.esHead
    dsimp only
    split <;> simp
  | audio =>
    match hcsd : ctx.mTrackCSD .audio with
    | [] => rw [unitHeader, hcsd] at hh; cases hh
    | [_] => rw [unitHeader, hcsd] at hh; cases hh
    | _ :: _ :: _ =>
      rw [unitHeader, hcsd] at hh
      obtain rfl := Option.some.inj hh
      rw [Ts.esHead, hcsd]
      exact List.append_nil _

theorem firstHeader_eq (pid : Fin 8192) (c : Fin 16) (PCR : Int) :
    firstHeader pid c 0 PCR = [0x47, UInt8.ofNat (0x40 + pid / 256), UInt8.ofNat (pid % 256),
      UInt8.ofNat (16 * 3 + c)] ++ adaptationField (some (clockField PCR)) := by
  unfold firstHeader
  rw [or_0x40, or_0x30, and_0xff]
  rfl

theorem pesPacket_length {ctx : AVFormatContext} {pkt : AVPacket} {t : CodecType} {hs : List Bytes}
    (h : AccessUnit ctx pkt t hs) (m : Mem) :
    (pesPacket ctx pkt t (pkt.payload m)).length = 14 + streamSize ctx pkt t := by
  rw [pesPacket, ← h.esHead, List.length_append, List.length_append, AVPacket.payload_length,
    h.streamSize]
  show 14 + _ + _ = _
  unfold AVPacket.size
  omega

section
variable (pcr : Int → Int)

/-- **The bytes of an access unit are its packets**, on the PID and with the counters of its
track. -/
theorem unitBytes_packets {ctx : AVFormatContext} {pkt : AVPacket} {t : CodecType} {hs : List Bytes}
    (cc : Counters) {pid : Fin 8192} (h : AccessUnit ctx pkt t hs) (hpid : ctx.mTrackPid t = pid)
    (hcc : ctx.mTSContinuityCounter t = cc pid) (m : Mem) (h162 : 162 ≤ streamSize ctx pkt t)
    (hpes : 176 ≤ (pesPacket ctx pkt t (pkt.payload m)).length) :
    unitBytes pcr ctx pkt t hs (pkt.payload m)
      = stream cc (pesPackets pid (clockField (pcr pkt.pts)) (pesPacket ctx pkt t (pkt.payload m))
          (clockField_length _) hpes) := by
  have hroom := h.room
  have hfront : (pesHeader (streamId t) (pesPacketLength (streamSize ctx pkt t)) (ptsOf pkt.pts)
      ++ esHead ctx pkt t).length = 14 + hs.flatten.length := by
    rw [List.length_append, h.esHead]
    rfl
  have htake : (pesPacket ctx pkt t (pkt.payload m)).take 176
      = pesHeader (streamId t) (pesPacketLength (streamSize ctx pkt t)) (ptsOf pkt.pts)
        ++ esHead ctx pkt t ++ (pkt.payload m).take (162 - hs.flatten.length) := by
    rw [pesPacket, List.take_append, List.take_of_length_le (by omega), hfront]
    congr 2
    omega
  have hdrop : (pesPacket ctx pkt t (pkt.payload m)).drop 176
      = (pkt.payload m).drop (162 - hs.flatten.length) := by
    rw [pesPacket, List.drop_append, List.drop_eq_nil_of_le (by omega), hfront, List.nil_append]
    congr 1
    omega
  rw [stream_pesPackets, hdrop, htake, ← carried_stream, Function.update_self, ← nextCounter_val,
    unitBytes, unitPrefix, paddingSize_large h162, hpid, hcc, firstHeader_eq, h.esHead]
  simp only [List.replicate_zero, List.append_nil, List.append_assoc]

end

/-! ## tables -/

theorem packet_of_buffer (pid : Fin 8192) (c : Fin 16) {b : Bytes} (hlen : b.length = 188)
    (hhead : b.take 4 = [0x47, UInt8.ofNat (0x40 + pid / 256), UInt8.ofNat (pid % 256),
      UInt8.ofNat (16 * 1 + c)]) :
    ∃ p : Packet, p.pid = pid ∧ p.encode c = b := by
  refine ⟨{ start := true, pid := pid, adaptation := none, payload := b.drop 4
            fills := by rw [adaptationField, List.length_drop, hlen]; rfl }, rfl, ?_⟩
  rw [Packet.encode_start rfl]
  show [0x47, UInt8.ofNat (0x40 + pid / 256), UInt8.ofNat (pid % 256), UInt8.ofNat (16 * 1 + c)]
    ++ [] ++ b.drop 4 = b
  rw [← hhead, List.append_nil, List.take_append_drop]

/-- stores behind the header -/
def SameHead (b b' : Bytes) : Prop := b'.take 4 = b.take 4 ∧ b'.length = b.length

theorem SameHead.set {a b : Bytes} (h : SameHead a b) {i : Nat} (hi : 4 ≤ i) (x : UInt8) :
    SameHead a (b.set i x) :=
  ⟨(List.take_set_of_le hi).trans h.1, List.length_set.trans h.2⟩

theorem SameHead.memcpy {a b : Bytes} (h : SameHead a b) {off : Nat} (hoff : 4 ≤ off) {src : Bytes}
    (hfit : off + src.length ≤ a.length) : SameHead a (memcpy b off src) := by
  have hfit' : off + src.length ≤ b.length := h.2 ▸ hfit
  refine ⟨?_, (memcpy_length b off src hfit').trans h.2⟩
  rw [Pluto.memcpy, List.append_assoc,
    List.take_append_of_le_length (by rw [List.length_take]; omega),
    List.take_take, Nat.min_eq_left hoff, h.1]

theorem or_counter (c : Fin 16) : (0x10 : UInt8) ||| UInt8.ofNat c = UInt8.ofNat (16 * 1 + c) := by
  revert c
  decide

theorem pat_packet {ctx : AVFormatContext} {c : Fin 16} (h : ctx.mPATContinuityCounter = c) :
    ∃ p : Packet, p.pid = patPid ∧ p.encode c
      = orAt (memcpy freshBuf 0 kPATStartData) 3 (UInt8.ofNat ctx.mPATContinuityCounter) := by
  apply packet_of_buffer
  · exact List.length_set.trans rfl
  · rw [h]
    show [0x47, 0x40, 0x00, 0x10 ||| UInt8.ofNat c] = _
    rw [or_counter]
    rfl

theorem pmtBuf_head {ctx : AVFormatContext} (h : ctx.mTrackCnt = 1 ∨ ctx.mTrackCnt = 2) :
    SameHead (orAt (memcpy freshBuf 0 kPMTStartData) 3 (UInt8.ofNat ctx.mPMTContinuityCounter))
      (pmtBuf ctx) := by
  have hlen : (orAt (memcpy freshBuf 0 kPMTStartData) 3
      (UInt8.ofNat ctx.mPMTContinuityCounter)).length = 188 := List.length_set.trans rfl
  unfold pmtBuf
  rcases h with h | h
  all_goals
    rw [h]
    refine SameHead.memcpy (SameHead.memcpy ?_ (by decide) ?_) (by decide) ?_
    · refine SameHead.set (SameHead.set (SameHead.set (SameHead.set ?_ ?_ _) ?_ _) ?_ _) ?_ _
      · exact ⟨rfl, rfl⟩
      all_goals decide
  · rw [hlen]
    exact (by decide : 17 + 5 ≤ 188)
  · rw [hlen, be_length]
    decide
  · rw [hlen]
    exact (by decide : 17 + 10 ≤ 188)
  · rw [hlen, be_length]
    decide

theorem pmt_packet {ctx : AVFormatContext} {c : Fin 16} (h : ctx.mPMTContinuityCounter = c)
    (hn : ctx.mTrackCnt = 1 ∨ ctx.mTrackCnt = 2) :
    ∃ p : Packet, p.pid = pmtPid ∧ p.encode c = pmtBuf ctx := by
  obtain ⟨h1, h2⟩ := pmtBuf_head hn
  apply packet_of_buffer
  · rw [h2]
    exact List.length_set.trans rfl
  · rw [h1, h]
    show [0x47, 0x41, 0xe0, 0x10 ||| UInt8.ofNat c] = _
    rw [or_counter]
    rfl

end Pluto.Ts

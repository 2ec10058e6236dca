import Pluto.Ts.Demux
import Pluto.Ts.Crc

/-!
# The packets of a run

A run over packets that fill a transport packet is written down as one list of packets: in front of
each video unit the two tables, then the packets that carry the unit.

* `patPacket`, `pmtPacket`  the tables of a session with both tracks; they do not change during it;
* `unitPackets`, `callPackets`  the packets of an access unit, and of a call;
* `pmtPacket_encode`        the map table that is written is this packet, with its counter;
* `run_packets`             a run is the stream of the packets of its calls.
-/

namespace Pluto.Ts
open Octets Transport

/-! ## the tables -/

/-- a table that stands in one packet, behind a header of four bytes -/
def tablePacket (pid : Fin 8192) (b : Bytes) (h : b.length = 188) : Packet where
  start := true
  pid := pid
  adaptation := none
  payload := b.drop 4
  fills := by
    rw [adaptationField, List.length_drop, h]
    rfl

def patPacket : Packet := tablePacket patPid (memcpy freshBuf 0 kPATStartData) rfl

/-- the map table of two tracks -/
def pmtTable : Bytes := pmtBuf (session 1 1 [] [])

theorem pmtTable_length : pmtTable.length = 188 := pmtBuf_length _ (Or.inr rfl)

def pmtPacket : Packet := tablePacket pmtPid pmtTable pmtTable_length

/-- only the byte of the counter is another one -/
theorem tablePacket_encode {pid : Fin 8192} {b : Bytes} (h : b.length = 188) (c : Fin 16)
    (hhead : b.take 3 = [0x47, UInt8.ofNat (0x40 + pid / 256), UInt8.ofNat (pid % 256)]) :
    (tablePacket pid b h).encode c = b.set 3 (UInt8.ofNat (16 * 1 + c)) := by
  have hset : b.set 3 (UInt8.ofNat (16 * 1 + c))
      = b.take 3 ++ UInt8.ofNat (16 * 1 + c) :: b.drop 4 :=
    List.set_eq_take_append_cons_drop.trans (if_pos (by omega))
  rw [Packet.encode_start rfl, hset, hhead]
  rfl

theorem patPacket_encode {ctx : AVFormatContext} {cc : Counters} (h : Counts ctx cc) :
    orAt (memcpy freshBuf 0 kPATStartData) 3 (UInt8.ofNat ctx.mPATContinuityCounter)
      = patPacket.encode (cc patPid) := by
  have hcounter : orAt (memcpy freshBuf 0 kPATStartData) 3 (UInt8.ofNat ctx.mPATContinuityCounter)
      = (memcpy freshBuf 0 kPATStartData).set 3 (0x10 ||| UInt8.ofNat ctx.mPATContinuityCounter) :=
    rfl
  rw [hcounter, h.pat, or_counter]
  exact (tablePacket_encode rfl _ rfl).symm

/-! The byte of the counter is stored first.  No later store touches it, and the checksum does not
read it. -/

section
variable {b : Bytes} {x y : UInt8} {i : Nat}

theorem orAt_set (h : 3 ≠ i) : orAt (b.set 3 x) i y = (orAt b i y).set 3 x := by
  unfold orAt
  rw [List.getD_eq_getElem?_getD, List.getElem?_set_ne h, ← List.getD_eq_getElem?_getD,
    List.set_comm _ _ h]

theorem memcpy_set {off : Nat} (h : 3 < off) (hlen : 3 < b.length) (src : Bytes) :
    memcpy (b.set 3 x) off src = (memcpy b off src).set 3 x := by
  have h3 : 3 < (b.take off).length := by
    rw [List.length_take]
    omega
  unfold memcpy
  rw [List.append_assoc, List.append_assoc, List.set_append_left _ _ h3, List.take_set,
    List.drop_set_of_lt (by omega)]

theorem slice_set {p n : Nat} (h : 3 < p) : slice (b.set 3 x) p n = slice b p n := by
  unfold slice
  rw [List.drop_set_of_lt h]

/-- the stores of `write_program_map_table` behind the counter, in front of the checksum -/
def pmtFields (n : Nat) (entries buf : Bytes) : Bytes :=
  memcpy
    (orAt
      (orAt
        ((orAt buf 6 (UInt8.ofNat ((9 + 5 * n + 4) >>> 8))).set 7
          (UInt8.ofNat (9 + 5 * n + 4 &&& 0xff)))
        13 (UInt8.ofNat (kPcrPid >>> 8 &&& 0x1f)))
      14 (UInt8.ofNat (kPcrPid &&& 0xff)))
    kPMTStartData.length entries

theorem pmtFields_long (n : Nat) (entries : Bytes) (h : 3 < b.length) :
    3 < (pmtFields n entries b).length := by
  have h17 : kPMTStartData.length = 17 := rfl
  have horAt : ∀ (a : Bytes) i z, (orAt a i z).length = a.length := fun a i z => List.length_set
  unfold pmtFields memcpy
  simp only [List.length_append, List.length_take, horAt, List.length_set, h17]
  omega

theorem pmtFields_set (n : Nat) (entries : Bytes) (hlen : 3 < b.length) :
    pmtFields n entries (b.set 3 x) = (pmtFields n entries b).set 3 x := by
  have h17 : 3 < kPMTStartData.length := by decide
  have horAt : ∀ (a : Bytes) i z, (orAt a i z).length = a.length := fun a i z => List.length_set
  unfold pmtFields
  rw [orAt_set (by decide), List.set_comm _ _ (by decide), orAt_set (by decide),
    orAt_set (by decide), memcpy_set h17]
  rw [horAt, horAt, List.length_set, horAt]
  exact hlen

end

/-- the entries of the tracks that are counted -/
def pmtEntries (ctx : AVFormatContext) : Bytes :=
  ([CodecType.video, CodecType.audio].take ctx.mTrackCnt).flatMap (pmtEntry ctx)

theorem pmtBuf_fields (ctx : AVFormatContext) :
    pmtBuf ctx = memcpy (pmtFields ctx.mTrackCnt (pmtEntries ctx)
        ((memcpy freshBuf 0 kPMTStartData).set 3 (0x10 ||| UInt8.ofNat ctx.mPMTContinuityCounter)))
      (17 + 5 * ctx.mTrackCnt)
      (be 4 (crc32 ctx (slice (pmtFields ctx.mTrackCnt (pmtEntries ctx)
        ((memcpy freshBuf 0 kPMTStartData).set 3 (0x10 ||| UInt8.ofNat ctx.mPMTContinuityCounter)))
        5 (12 + 5 * ctx.mTrackCnt))).toNat) := rfl

/-- the map table does not depend on anything but the tracks and the counter -/
theorem pmtBuf_counter (ctx : AVFormatContext) {ctx' : AVFormatContext}
    (hcount : ctx'.mTrackCnt = ctx.mTrackCnt) (hpid : ctx'.mTrackPid = ctx.mTrackPid)
    (htable : ctx'.mCrcTable = ctx.mCrcTable) :
    pmtBuf ctx' = (pmtBuf ctx).set 3 (0x10 ||| UInt8.ofNat ctx'.mPMTContinuityCounter) := by
  have hlong : 3 < (memcpy freshBuf 0 kPMTStartData).length :=
    Nat.lt_of_lt_of_eq (by norm_num : 3 < 188) rfl
  have hfields := fun n es => pmtFields_long n es hlong
  have hentries : pmtEntries ctx' = pmtEntries ctx := by
    unfold pmtEntries
    rw [hcount]
    exact List.flatMap_congr fun t _ => by unfold pmtEntry; rw [hpid]
  have hcrc : crc32 ctx' = crc32 ctx := by
    unfold crc32
    rw [htable]
  rw [pmtBuf_fields, pmtBuf_fields, hcount, hentries, hcrc, pmtFields_set _ _ hlong,
    pmtFields_set _ _ hlong, slice_set (by decide), slice_set (by decide),
    memcpy_set (by omega) (hfields _ _), memcpy_set (by omega) (hfields _ _), List.set_set]

/-- **The map table that is written.** -/
theorem pmtPacket_encode {ctx : AVFormatContext} {cc : Counters} (h : Counts ctx cc)
    (htabled : Tabled ctx) :
    pmtBuf ctx = pmtPacket.encode (cc pmtPid) := by
  have hpid : ctx.mTrackPid = (session 1 1 [] []).mTrackPid := by
    funext t
    rw [h.pids]
    cases t <;> rfl
  have hhead : pmtTable.take 3
      = [0x47, UInt8.ofNat (0x40 + pmtPid / 256), UInt8.ofNat (pmtPid % 256)] := rfl
  rw [pmtPacket, tablePacket_encode pmtTable_length _ hhead,
    pmtBuf_counter (session 1 1 [] []) h.tracks hpid htabled, h.pmt, or_counter]
  rfl

/-! ## the packets of a call -/

section
variable (pcr : Int → Int)

/-- the packets that carry an access unit; one that does not fill a packet has none -/
def unitPackets (ctx : AVFormatContext) (m : Mem) (pkt : AVPacket) (t : CodecType) : List Packet :=
  if h : 176 ≤ (pesPacket ctx pkt t (pkt.payload m)).length then
    pesPackets (trackPid t) (clockField (pcr pkt.pts)) (pesPacket ctx pkt t (pkt.payload m))
      (clockField_length _) h
  else []

/-- the tables in front of a video unit -/
def tablePackets : CodecType → List Packet
  | .video => [patPacket, pmtPacket]
  | .audio => []

theorem tablePackets_pid {t : CodecType} {p : Packet} (hp : p ∈ tablePackets t) (u : CodecType) :
    p.pid ≠ trackPid u := by
  cases t with
  | video =>
    simp only [tablePackets, List.mem_cons, List.not_mem_nil, or_false] at hp
    rcases hp with rfl | rfl
    · exact (trackPid_ne_pat u).symm
    · exact (trackPid_ne_pmt u).symm
  | audio => cases hp

def callPackets (ctx : AVFormatContext) (c : Mem × AVPacket) : List Packet :=
  (codecType c.2.stream_idx).elim [] fun t => tablePackets t ++ unitPackets pcr ctx c.1 c.2 t

theorem callPackets_track {ctx : AVFormatContext} {c : Mem × AVPacket} {t : CodecType}
    (h : codecType c.2.stream_idx = some t) :
    callPackets pcr ctx c = tablePackets t ++ unitPackets pcr ctx c.1 c.2 t := by
  unfold callPackets
  rw [h]
  rfl

theorem callPackets_congr {ctx ctx' : AVFormatContext} (h : ctx'.mTrackCSD = ctx.mTrackCSD) :
    callPackets pcr ctx' = callPackets pcr ctx := by
  funext c
  unfold callPackets unitPackets
  simp only [pesPacket_congr h]

/-- the writes of the tables -/
theorem emits_tablePackets {ctx : AVFormatContext} {cc : Counters} (hcc : Counts ctx cc)
    (htabled : Tabled ctx) :
    Emits ctx (writeProgramMapTable (writeProgramAssociationTable ctx).2).2 cc
      ((writeProgramAssociationTable ctx).1
        ++ (writeProgramMapTable (writeProgramAssociationTable ctx).2).1)
      (tablePackets .video) := by
  have hpat := hcc.pat_next (p := patPacket) rfl
  have hpmt := hpat.pmt_next (p := pmtPacket) rfl
  have e1 : Emits ctx (writeProgramAssociationTable ctx).2 cc (writeProgramAssociationTable ctx).1
      [patPacket] :=
    emits_packet (patPacket_encode hcc).symm hpat rfl
  have e2 : Emits (writeProgramAssociationTable ctx).2
      (writeProgramMapTable (writeProgramAssociationTable ctx).2).2 (cc.advance patPacket)
      (writeProgramMapTable (writeProgramAssociationTable ctx).2).1 [pmtPacket] :=
    emits_packet (pmtPacket_encode hpat htabled).symm hpmt rfl
  exact e1.append e2

/-- **One call.** -/
theorem emits_callPackets {ctx : AVFormatContext} {cc : Counters} {c : Mem × AVPacket}
    {t : CodecType} (h : Offered ctx c.2 t) (hcc : Counts ctx cc) (htabled : Tabled ctx)
    (h162 : 162 ≤ streamSize ctx c.2 t) :
    ∃ ws ctx', mpeg2tsWritePacket pcr ctx c.1 c.2 = some (ws, ctx') ∧
      Emits ctx ctx' cc ws (callPackets pcr ctx c) := by
  rw [callPackets_track pcr h.track]
  unfold unitPackets
  cases t with
  | video =>
    have h0 := codecType_video.mp h.track
    have htab := emits_tablePackets hcc htabled
    obtain ⟨ws, ctx', hpes, hw, hem⟩ := emits_pesPackets pcr c.1 (h.congr htab.csd) htab.counts
      (by rw [streamSize_congr htab.csd]; exact h162)
    simp only [pesPacket_congr htab.csd] at hpes hem
    have hboth := htab.append hem
    rw [dif_pos hpes]
    exact ⟨_, ctx', mpeg2tsWritePacket_video pcr h0 hw, hboth⟩
  | audio =>
    have h1 := codecType_audio.mp h.track
    have h0 : c.2.stream_idx ≠ 0 := by omega
    obtain ⟨ws, ctx', hpes, hw, hem⟩ := emits_pesPackets pcr c.1 h hcc h162
    rw [dif_pos hpes]
    exact ⟨ws, ctx', by rw [mpeg2tsWritePacket, if_neg h0, if_pos h1, hw], hem⟩

/-! ## runs -/

/-- **A run is the stream of the packets of its calls.** -/
theorem run_packets {ctx : AVFormatContext} {cc : Counters} {calls : List (Mem × AVPacket)}
    (hcc : Counts ctx cc) (htabled : Tabled ctx)
    (hcalls : ∀ c ∈ calls, ∃ t, Offered ctx c.2 t ∧ 162 ≤ streamSize ctx c.2 t) :
    ∃ wss ctx', run pcr ctx calls = some (wss, ctx') ∧
      (∀ w ∈ wss.flatten, (w.bytes.length : Int) = w.size) ∧
      ∀ k, emitted (wss.take k).flatten
        = stream cc ((calls.take k).flatMap (callPackets pcr ctx)) := by
  induction calls generalizing ctx cc with
  | nil =>
    refine ⟨[], ctx, rfl, nofun, fun k => ?_⟩
    rw [List.take_nil, List.take_nil]
    rfl
  | cons c calls ih =>
    obtain ⟨t, ht, h162⟩ := hcalls c List.mem_cons_self
    obtain ⟨ws, ctx₁, hw, hem⟩ := emits_callPackets pcr ht hcc htabled h162
    obtain ⟨wss, ctx₂, hr, hsize, hrest⟩ :=
      ih hem.counts ((call_tabled pcr hw).trans htabled) fun d hd => by
        obtain ⟨u, hu, hu162⟩ := hcalls d (List.mem_cons_of_mem c hd)
        exact ⟨u, hu.congr hem.csd, by rwa [streamSize_congr hem.csd]⟩
    refine ⟨ws :: wss, ctx₂, ?_, ?_, fun k => ?_⟩
    · rw [run, hw]
      dsimp only
      rw [hr]
      rfl
    · rw [List.flatten_cons]
      exact List.forall_mem_append.mpr ⟨hem.exact_size, hsize⟩
    · cases k with
      | zero => rfl
      | succ k =>
        rw [List.take_succ_cons, List.take_succ_cons, List.flatten_cons, List.flatMap_cons,
          emitted_append, stream_append, hem.bytes, hrest, callPackets_congr pcr hem.csd]

/-- a session with both tracks -/
theorem session_packets {channelCnt sampleRate : Int} {videoCSD audioCSD : Bytes}
    (hc : channelCnt ≠ 0) (hs : sampleRate ≠ 0) (hv : videoCSD.length ≤ 156)
    (ha : 2 ≤ audioCSD.length) {calls : List (Mem × AVPacket)}
    (hcalls : ∀ c ∈ calls, ∃ t, Muxable (session channelCnt sampleRate videoCSD audioCSD) c.2 t) :
    ∃ wss ctx', run pcr (session channelCnt sampleRate videoCSD audioCSD) calls = some (wss, ctx') ∧
      (∀ w ∈ wss.flatten, (w.bytes.length : Int) = w.size) ∧
      ∀ k, emitted (wss.take k).flatten
        = stream (fun _ => 0)
          ((calls.take k).flatMap
            (callPackets pcr (session channelCnt sampleRate videoCSD audioCSD))) := by
  refine run_packets pcr (session_counts hc hs) ?_ fun c hmem => ?_
  · rw [session_both hc hs]
    rfl
  · obtain ⟨t, ht⟩ := hcalls c hmem
    exact ⟨t, ht.offered (session_csd hc hs hv fun _ => ha)⟩

end

end Pluto.Ts

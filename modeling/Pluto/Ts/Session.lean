import Pluto.Ts.Packets

/-!
# Runs of the transport stream muxer

A run of `mpeg2ts_write_packet` over packets that are large enough to fill a transport packet is a
transport stream: a receiver of a track gets its PES packets, and nothing else, in the order of the
calls (`demux_run`); the counters of each PID are consecutive (`counters_run`).

* `Offered`       what a packet must satisfy for its access unit to be written;
* `call_stream`   one call;
* `run_stream`    a run, by induction over its calls.
-/

namespace Pluto.Ts
open Octets Transport

/-! ## one call -/

/-- a packet of track `t` with its CSD, with a payload in one piece -/
structure Offered (ctx : AVFormatContext) (pkt : AVPacket) (t : CodecType) : Prop where
  track : codecType pkt.stream_idx = some t
  csd : CsdReady ctx t
  fits : pkt.Fits
  nonempty : 0 < pkt.size
  contiguous : pkt.Contiguous

theorem Counts.pat_next {ctx : AVFormatContext} {cc : Counters} (h : Counts ctx cc) {p : Packet}
    (hp : p.pid = patPid) : Counts (writeProgramAssociationTable ctx).2 (cc.advance p) := by
  unfold Counters.advance
  rw [hp]
  refine ⟨?_, ?_, fun t => ?_, h.pids, h.tracks⟩
  · rw [Function.update_self, ← nextCounter_val, ← h.pat]
    show (if ctx.mPATContinuityCounter + 1 ≥ 0x10 then 0 else _) = nextCounter _
    unfold nextCounter
    split <;> split <;> omega
  · rw [Function.update_of_ne (by decide)]
    exact h.pmt
  · rw [Function.update_of_ne (trackPid_ne_pat t)]
    exact h.track t

theorem Counts.pmt_next {ctx : AVFormatContext} {cc : Counters} (h : Counts ctx cc) {p : Packet}
    (hp : p.pid = pmtPid) : Counts (writeProgramMapTable ctx).2 (cc.advance p) := by
  unfold Counters.advance
  rw [hp]
  refine ⟨?_, ?_, fun t => ?_, h.pids, h.tracks⟩
  · rw [Function.update_of_ne (by decide)]
    exact h.pat
  · rw [Function.update_self, ← nextCounter_val, ← h.pmt]
    show (if ctx.mPMTContinuityCounter + 1 ≥ 0x10 then 0 else _) = nextCounter _
    unfold nextCounter
    split <;> split <;> omega
  · rw [Function.update_of_ne (trackPid_ne_pmt t)]
    exact h.track t

theorem streamSize_congr {ctx ctx' : AVFormatContext} (h : ctx'.mTrackCSD = ctx.mTrackCSD)
    (pkt : AVPacket) (t : CodecType) : streamSize ctx' pkt t = streamSize ctx pkt t := by
  cases t with
  | video => unfold streamSize; rw [h]
  | audio => rfl

theorem pesPacket_congr {ctx ctx' : AVFormatContext} (h : ctx'.mTrackCSD = ctx.mTrackCSD)
    (pkt : AVPacket) (t : CodecType) (payload : Bytes) :
    pesPacket ctx' pkt t payload = pesPacket ctx pkt t payload := by
  unfold pesPacket
  rw [streamSize_congr h]
  cases t with
  | video => unfold Ts.esHead; rw [h]
  | audio => unfold Ts.esHead; rw [h, streamSize_congr h]

theorem csdReady_congr {ctx ctx' : AVFormatContext} (h : ctx'.mTrackCSD = ctx.mTrackCSD)
    (t : CodecType) :
    CsdReady ctx' t ↔ CsdReady ctx t := by
  constructor
  · intro hr
    exact ⟨by rw [← h]; exact hr.video, fun ht => by rw [← h]; exact hr.audio ht⟩
  · intro hr
    exact ⟨by rw [h]; exact hr.video, fun ht => by rw [h]; exact hr.audio ht⟩

theorem Offered.congr {ctx ctx' : AVFormatContext} {pkt : AVPacket} {t : CodecType}
    (h : Offered ctx pkt t) (hcsd : ctx'.mTrackCSD = ctx.mTrackCSD) : Offered ctx' pkt t :=
  ⟨h.track, (csdReady_congr hcsd t).mpr h.csd, h.fits, h.nonempty, h.contiguous⟩

theorem bumps_csd (t : CodecType) (n : Nat) (ctx : AVFormatContext) :
    ((bump · t)^[n] ctx).mTrackCSD = ctx.mTrackCSD := by
  induction n generalizing ctx with
  | zero => rfl
  | succ n ih => exact ih (bump ctx t)

/-- what a receiver of track `u` has got from packets: these units, all of them complete -/
def Receives (ps : List Packet) (u : CodecType) (us : List Bytes) : Prop :=
  ∀ rest, (units rest).1 = [] →
    units ((ps.filter fun p => p.pid = trackPid u).map (fun p => (p.start, p.payload)) ++ rest)
      = ([], us ++ (units rest).2)

theorem receives_append {ps qs : List Packet} {u : CodecType} {us vs : List Bytes}
    (hp : Receives ps u us) (hq : Receives qs u vs) : Receives (ps ++ qs) u (us ++ vs) := by
  intro rest hrest
  have h2 := hq rest hrest
  rw [List.filter_append, List.map_append, List.append_assoc, hp _ (by rw [h2]), h2,
    List.append_assoc]

theorem receives_none {ps : List Packet} {u : CodecType} (h : ∀ p ∈ ps, p.pid ≠ trackPid u) :
    Receives ps u [] := by
  intro rest hrest
  have hnil : (ps.filter fun p => p.pid = trackPid u) = [] :=
    List.filter_eq_nil_iff.mpr fun p hp => by simpa using h p hp
  rw [hnil, List.map_nil, List.nil_append, List.nil_append]
  exact Prod.ext hrest rfl

theorem receives_pesPackets (t u : CodecType) (clock pes : Bytes) (hclock : clock.length = 7)
    (h : 176 ≤ pes.length) :
    Receives (pesPackets (trackPid t) clock pes hclock h) u (if u = t then [pes] else []) := by
  by_cases hu : u = t
  · rw [if_pos hu]
    intro rest hrest
    have hall : ((pesPackets (trackPid t) clock pes hclock h).filter fun p => p.pid = trackPid u)
        = pesPackets (trackPid t) clock pes hclock h :=
      List.filter_eq_self.mpr fun p hp => by simpa [hu] using pesPackets_pid hp
    rw [hall, units_pesPackets hclock h rest hrest]
    rfl
  · rw [if_neg hu]
    refine receives_none fun p hp hpid => hu ?_
    rw [pesPackets_pid hp] at hpid
    exact (trackPid_injective hpid).symm

section
variable (pcr : Int → Int)

/-- the writes of a step and the packets they are -/
structure Emits (ctx ctx' : AVFormatContext) (cc : Counters) (ws : List CacheWrite)
    (ps : List Packet) :
    Prop where
  exact_size : ∀ w ∈ ws, (w.bytes.length : Int) = w.size
  bytes : emitted ws = stream cc ps
  counts : Counts ctx' (cc.after ps)
  csd : ctx'.mTrackCSD = ctx.mTrackCSD

theorem Emits.append {ctx ctx₁ ctx₂ : AVFormatContext} {cc : Counters} {ws vs : List CacheWrite}
    {ps qs : List Packet} (h : Emits ctx ctx₁ cc ws ps) (h' : Emits ctx₁ ctx₂ (cc.after ps) vs qs) :
    Emits ctx ctx₂ cc (ws ++ vs) (ps ++ qs) := by
  refine ⟨List.forall_mem_append.mpr ⟨h.exact_size, h'.exact_size⟩, ?_, ?_, h'.csd.trans h.csd⟩
  · rw [emitted_append, stream_append, h.bytes, h'.bytes]
  · rw [Counters.after, List.foldl_append]
    exact h'.counts

/-- a packet that is written from a buffer as a whole -/
theorem buffer_packet {p : Packet} {c : Fin 16} {b : Bytes} (hb : p.encode c = b) :
    (∀ w ∈ [CacheWrite.mk (.buffer b) tsPackageSz], (w.bytes.length : Int) = w.size) ∧
      emitted [CacheWrite.mk (.buffer b) tsPackageSz] = p.encode c := by
  have hlen : b.length = 188 := by rw [← hb, Packet.encode_length]
  have hbytes : (CacheWrite.mk (.buffer b) tsPackageSz).bytes = b := List.take_of_length_le hlen.le
  refine ⟨fun w hw => ?_, ?_⟩
  · rw [List.mem_singleton.mp hw, hbytes, hlen]
    rfl
  · rw [emitted_cons, hbytes, hb]
    exact List.append_nil b

theorem emits_packet {ctx ctx' : AVFormatContext} {cc : Counters} {p : Packet} {b : Bytes}
    (hb : p.encode (cc p.pid) = b) (hcc : Counts ctx' (cc.advance p))
    (hcsd : ctx'.mTrackCSD = ctx.mTrackCSD) : Emits ctx ctx' cc [⟨.buffer b, tsPackageSz⟩] [p] := by
  obtain ⟨hexact, hem⟩ := buffer_packet hb
  exact ⟨hexact, hem.trans (List.append_nil _).symm, hcc, hcsd⟩

theorem emits_tables {ctx : AVFormatContext} {cc : Counters} (hcc : Counts ctx cc) :
    ∃ ps, (∀ p ∈ ps, ∀ u, p.pid ≠ trackPid u) ∧
      Emits ctx (writeProgramMapTable (writeProgramAssociationTable ctx).2).2 cc
        ((writeProgramAssociationTable ctx).1
          ++ (writeProgramMapTable (writeProgramAssociationTable ctx).2).1) ps := by
  obtain ⟨p, hp, hpb⟩ := pat_packet hcc.pat
  have h1 := hcc.pat_next hp
  obtain ⟨q, hq, hqb⟩ := pmt_packet h1.pmt (Or.inr h1.tracks)
  have h2 := h1.pmt_next hq
  have e1 : Emits ctx (writeProgramAssociationTable ctx).2 cc (writeProgramAssociationTable ctx).1
      [p] :=
    emits_packet (by rw [hp]; exact hpb) h1 rfl
  have e2 : Emits (writeProgramAssociationTable ctx).2
      (writeProgramMapTable (writeProgramAssociationTable ctx).2).2 (cc.advance p)
      (writeProgramMapTable (writeProgramAssociationTable ctx).2).1 [q] :=
    emits_packet (by rw [hq]; exact hqb) h2 rfl
  refine ⟨[p, q], ?_, e1.append e2⟩
  intro r hr u
  rcases List.mem_cons.mp hr with rfl | hr
  · rw [hp]
    exact (trackPid_ne_pat u).symm
  · rw [List.mem_singleton.mp hr, hq]
    exact (trackPid_ne_pmt u).symm

/-- **The writes of an access unit** are the packets that carry its PES packet, on whatever PID its
track has. -/
theorem writeAccessUnit_packets {ctx : AVFormatContext} {pkt : AVPacket} {t : CodecType}
    {pid : Fin 8192} (cc : Counters) (m : Mem) (h : Offered ctx pkt t)
    (hpid : ctx.mTrackPid t = pid) (hcc : ctx.mTSContinuityCounter t = cc pid)
    (h162 : 162 ≤ streamSize ctx pkt t) :
    ∃ ws, ∃ hpes : 176 ≤ (pesPacket ctx pkt t (pkt.payload m)).length,
      writeAccessUnit pcr ctx m pkt
        = some (ws, (bump · t)^[(pesPackets pid (clockField (pcr pkt.pts))
        (pesPacket ctx pkt t (pkt.payload m)) (clockField_length _) hpes).length] ctx) ∧
      (∀ w ∈ ws, (w.bytes.length : Int) = w.size) ∧
      emitted ws = stream cc (pesPackets pid (clockField (pcr pkt.pts))
        (pesPacket ctx pkt t (pkt.payload m)) (clockField_length _) hpes) := by
  obtain ⟨hs, hau, -⟩ := unit_of_csd h.track h.csd h.fits
  have hsz := hau.streamSize
  have hlen := pesPacket_length hau m
  have hpes : 176 ≤ (pesPacket ctx pkt t (pkt.payload m)).length := by omega
  obtain ⟨ws, hw, hin, hem⟩ := writeAccessUnit_bytes pcr hau m h.nonempty (by omega)
    h.contiguous.disjoint ⟨fun _ => h.contiguous, fun _ _ => h.contiguous⟩
  rw [unitBytes_packets pcr cc hau hpid hcc m h162 hpes] at hem
  have hcount : rounds (pkt.size - (162 - hs.flatten.length)) + 1
      = (pesPackets pid (clockField (pcr pkt.pts)) (pesPacket ctx pkt t (pkt.payload m))
          (clockField_length _) hpes).length := by
    have hroom := hau.room
    rw [pesPackets, List.length_cons, fragments_length, List.length_drop, hlen, rounds]
    omega
  rw [hcount] at hw
  exact ⟨ws, hpes, hw, fun w hmem => (hin w hmem).1, hem⟩

theorem emits_pesPackets {ctx : AVFormatContext} {cc : Counters} {pkt : AVPacket} {t : CodecType}
    (m : Mem) (h : Offered ctx pkt t) (hcc : Counts ctx cc) (h162 : 162 ≤ streamSize ctx pkt t) :
    ∃ ws ctx', ∃ hpes : 176 ≤ (pesPacket ctx pkt t (pkt.payload m)).length,
      writeAccessUnit pcr ctx m pkt = some (ws, ctx') ∧
        Emits ctx ctx' cc ws (pesPackets (trackPid t) (clockField (pcr pkt.pts))
          (pesPacket ctx pkt t (pkt.payload m)) (clockField_length _) hpes) := by
  obtain ⟨ws, hpes, hw, hexact, hem⟩ :=
    writeAccessUnit_packets pcr cc m h (hcc.pids t) (hcc.track t) h162
  exact ⟨ws, _, hpes, hw, hexact, hem, hcc.bumps fun p hp => pesPackets_pid hp, bumps_csd t _ ctx⟩

theorem emits_unit {ctx : AVFormatContext} {cc : Counters} {pkt : AVPacket} {t : CodecType}
    (m : Mem) (h : Offered ctx pkt t) (hcc : Counts ctx cc) (h162 : 162 ≤ streamSize ctx pkt t) :
    ∃ ws ctx' ps, writeAccessUnit pcr ctx m pkt = some (ws, ctx') ∧ Emits ctx ctx' cc ws ps ∧
      ∀ u, Receives ps u (if u = t then [pesPacket ctx pkt t (pkt.payload m)] else []) := by
  obtain ⟨ws, ctx', hpes, hw, hem⟩ := emits_pesPackets pcr m h hcc h162
  exact ⟨ws, ctx', _, hw, hem, fun u => receives_pesPackets t u _ _ _ hpes⟩

theorem mpeg2tsWritePacket_video {ctx ctx' : AVFormatContext} {m : Mem} {pkt : AVPacket}
    {ws : List CacheWrite} (h0 : pkt.stream_idx = 0)
    (hw : writeAccessUnit pcr (writeProgramMapTable (writeProgramAssociationTable ctx).2).2 m pkt
      = some (ws, ctx')) :
    mpeg2tsWritePacket pcr ctx m pkt
      = some ((writeProgramAssociationTable ctx).1
          ++ (writeProgramMapTable (writeProgramAssociationTable ctx).2).1 ++ ws, ctx') := by
  rw [mpeg2tsWritePacket, if_pos h0]
  dsimp only
  rw [hw]
  rfl

/-- **One call.** -/
theorem call_stream {ctx : AVFormatContext} {cc : Counters} {pkt : AVPacket} {t : CodecType}
    (m : Mem) (h : Offered ctx pkt t) (hcc : Counts ctx cc) (h162 : 162 ≤ streamSize ctx pkt t) :
    ∃ ws ctx' ps, mpeg2tsWritePacket pcr ctx m pkt = some (ws, ctx') ∧ Emits ctx ctx' cc ws ps ∧
      ∀ u, Receives ps u (if u = t then [pesPacket ctx pkt t (pkt.payload m)] else []) := by
  cases t with
  | video =>
    have h0 := codecType_video.mp h.track
    obtain ⟨ps, hps, htab⟩ := emits_tables hcc
    obtain ⟨ws, ctx', qs, hw, hem, hrec⟩ := emits_unit pcr m (h.congr htab.csd) htab.counts
      (by rw [streamSize_congr htab.csd]; exact h162)
    refine ⟨_, ctx', ps ++ qs, mpeg2tsWritePacket_video pcr h0 hw, htab.append hem, fun u => ?_⟩
    rw [← pesPacket_congr htab.csd]
    exact receives_append (receives_none fun p hp => hps p hp u) (hrec u)
  | audio =>
    have h1 := codecType_audio.mp h.track
    have h0 : pkt.stream_idx ≠ 0 := by omega
    obtain ⟨ws, ctx', qs, hw, hem, hrec⟩ := emits_unit pcr m h hcc h162
    exact ⟨ws, ctx', qs, by rw [mpeg2tsWritePacket, if_neg h0, if_pos h1, hw], hem, hrec⟩

/-! ## runs -/

/-- `stream_size`: the access unit delimiter and the CSD of a key frame, or the ADTS header, and the
payload -/
def unitSize (ctx : AVFormatContext) (pkt : AVPacket) (t : CodecType) : Nat :=
  pkt.size + headSize ctx pkt t

/-- a packet whose access unit fills a transport packet -/
structure Muxable (ctx : AVFormatContext) (pkt : AVPacket) (t : CodecType) : Prop where
  track : codecType pkt.stream_idx = some t
  fits : pkt.Fits
  first : 1 ≤ pkt.size0
  large : 162 ≤ unitSize ctx pkt t
  contiguous : pkt.Contiguous

/-- the access units of a track, in the order of the calls -/
def trackUnits (ctx : AVFormatContext) (calls : List (Mem × AVPacket)) (t : CodecType) :
    List Bytes :=
  (calls.filter fun c => codecType c.2.stream_idx = some t).map fun c =>
    pesPacket ctx c.2 t (c.2.payload c.1)

theorem streamSize_eq_unitSize {ctx : AVFormatContext} {pkt : AVPacket} {t : CodecType}
    (hty : codecType pkt.stream_idx = some t) (hcsd : CsdReady ctx t) (hfit : pkt.Fits) :
    streamSize ctx pkt t = unitSize ctx pkt t := by
  obtain ⟨hs, hau, hlen⟩ := unit_of_csd hty hcsd hfit
  rw [hau.streamSize, hlen]
  rfl

theorem trackUnits_cons (ctx : AVFormatContext) (c : Mem × AVPacket) (calls : List (Mem × AVPacket))
    {t : CodecType} (hc : codecType c.2.stream_idx = some t) (u : CodecType) :
    trackUnits ctx (c :: calls) u
      = (if u = t then [pesPacket ctx c.2 t (c.2.payload c.1)] else [])
        ++ trackUnits ctx calls u := by
  unfold trackUnits
  by_cases hu : u = t
  · rw [if_pos hu, List.filter_cons_of_pos (by simpa [hu] using hc), List.map_cons, hu]
    rfl
  · rw [if_neg hu, List.filter_cons_of_neg (by simpa [hc] using Ne.symm hu), List.nil_append]

/-- **A run.** -/
theorem run_stream {ctx : AVFormatContext} {cc : Counters} {calls : List (Mem × AVPacket)}
    (hcc : Counts ctx cc)
    (hcalls : ∀ c ∈ calls, ∃ t, Offered ctx c.2 t ∧ 162 ≤ streamSize ctx c.2 t) :
    ∃ wss ctx' ps, run pcr ctx calls = some (wss, ctx') ∧ Emits ctx ctx' cc wss.flatten ps ∧
      ∀ u, Receives ps u (trackUnits ctx calls u) := by
  induction calls generalizing ctx cc with
  | nil => exact ⟨[], ctx, [], rfl, ⟨nofun, rfl, hcc, rfl⟩, fun u => receives_none nofun⟩
  | cons c calls ih =>
    obtain ⟨t, ht, h162⟩ := hcalls c List.mem_cons_self
    obtain ⟨ws, ctx₁, ps, hw, hem, hrec⟩ := call_stream pcr c.1 ht hcc h162
    obtain ⟨wss, ctx₂, qs, hr, hem', hrec'⟩ := ih hem.counts fun d hd => by
      obtain ⟨u, hu, hu162⟩ := hcalls d (List.mem_cons_of_mem c hd)
      exact ⟨u, hu.congr hem.csd, by rwa [streamSize_congr hem.csd]⟩
    refine ⟨ws :: wss, ctx₂, ps ++ qs, ?_, hem.append hem', fun u => ?_⟩
    · rw [run, hw]
      dsimp only
      rw [hr]
      rfl
    · have hsame : trackUnits ctx₁ calls u = trackUnits ctx calls u :=
        List.map_congr_left fun d _ => pesPacket_congr hem.csd _ _ _
      rw [trackUnits_cons ctx c calls ht.track u, ← hsame]
      exact receives_append (hrec u) (hrec' u)

theorem Receives.elementary {ps : List Packet} {t : CodecType} {us : List Bytes}
    (h : Receives ps t us) (cc : Counters) : elementary (trackPid t) (stream cc ps) = ([], us) := by
  have := h [] rfl
  rw [List.append_nil] at this
  rw [elementary_stream, this]
  show ([], us ++ []) = _
  rw [List.append_nil]

section
variable {channelCnt sampleRate : Int} {videoCSD audioCSD : Bytes}

theorem session_both (hc : channelCnt ≠ 0) (hs : sampleRate ≠ 0) :
    session channelCnt sampleRate videoCSD audioCSD
      = initCrcTable { mpeg2tsMuxerWriteCSD (mpeg2tsMuxerWriteCSD
            (setTrackInfo mpeg2tsMuxerOpen channelCnt sampleRate) videoCSD .video) audioCSD
              .audio with
          mTrackCnt := 2
          mTrackPid := fun t => match t with
            | .video => 0x1E1
            | .audio => 0x1E2 } := if_pos ⟨hs, hc⟩

theorem session_counts (hc : channelCnt ≠ 0) (hs : sampleRate ≠ 0) :
    Counts (session channelCnt sampleRate videoCSD audioCSD) (fun _ => 0) := by
  rw [session_both hc hs]
  refine ⟨rfl, rfl, fun t => rfl, fun t => ?_, rfl⟩
  cases t <;> rfl

theorem session_csd (hc : channelCnt ≠ 0) (hs : sampleRate ≠ 0) (hv : videoCSD.length ≤ 156)
    {t : CodecType} (ha : t = .audio → 2 ≤ audioCSD.length) :
    CsdReady (session channelCnt sampleRate videoCSD audioCSD) t := by
  rw [session_both hc hs]
  exact ⟨hv, ha⟩

theorem Muxable.offered {ctx : AVFormatContext} {pkt : AVPacket} {t : CodecType}
    (h : Muxable ctx pkt t) (hcsd : CsdReady ctx t) :
    Offered ctx pkt t ∧ 162 ≤ streamSize ctx pkt t := by
  have hfirst := h.first
  refine ⟨⟨h.track, hcsd, h.fits, ?_, h.contiguous⟩, ?_⟩
  · unfold AVPacket.size
    omega
  · rw [streamSize_eq_unitSize h.track hcsd h.fits]
    exact h.large

/-- the audio CSD is needed where there is an audio packet -/
theorem session_run (hc : channelCnt ≠ 0) (hs : sampleRate ≠ 0) (hv : videoCSD.length ≤ 156)
    {calls : List (Mem × AVPacket)}
    (ha : (∃ c ∈ calls, codecType c.2.stream_idx = some .audio) → 2 ≤ audioCSD.length)
    (hcalls : ∀ c ∈ calls, ∃ t, Muxable (session channelCnt sampleRate videoCSD audioCSD) c.2 t) :
    ∃ wss ctx' ps, run pcr (session channelCnt sampleRate videoCSD audioCSD) calls
      = some (wss, ctx') ∧
      Emits (session channelCnt sampleRate videoCSD audioCSD) ctx' (fun _ => 0) wss.flatten ps ∧
      ∀ u, Receives ps u (trackUnits (session channelCnt sampleRate videoCSD audioCSD) calls u) :=
  run_stream pcr (session_counts hc hs) fun c hmem => by
    obtain ⟨t, ht⟩ := hcalls c hmem
    exact ⟨t, ht.offered (session_csd hc hs hv fun haudio => ha ⟨c, hmem, haudio ▸ ht.track⟩)⟩

end

end

end Pluto.Ts

import Pluto.Ts.Pids

/-!
# Small access units

An access unit that does not fill its first packet is to be padded there by the adaptation field.
The code takes the whole room of the packet, `162`, as the padding, not what the unit leaves free:
the header is then 188 bytes long and a negative length goes to `cache_write`.

* `Headed`              what the header of any session leaves, with or without audio;
* `call_wellFormed`     one call whose access unit fills its first packet;
* `well_formed_iff`     a run is well formed exactly when it has no other access unit.
-/

namespace Pluto.Ts
open Octets Transport

/-- the writes of one call are whole packets that carry the access unit -/
structure WellFormed (ctx : AVFormatContext) (c : Mem × AVPacket) (t : CodecType)
    (ws : List CacheWrite) :
    Prop where
  nonneg : ∀ w ∈ ws, 0 ≤ w.size
  total : ((emitted ws).length : Int) = (ws.map CacheWrite.size).sum
  packets : 188 ∣ (emitted ws).length
  sync : ∀ b ∈ cut (emitted ws), b.head? = some 0x47
  carries : elementary (ctx.mTrackPid t) (emitted ws)
    = ([], [pesPacket ctx c.2 t (c.2.payload c.1)])

theorem emitted_total {ws : List CacheWrite} (h : ∀ w ∈ ws, (w.bytes.length : Int) = w.size) :
    ((emitted ws).length : Int) = (ws.map CacheWrite.size).sum := by
  induction ws with
  | nil => rfl
  | cons w ws ih =>
    rw [emitted_cons, List.length_append, Nat.cast_add, h w List.mem_cons_self,
      ih fun v hv => h v (List.mem_cons_of_mem w hv)]
    rfl

/-- writes that are packets of a stream, with one PES packet on the PID of the track -/
theorem wellFormed_of_stream {ctx : AVFormatContext} {cc : Counters} {ws : List CacheWrite}
    {ps : List Packet} {c : Mem × AVPacket} {t : CodecType} {pid : Fin 8192}
    (hpid : ctx.mTrackPid t = pid) (hexact : ∀ w ∈ ws, (w.bytes.length : Int) = w.size)
    (hem : emitted ws = stream cc ps)
    (hunits : units ((ps.filter fun p => p.pid = pid).map fun p => (p.start, p.payload))
      = ([], [pesPacket ctx c.2 t (c.2.payload c.1)])) : WellFormed ctx c t ws := by
  refine ⟨fun w hw => ?_, emitted_total hexact, ?_, fun b hb => ?_, ?_⟩
  · rw [← hexact w hw]
    exact Int.natCast_nonneg _
  · rw [hem, stream_length]
    exact Nat.dvd_mul_right 188 _
  · rw [hem] at hb
    exact sync_stream hb
  · rw [hem, hpid, elementary_stream, hunits]

/-- a packet that asks for less than nothing from the payload writes a negative length -/
theorem write_negative {m : Mem} {pkt : AVPacket} {room left ptr l p : Int} {ws : List CacheWrite}
    (hroom : room < 0) (h : writeAvTsPacket m pkt room left ptr = some (ws, l, p)) :
    ∃ w ∈ ws, w.size < 0 := by
  unfold writeAvTsPacket at h
  dsimp only at h
  generalize (if pkt.data0 ≤ ptr ∧ ptr < pkt.data0 + (pkt.size0 : Int) then
    toInt32 (pkt.data0 + pkt.size0 - ptr) else toInt32 (pkt.data1 + pkt.size1 - ptr)) = cur at h
  split at h
  · split at h
    · cases h
      exact ⟨_, List.mem_cons_self, hroom⟩
    · next hcur =>
      split at h
      · cases h
        exact ⟨_, List.mem_cons_self, lt_trans (not_le.mp hcur) hroom⟩
      · cases h
  · cases h

theorem unitSize_congr {ctx ctx' : AVFormatContext} (h : ctx'.mTrackCSD = ctx.mTrackCSD)
    (pkt : AVPacket) (t : CodecType) : unitSize ctx' pkt t = unitSize ctx pkt t := by
  cases t with
  | video => unfold unitSize headSize; rw [h]
  | audio => rfl

section
variable (pcr : Int → Int)

theorem writeAccessUnit_noCsd {ctx : AVFormatContext} {pkt : AVPacket} {t : CodecType} {m : Mem}
    (hty : codecType pkt.stream_idx = some t) (h : unitHeader ctx pkt t = none) :
    writeAccessUnit pcr ctx m pkt = none := by
  have hunit : unitHeader { ctx with
      mTSContinuityCounter := Function.update ctx.mTSContinuityCounter t
        (if ctx.mTSContinuityCounter t + 1 ≥ 0x10 then 0 else ctx.mTSContinuityCounter t + 1) } pkt
          t
      = none := by
    rw [← h]
    cases t <;> rfl
  unfold writeAccessUnit
  rw [hty]
  dsimp only
  rw [hunit]

theorem large_of_unit {ctx ctx' : AVFormatContext} {pkt : AVPacket} {t : CodecType} {m : Mem}
    {ws : List CacheWrite} (hty : codecType pkt.stream_idx = some t) (hfit : pkt.Fits)
    (hv : (ctx.mTrackCSD .video).length ≤ 156)
    (hw : writeAccessUnit pcr ctx m pkt = some (ws, ctx')) (hnn : ∀ w ∈ ws, 0 ≤ w.size) :
    CsdReady ctx t ∧ 162 ≤ unitSize ctx pkt t := by
  have hcsd : CsdReady ctx t := by
    refine ⟨hv, fun ht => ?_⟩
    by_contra hlen
    have hnone : unitHeader ctx pkt t = none := by
      rw [ht, unitHeader]
      rcases hcase : ctx.mTrackCSD .audio with _ | ⟨csd0, _ | ⟨csd1, rest⟩⟩
      · rfl
      · rfl
      · rw [hcase] at hlen
        exact absurd (by simp) hlen
    rw [writeAccessUnit_noCsd pcr hty hnone] at hw
    cases hw
  obtain ⟨hs, hau, hlen⟩ := unit_of_csd hty hcsd hfit
  refine ⟨hcsd, ?_⟩
  by_contra hsmall
  have hpos : 0 < headSize ctx pkt t := by
    cases t with
    | video =>
      unfold headSize
      dsimp only
      split <;> omega
    | audio => exact Nat.succ_pos 6
  have hsum : pkt.size + hs.flatten.length < 162 := by
    rw [hlen]
    exact not_le.mp hsmall
  rw [writeAccessUnit_eq pcr hau m, paddingSize_small hsum] at hw
  split at hw
  · cases hw
  · next ws₁ left ptr hw₁ =>
    obtain ⟨r, -, he⟩ := Option.map_eq_some_iff.mp hw
    cases he
    obtain ⟨w, hmem, hneg⟩ := write_negative (by omega) hw₁
    have := hnn w (List.mem_append_left _ (List.mem_append_right _ hmem))
    omega

theorem large_of_call {ctx ctx' : AVFormatContext} {pkt : AVPacket} {t : CodecType} {m : Mem}
    {ws : List CacheWrite} (hty : codecType pkt.stream_idx = some t) (hfit : pkt.Fits)
    (hv : (ctx.mTrackCSD .video).length ≤ 156)
    (hw : mpeg2tsWritePacket pcr ctx m pkt = some (ws, ctx')) (hnn : ∀ w ∈ ws, 0 ≤ w.size) :
    CsdReady ctx t ∧ 162 ≤ unitSize ctx pkt t := by
  unfold mpeg2tsWritePacket at hw
  split at hw
  · dsimp only at hw
    obtain ⟨r, hr, he⟩ := Option.map_eq_some_iff.mp hw
    cases he
    have hcsd : (writeProgramMapTable (writeProgramAssociationTable ctx).2).2.mTrackCSD
        = ctx.mTrackCSD := rfl
    rw [← csdReady_congr hcsd, ← unitSize_congr hcsd]
    exact large_of_unit pcr hty hfit (by rw [hcsd]; exact hv) hr fun w hmem =>
      hnn w (List.mem_append_right _ hmem)
  · split at hw
    · exact large_of_unit pcr hty hfit hv hw hnn
    · next h0 h1 =>
      cases t with
      | video => exact absurd (codecType_video.mp hty) h0
      | audio => exact absurd (codecType_audio.mp hty) h1

/-- every call of the run is well formed -/
def WellFormedRun (ctx : AVFormatContext) (calls : List (Mem × AVPacket)) : Prop :=
  ∃ wss ctx', run pcr ctx calls = some (wss, ctx') ∧
    List.Forall₂ (fun c ws => ∀ t, codecType c.2.stream_idx = some t → WellFormed ctx c t ws) calls
      wss

/-- the calls of a run keep what a well-formed call is said in terms of -/
theorem wellFormed_congr {ctx ctx' : AVFormatContext} (h : Kept ctx ctx') (c : Mem × AVPacket)
    (t : CodecType) (ws : List CacheWrite) : WellFormed ctx' c t ws ↔ WellFormed ctx c t ws := by
  have hpes := pesPacket_congr h.csd c.2 t (c.2.payload c.1)
  have hpid := congrFun h.pid t
  constructor
  · intro hw
    exact ⟨hw.nonneg, hw.total, hw.packets, hw.sync, by rw [← hpid, ← hpes]; exact hw.carries⟩
  · intro hw
    exact ⟨hw.nonneg, hw.total, hw.packets, hw.sync, by rw [hpid, hpes]; exact hw.carries⟩

/-- packets with a payload in one piece -/
structure InOnePiece (pkt : AVPacket) : Prop where
  track : ∃ t, codecType pkt.stream_idx = some t
  fits : pkt.Fits
  nonempty : 0 < pkt.size
  contiguous : pkt.Contiguous

theorem large_congr {ctx ctx' : AVFormatContext} (h : ctx'.mTrackCSD = ctx.mTrackCSD)
    (pkt : AVPacket) (t : CodecType) :
    (CsdReady ctx' t ∧ 162 ≤ unitSize ctx' pkt t) ↔
      (CsdReady ctx t ∧ 162 ≤ unitSize ctx pkt t) := by
  rw [unitSize_congr h, csdReady_congr h]

/-! ## behind any header -/

/-- The header has given the tracks their PIDs, of which that of audio may be `0`, and counted them;
and the counters fit into their four bits. -/
structure Headed (pid : CodecType → Fin 8192) (ctx : AVFormatContext) : Prop where
  pids : ∀ t, ctx.mTrackPid t = pid t
  video : pid .video = trackPid .video
  tracks : ctx.mTrackCnt = 1 ∨ ctx.mTrackCnt = 2
  pat : ctx.mPATContinuityCounter < 16
  pmt : ctx.mPMTContinuityCounter < 16
  track : ∀ t, ctx.mTSContinuityCounter t < 16

section
variable {ctx : AVFormatContext} {pid : CodecType → Fin 8192}

theorem Headed.tables (h : Headed pid ctx) :
    Headed pid (writeProgramMapTable (writeProgramAssociationTable ctx).2).2 := by
  have hwrap : ∀ n : Nat, (if n + 1 ≥ 0x10 then 0 else n + 1) < 16 := by
    intro n
    split <;> omega
  exact ⟨h.pids, h.video, h.tracks, hwrap _, hwrap _, h.track⟩

theorem Headed.call (h : Headed pid ctx) {m : Mem} {pkt : AVPacket}
    {r : List CacheWrite × AVFormatContext} (hr : mpeg2tsWritePacket pcr ctx m pkt = some r) :
    Headed pid r.2 := by
  refine call_preserves (P := fun ctx ctx' => Headed pid ctx → Headed pid ctx') (fun _ => id)
    (fun h h' hctx => h' (h hctx)) ?_ (fun _ => Headed.tables) pcr hr h
  intro ctx t n hn hctx
  have := hctx.track t
  refine ⟨hctx.pids, hctx.video, hctx.tracks, hctx.pat, hctx.pmt, fun u => ?_⟩
  dsimp only
  rw [Function.update_apply]
  split
  · omega
  · exact hctx.track u

/-- the packets on a PID that carry a PES packet give this one -/
theorem units_own {pid : Fin 8192} {ps : List Packet} (hps : ∀ p ∈ ps, p.pid ≠ pid)
    {clock pes : Bytes} (hclock : clock.length = 7) (hpes : 176 ≤ pes.length) :
    units (((ps ++ pesPackets pid clock pes hclock hpes).filter fun p => p.pid = pid).map
      fun p => (p.start, p.payload)) = ([], [pes]) := by
  have hnone : (ps.filter fun p => p.pid = pid) = [] :=
    List.filter_eq_nil_iff.mpr fun p hp => by simpa using hps p hp
  have hall : ((pesPackets pid clock pes hclock hpes).filter fun p => p.pid = pid)
      = pesPackets pid clock pes hclock hpes :=
    List.filter_eq_self.mpr fun p hp => by simpa using pesPackets_pid hp
  rw [List.filter_append, hnone, hall, List.nil_append, ← List.append_nil (List.map _ _),
    units_pesPackets hclock hpes [] rfl]
  rfl

/-- counters that are those of the context on the PIDs of a video call -/
theorem Headed.counters (h : Headed pid ctx) :
    ∃ cc : Counters, ctx.mPATContinuityCounter = cc patPid ∧
    ctx.mPMTContinuityCounter = cc pmtPid ∧
    ctx.mTSContinuityCounter .video = cc (trackPid .video) := by
  refine ⟨Function.update (Function.update (fun _ => ⟨_, h.track .video⟩) pmtPid ⟨_, h.pmt⟩) patPid
    ⟨_, h.pat⟩, ?_, ?_, ?_⟩
  · rw [Function.update_self]
  · rw [Function.update_of_ne (by decide), Function.update_self]
  · rw [Function.update_of_ne (by decide), Function.update_of_ne (by decide)]

/-- the tables in front of a video unit -/
theorem Headed.emits_tables (h : Headed pid ctx) : ∃ (cc : Counters) (ps : List Packet),
    (∀ p ∈ ps, p.pid ≠ trackPid .video) ∧
      ctx.mTSContinuityCounter .video = cc.after ps (trackPid .video) ∧
      (∀ w ∈ (writeProgramAssociationTable ctx).1 ++ (writeProgramMapTable
        (writeProgramAssociationTable ctx).2).1,
        (w.bytes.length : Int) = w.size) ∧
      emitted ((writeProgramAssociationTable ctx).1
        ++ (writeProgramMapTable (writeProgramAssociationTable ctx).2).1)
        = stream cc ps := by
  obtain ⟨cc, hpat, hpmt, hvideo⟩ := h.counters
  obtain ⟨p, hp, hpb⟩ := pat_packet hpat
  obtain ⟨q, hq, hqb⟩ :=
    pmt_packet (show (writeProgramAssociationTable ctx).2.mPMTContinuityCounter = _ from hpmt)
      h.tracks
  obtain ⟨hpexact, hpem⟩ := buffer_packet hpb
  obtain ⟨hqexact, hqem⟩ := buffer_packet hqb
  refine ⟨cc, [p, q], fun r hr => ?_, ?_, List.forall_mem_append.mpr ⟨hpexact, hqexact⟩, ?_⟩
  · rcases List.mem_cons.mp hr with rfl | hr
    · rw [hp]
      decide
    · rw [List.mem_singleton.mp hr, hq]
      decide
  · have hafter : cc.after [p, q] = (cc.advance p).advance q := rfl
    rw [hafter, Counters.advance, Counters.advance, hp, hq, Function.update_of_ne (by decide),
      Function.update_of_ne (by decide), hvideo]
  · have hnext : (cc.advance p) q.pid = cc pmtPid := by
      rw [Counters.advance, hp, hq, Function.update_of_ne (by decide)]
    rw [emitted_append, stream_cons, stream_cons, stream_nil, List.append_nil, hp, hnext]
    exact congrArg₂ (· ++ ·) hpem hqem

/-- **One call**, with whatever tracks the header has counted. -/
theorem call_wellFormed (h : Headed pid ctx) {c : Mem × AVPacket} {t : CodecType}
    (hoff : Offered ctx c.2 t) (h162 : 162 ≤ streamSize ctx c.2 t) :
    ∃ ws ctx', mpeg2tsWritePacket pcr ctx c.1 c.2 = some (ws, ctx') ∧ WellFormed ctx c t ws := by
  cases t with
  | video =>
    have h0 := codecType_video.mp hoff.track
    have hpid : ctx.mTrackPid .video = trackPid .video :=
      (h.pids .video).trans (congrArg Fin.val h.video)
    have hcsd : (writeProgramMapTable (writeProgramAssociationTable ctx).2).2.mTrackCSD
        = ctx.mTrackCSD := rfl
    obtain ⟨cc, ps, hps, hnext, htables, htab⟩ := h.emits_tables
    obtain ⟨ws, hpes, hw, hexact, hem⟩ := writeAccessUnit_packets pcr (cc.after ps) c.1
      (hoff.congr hcsd) hpid hnext (by rw [streamSize_congr hcsd]; exact h162)
    simp only [pesPacket_congr hcsd] at hem hpes
    have hcall := List.forall_mem_append.mpr ⟨htables, hexact⟩
    have hbytes := emitted_append ((writeProgramAssociationTable ctx).1
      ++ (writeProgramMapTable (writeProgramAssociationTable ctx).2).1) ws
    rw [htab, hem, ← stream_append] at hbytes
    exact ⟨_, _, mpeg2tsWritePacket_video pcr h0 hw,
      wellFormed_of_stream hpid hcall hbytes (units_own hps (clockField_length _) hpes)⟩
  | audio =>
    have h1 := codecType_audio.mp hoff.track
    have h0 : c.2.stream_idx ≠ 0 := by omega
    obtain ⟨ws, hpes, hw, hexact, hem⟩ := writeAccessUnit_packets pcr
      (fun _ => ⟨ctx.mTSContinuityCounter .audio, h.track .audio⟩) c.1 hoff (h.pids .audio) rfl h162
    have hcall : mpeg2tsWritePacket pcr ctx c.1 c.2 = writeAccessUnit pcr ctx c.1 c.2 := by
      rw [mpeg2tsWritePacket, if_neg h0, if_pos h1]
    have hnone : ∀ p ∈ ([] : List Packet), p.pid ≠ pid .audio :=
      fun p hp => absurd hp List.not_mem_nil
    exact ⟨ws, _, hcall.trans hw, wellFormed_of_stream (h.pids .audio) hexact hem
      (units_own hnone (clockField_length _) hpes)⟩

theorem wellFormedRun_iff (h : Headed pid ctx) (hv : (ctx.mTrackCSD .video).length ≤ 156)
    (calls : List (Mem × AVPacket)) (hcalls : ∀ c ∈ calls, InOnePiece c.2) :
    WellFormedRun pcr ctx calls ↔ ∀ c ∈ calls, ∀ t, codecType c.2.stream_idx = some t →
      CsdReady ctx t ∧ 162 ≤ unitSize ctx c.2 t := by
  induction calls generalizing ctx with
  | nil => exact ⟨fun _ => nofun, fun _ => ⟨[], ctx, rfl, .nil⟩⟩
  | cons c calls ih =>
    have hone := hcalls c List.mem_cons_self
    have hrest : ∀ d ∈ calls, InOnePiece d.2 := fun d hd => hcalls d (List.mem_cons_of_mem c hd)
    obtain ⟨t, hty⟩ := hone.track
    have hwas : ∀ u, codecType c.2.stream_idx = some u → u = t := fun u hu =>
      Option.some.inj (hu.symm.trans hty)
    constructor
    · rintro ⟨wss, ctx', hrun, hall⟩
      cases hall with
      | cons hws hwss =>
        next ws wss =>
        unfold run at hrun
        split at hrun
        · cases hrun
        · next vs ctx₁ hcall =>
          obtain ⟨r, hr, he⟩ := Option.map_eq_some_iff.mp hrun
          cases he
          have hkept := call_kept pcr hcall
          have hlarge := large_of_call pcr hty hone.fits hv hcall (hws t hty).nonneg
          have htail := (ih (h.call pcr hcall) (by rw [hkept.csd]; exact hv) hrest).mp
            ⟨r.1, r.2, hr, hwss.imp fun d vs h u hu => (wellFormed_congr hkept d u vs).mpr (h u hu)⟩
          intro d hd u hu
          rcases List.mem_cons.mp hd with rfl | hd
          · rw [hwas u hu]
            exact hlarge
          · exact (large_congr hkept.csd d.2 u).mp (htail d hd u hu)
    · intro hlarge
      obtain ⟨hcsd, h162⟩ := hlarge c List.mem_cons_self t hty
      obtain ⟨ws, ctx₁, hcall, hwf⟩ := call_wellFormed pcr h
        ⟨hty, hcsd, hone.fits, hone.nonempty, hone.contiguous⟩
        (by rw [streamSize_eq_unitSize hty hcsd hone.fits]; exact h162)
      have hkept := call_kept pcr hcall
      obtain ⟨wss, ctx', hr, hall⟩ :=
        (ih (h.call pcr hcall) (by rw [hkept.csd]; exact hv) hrest).mpr
          fun d hd u hu => (large_congr hkept.csd d.2 u).mpr
            (hlarge d (List.mem_cons_of_mem c hd) u hu)
      refine ⟨ws :: wss, ctx', ?_, .cons (fun u hu => ?_) (hall.imp fun d vs h u hu =>
        (wellFormed_congr hkept d u vs).mp (h u hu))⟩
      · unfold run
        rw [hcall]
        dsimp only
        rw [hr]
        rfl
      · rw [hwas u hu]
        exact hwf

end

section
variable (channelCnt sampleRate : Int) (videoCSD audioCSD : Bytes)

theorem session_headed :
    Headed (headerPid (sampleRate ≠ 0 ∧ channelCnt ≠ 0))
      (session channelCnt sampleRate videoCSD audioCSD) := by
  obtain ⟨hpid, hcount⟩ := session_tracks channelCnt sampleRate videoCSD audioCSD
  have hzero : (session channelCnt sampleRate videoCSD audioCSD).mPATContinuityCounter = 0 ∧
      (session channelCnt sampleRate videoCSD audioCSD).mPMTContinuityCounter = 0 ∧
      ∀ t, (session channelCnt sampleRate videoCSD audioCSD).mTSContinuityCounter t = 0 := by
    unfold session mpeg2tsMuxerWriteHeader
    split <;> exact ⟨rfl, rfl, fun _ => rfl⟩
  obtain ⟨hpat, hpmt, htrack⟩ := hzero
  refine ⟨hpid, rfl, ?_, by rw [hpat]; decide, by rw [hpmt]; decide,
    fun t => by rw [htrack]; decide⟩
  rw [hcount]
  split
  · exact Or.inr rfl
  · exact Or.inl rfl

variable {videoCSD audioCSD} in
/-- **Runs with small access units are the ill-formed ones.**  In a run of any session, with audio
parameters or without, over packets with their payload in one piece, all lengths are non-negative
and every call writes whole packets that carry its access unit, if and only if every access unit has
at least 162 bytes, and the audio ones have the CSD that their ADTS header is made from. -/
theorem well_formed_iff (hv : videoCSD.length ≤ 156) (calls : List (Mem × AVPacket))
    (hcalls : ∀ c ∈ calls, InOnePiece c.2) :
    WellFormedRun pcr (session channelCnt sampleRate videoCSD audioCSD) calls ↔
      ∀ c ∈ calls, ∀ t, codecType c.2.stream_idx = some t →
        162 ≤ unitSize (session channelCnt sampleRate videoCSD audioCSD) c.2 t ∧
          (t = .audio → 2 ≤ audioCSD.length) := by
  obtain ⟨hvideo, haudio⟩ := session_csds channelCnt sampleRate videoCSD audioCSD
  rw [wellFormedRun_iff pcr (session_headed channelCnt sampleRate videoCSD audioCSD)
    (by rw [hvideo]; exact hv) calls
    hcalls]
  constructor
  · intro h c hmem t ht
    obtain ⟨hcsd, hlarge⟩ := h c hmem t ht
    exact ⟨hlarge, fun e => by rw [← haudio]; exact hcsd.audio e⟩
  · intro h c hmem t ht
    obtain ⟨hlarge, ha⟩ := h c hmem t ht
    exact ⟨⟨by rw [hvideo]; exact hv, fun e => by rw [haudio]; exact ha e⟩, hlarge⟩

end

end

/-- an AAC frame of `n` bytes at address `0` -/
def aacFrame (n : Nat) : Mem × AVPacket := (fun x => UInt8.ofInt x, ⟨0, 0, n, n, 0, 1, 0, 20⟩)

theorem aacFrame_inOnePiece {n : Nat} (h0 : 0 < n) (h : n < 2 ^ 31) : InOnePiece (aacFrame n).2 :=
  ⟨⟨.audio, rfl⟩, h, h0, Or.inl rfl⟩

theorem well_formed_iff_large :
    WellFormedRun (· * 27000) (session 2 48000 [] [0x11, 0x90]) [aacFrame 155] := by
  refine (well_formed_iff (· * 27000) 2 48000 (by decide) [aacFrame 155] ?_).mpr ?_
  · intro c hc
    rw [List.mem_singleton.mp hc]
    exact aacFrame_inOnePiece (by decide) (by decide)
  · intro c hc t ht
    rw [List.mem_singleton.mp hc] at ht ⊢
    obtain rfl : CodecType.audio = t := Option.some.inj ht
    exact ⟨by decide, fun _ => by decide⟩

/-- an AAC frame of 100 bytes: 107 with its ADTS header -/
theorem small_frame_ill_formed :
    ¬ WellFormedRun (· * 27000) (session 2 48000 [] [0x11, 0x90]) [aacFrame 100] := by
  intro h
  have hall := (wellFormedRun_iff (· * 27000) (session_headed 2 48000 [] [0x11, 0x90]) (by decide)
    [aacFrame 100] fun c hc => by
      rw [List.mem_singleton.mp hc]
      exact aacFrame_inOnePiece (by decide) (by decide)).mp h
  exact absurd (hall _ List.mem_cons_self .audio rfl).2 (by decide)

end Pluto.Ts

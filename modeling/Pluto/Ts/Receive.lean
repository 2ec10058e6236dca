import Pluto.Bytes.ProgramTables
import Pluto.Ts.File

/-!
# A receiver that joins

A receiver may start at any packet of a session.  Both tables stand in front of every video unit, so
it learns the PIDs at the next one, and it gets every access unit that starts where it listens.

* `Joins`                the units of a track in packets that a receiver has joined;
* `joins_calls`          from any packet of a run on: the units of the last calls;
* `ts_file`              the file from its start;
* `receiver_joins`       from any packet of the file on, without knowing the PIDs.
-/

namespace Pluto.Ts
open Octets Transport

/-! ## the tables are read -/

theorem patPacket_programs :
    patOf patPacket.payload = some [(1, (pmtPid : Nat))] := by decide +kernel

theorem pmtPacket_streams :
    pmtOf pmtPacket.payload
      = some [(0x1b, (trackPid .video : Nat)), (0x0f, (trackPid .audio : Nat))] := by decide +kernel

/-! ## joining -/

/-- what a receiver of track `u` gets of packets, whatever unit it has missed the start of -/
def Joins (ps : List Packet) (u : CodecType) (us : List Bytes) : Prop :=
  ∀ rest, (units rest).1 = [] →
    (units ((ps.filter fun p => p.pid = trackPid u).map (fun p => (p.start, p.payload)) ++ rest)).2
      = us ++ (units rest).2

theorem Receives.joins {ps : List Packet} {u : CodecType} {us : List Bytes} (h : Receives ps u us) :
    Joins ps u us :=
  fun rest hrest => congrArg Prod.snd (h rest hrest)

theorem joins_append {ps qs : List Packet} {u : CodecType} {us vs : List Bytes} (hp : Joins ps u us)
    (hq : Receives qs u vs) : Joins (ps ++ qs) u (us ++ vs) := by
  intro rest hrest
  have h2 := hq rest hrest
  rw [List.filter_append, List.map_append, List.append_assoc, hp _ (by rw [h2]), h2,
    List.append_assoc]

/-- packets in which nothing starts -/
theorem joins_none {ps : List Packet} (h : ∀ p ∈ ps, p.start = false) (u : CodecType) :
    Joins ps u [] := by
  intro rest hrest
  have hcontinue : (ps.filter fun p => p.pid = trackPid u).map (fun p => (p.start, p.payload))
      = ((ps.filter fun p => p.pid = trackPid u).map Packet.payload).map (Prod.mk false) := by
    rw [List.map_map]
    apply List.map_congr_left
    intro p hp
    rw [h p (List.mem_filter.mp hp).1]
    rfl
  rw [hcontinue, units_continue, List.nil_append]

theorem Joins.elementary {ps : List Packet} {t : CodecType} {us : List Bytes} (h : Joins ps t us)
    (cc : Counters) :
    (elementary (trackPid t) (stream cc ps)).2 = us := by
  have := h [] rfl
  rw [List.append_nil] at this
  rw [elementary_stream, this]
  exact List.append_nil us

section
variable (pcr : Int → Int)

/-- a call whose access unit fills a packet -/
structure Carried (ctx : AVFormatContext) (c : Mem × AVPacket) (t : CodecType) : Prop where
  track : codecType c.2.stream_idx = some t
  long : 176 ≤ (pesPacket ctx c.2 t (c.2.payload c.1)).length

theorem Muxable.carried {ctx : AVFormatContext} {c : Mem × AVPacket} {t : CodecType}
    (h : Muxable ctx c.2 t) (hcsd : CsdReady ctx t) : Carried ctx c t := by
  obtain ⟨hs, hau, -⟩ := unit_of_csd h.track hcsd h.fits
  have hlen := pesPacket_length hau c.1
  have h162 := (h.offered hcsd).2
  exact ⟨h.track, by omega⟩

theorem Carried.packets {ctx : AVFormatContext} {c : Mem × AVPacket} {t : CodecType}
    (h : Carried ctx c t) :
    callPackets pcr ctx c = tablePackets t ++ pesPackets (trackPid t) (clockField (pcr c.2.pts))
      (pesPacket ctx c.2 t (c.2.payload c.1)) (clockField_length _) h.long := by
  rw [callPackets_track pcr h.track, unitPackets, dif_pos h.long]

theorem Carried.length_pos {ctx : AVFormatContext} {c : Mem × AVPacket} {t : CodecType}
    (h : Carried ctx c t) :
    0 < (callPackets pcr ctx c).length := by
  rw [h.packets, List.length_append, pesPackets, List.length_cons]
  omega

/-- the rest of a call -/
theorem joins_callPackets {ctx : AVFormatContext} {c : Mem × AVPacket} {t : CodecType}
    (h : Carried ctx c t) (n : Nat) (u : CodecType) :
    Joins ((callPackets pcr ctx c).drop n) u
      (if n ≤ (tablePackets t).length ∧ u = t then [pesPacket ctx c.2 t (c.2.payload c.1)]
        else []) := by
  rw [h.packets, List.drop_append]
  by_cases hn : n ≤ (tablePackets t).length
  · have htables : Receives ((tablePackets t).drop n) u [] :=
      receives_none fun p hp => tablePackets_pid (List.mem_of_mem_drop hp) u
    rw [Nat.sub_eq_zero_of_le hn, List.drop_zero]
    simp only [hn, true_and]
    exact (receives_append htables (receives_pesPackets t u _ _ _ h.long)).joins
  · obtain ⟨m, hm⟩ := Nat.exists_eq_add_of_lt (not_le.mp hn)
    have hdrop : n - (tablePackets t).length = m + 1 := by omega
    rw [if_neg fun hand => hn hand.1, List.drop_eq_nil_of_le (by omega), List.nil_append, hdrop,
      pesPackets, List.drop_succ_cons]
    exact joins_none (fun p hp => (fragments_mem (List.mem_of_mem_drop hp)).1) u

/-- a whole call -/
theorem Carried.receives {ctx : AVFormatContext} {c : Mem × AVPacket} {t : CodecType}
    (h : Carried ctx c t) (u : CodecType) :
    Receives (callPackets pcr ctx c) u
      (if u = t then [pesPacket ctx c.2 t (c.2.payload c.1)] else []) := by
  have htables : Receives (tablePackets t) u [] := receives_none fun p hp => tablePackets_pid hp u
  rw [h.packets]
  exact receives_append htables (receives_pesPackets t u _ _ _ h.long)

theorem receives_calls {ctx : AVFormatContext} {calls : List (Mem × AVPacket)}
    (hcalls : ∀ c ∈ calls, ∃ t, Carried ctx c t) (u : CodecType) :
    Receives (calls.flatMap (callPackets pcr ctx)) u (trackUnits ctx calls u) := by
  induction calls with
  | nil => exact receives_none fun _ hp => absurd hp List.not_mem_nil
  | cons c calls ih =>
    obtain ⟨t, hc⟩ := hcalls c List.mem_cons_self
    rw [List.flatMap_cons, trackUnits_cons ctx c calls hc.track u]
    exact receives_append (hc.receives pcr u) (ih fun d hd => hcalls d (List.mem_cons_of_mem c hd))

/-- **Joining a run.**  The units of the last calls: at least of those whose packets are all
there. -/
theorem joins_calls {ctx : AVFormatContext} {calls : List (Mem × AVPacket)}
    (hcalls : ∀ c ∈ calls, ∃ t, Carried ctx c t) (n : Nat) :
    ∃ k, (∀ u, Joins ((calls.flatMap (callPackets pcr ctx)).drop n) u
      (trackUnits ctx (calls.drop k) u)) ∧
      ∀ j, n ≤ ((calls.take j).flatMap (callPackets pcr ctx)).length → k ≤ j := by
  induction calls generalizing n with
  | nil =>
    refine ⟨0, fun u => ?_, fun j _ => Nat.zero_le j⟩
    rw [List.flatMap_nil, List.drop_nil, List.drop_nil]
    exact joins_none (fun _ hp => absurd hp List.not_mem_nil) u
  | cons c calls ih =>
    obtain ⟨t, hc⟩ := hcalls c List.mem_cons_self
    have hrest : ∀ d ∈ calls, ∃ t, Carried ctx d t :=
      fun d hd => hcalls d (List.mem_cons_of_mem c hd)
    have hpos := hc.length_pos pcr
    rw [List.flatMap_cons, List.drop_append]
    by_cases hn : n < (callPackets pcr ctx c).length
    · -- the receiver joins in this call
      have hunits : ∀ u, Receives (calls.flatMap (callPackets pcr ctx)) u
          (trackUnits ctx calls u) :=
        receives_calls pcr hrest
      have hjoins := fun u => joins_append (joins_callPackets pcr hc n u) (hunits u)
      rw [Nat.sub_eq_zero_of_le hn.le, List.drop_zero]
      by_cases hstart : n ≤ (tablePackets t).length
      · refine ⟨0, fun u => ?_, fun j _ => Nat.zero_le j⟩
        have hu := hjoins u
        simp only [hstart, true_and] at hu
        rwa [List.drop_zero, trackUnits_cons ctx c calls hc.track u]
      · refine ⟨1, fun u => ?_, fun j hj => ?_⟩
        · have hu := hjoins u
          rwa [if_neg fun hand => hstart hand.1, List.nil_append] at hu
        · cases j with
          | zero => exact absurd hj (by simp; omega)
          | succ j => exact Nat.succ_le_succ (Nat.zero_le j)
    · obtain ⟨k, hk, hlast⟩ := ih hrest (n - (callPackets pcr ctx c).length)
      refine ⟨k + 1, fun u => ?_, fun j hj => ?_⟩
      · rw [List.drop_eq_nil_of_le (not_lt.mp hn), List.nil_append, List.drop_succ_cons]
        exact hk u
      · cases j with
        | zero => exact absurd hj (by simp; omega)
        | succ j =>
          rw [List.take_succ_cons, List.flatMap_cons, List.length_append] at hj
          exact Nat.succ_le_succ (hlast j (by omega))

variable {channelCnt sampleRate : Int} {videoCSD audioCSD : Bytes}

theorem session_carried (hc : channelCnt ≠ 0) (hs : sampleRate ≠ 0) (hv : videoCSD.length ≤ 156)
    (ha : 2 ≤ audioCSD.length) {calls : List (Mem × AVPacket)}
    (hcalls : ∀ c ∈ calls, ∃ t, Muxable (session channelCnt sampleRate videoCSD audioCSD) c.2 t) :
    ∀ c ∈ calls, ∃ t, Carried (session channelCnt sampleRate videoCSD audioCSD) c t := by
  intro c hmem
  obtain ⟨t, ht⟩ := hcalls c hmem
  exact ⟨t, ht.carried (session_csd hc hs hv fun _ => ha)⟩

/-- the tables among the packets of a run -/
theorem mem_callPackets_table {ctx : AVFormatContext} {calls : List (Mem × AVPacket)}
    (hcalls : ∀ c ∈ calls, ∃ t, Carried ctx c t) {p : Packet}
    (hp : p ∈ calls.flatMap (callPackets pcr ctx)) :
    p = patPacket ∨ p = pmtPacket ∨ ∃ t, p.pid = trackPid t := by
  obtain ⟨c, hc, hp⟩ := List.mem_flatMap.mp hp
  obtain ⟨t, ht⟩ := hcalls c hc
  rw [ht.packets] at hp
  rcases List.mem_append.mp hp with hp | hp
  · cases t with
    | video =>
      simp only [tablePackets, List.mem_cons, List.not_mem_nil, or_false] at hp
      exact hp.imp_right Or.inl
    | audio => cases hp
  · exact Or.inr (Or.inr ⟨t, pesPackets_pid hp⟩)

/-- a video call brings both tables -/
theorem tables_mem (ctx : AVFormatContext) {calls : List (Mem × AVPacket)}
    (hcalls : ∃ c ∈ calls, c.2.stream_idx = 0) :
    patPacket ∈ calls.flatMap (callPackets pcr ctx) ∧
      pmtPacket ∈ calls.flatMap (callPackets pcr ctx) := by
  obtain ⟨c, hc, h0⟩ := hcalls
  have hpackets : callPackets pcr ctx c = _ := callPackets_track pcr (codecType_video.mpr h0)
  constructor
  · refine List.mem_flatMap.mpr ⟨c, hc, ?_⟩
    rw [hpackets]
    exact List.mem_append_left _ List.mem_cons_self
  · refine List.mem_flatMap.mpr ⟨c, hc, ?_⟩
    rw [hpackets]
    exact List.mem_append_left _ (List.mem_cons_of_mem _ List.mem_cons_self)

/-- what the tables say -/
theorem receive_packets {cc : Counters} {ps : List Packet}
    (hps : ∀ p ∈ ps, p = patPacket ∨ p = pmtPacket ∨ ∃ t, p.pid = trackPid t)
    (hpat : patPacket ∈ ps) (hpmt : pmtPacket ∈ ps) {us : CodecType → List Bytes}
    (hus : ∀ t, Joins ps t (us t)) :
    receive (stream cc ps) = some [(0x1b, us .video), (0x0f, us .audio)] := by
  have hread := @receive_stream cc ps _ _ _ _ _ patPacket_programs pmtPacket_streams ?_ ?_
  · rw [if_pos ⟨⟨patPacket, hpat, rfl⟩, pmtPacket, hpmt, rfl⟩] at hread
    rw [hread, ← (hus .video).elementary cc, ← (hus .audio).elementary cc]
    rfl
  · intro p hp h0
    rcases hps p hp with rfl | rfl | ⟨t, ht⟩
    · exact ⟨rfl, rfl⟩
    · exact absurd h0 (by decide)
    · exact absurd (ht.symm.trans h0) (trackPid_ne_pat t)
  · intro p hp h1
    rcases hps p hp with rfl | rfl | ⟨t, ht⟩
    · exact absurd h1 (by decide)
    · exact ⟨rfl, rfl⟩
    · exact absurd (ht.symm.trans h1) (trackPid_ne_pmt t)

/-! ## the file -/

section
variable {s : MmStreamInfo} {mpCache : Bytes} {cacheSize : Int} {calls : List (Mem × AVPacket)}

/-- **The file of a session.**  A session that writes through a cache of any size into a new file:
the trailer returns the length of the file, as an `int`; the file is a whole number of packets, each
behind a sync byte; and demultiplexing it gives the PES packets of each track in the order of the
calls. -/
theorem ts_file (hc : channelCnt ≠ 0) (hs : sampleRate ≠ 0) (hv : videoCSD.length ≤ 156)
    (ha : 2 ≤ audioCSD.length) (hfull : s.AlwaysFull) (hempty : s.contents = []) (hpos : s.pos = 0)
    (hcache : 0 < cacheSize) (hlen : (mpCache.length : Int) = cacheSize)
    (hcalls : ∀ c ∈ calls, ∃ t, Muxable (session channelCnt sampleRate videoCSD audioCSD) c.2 t) :
    ∃ file, tsFile pcr (session channelCnt sampleRate videoCSD audioCSD) s mpCache cacheSize calls
        = some ((file.length : Int).bmod (2 ^ 32), file) ∧
      file.length = 188 * (cut file).length ∧ (∀ b ∈ cut file, b.head? = some 0x47) ∧
      ∀ t, elementary (trackPid t) file
        = ([], (calls.filter fun c => codecType c.2.stream_idx = some t).map fun c =>
            pesPacket (session channelCnt sampleRate videoCSD audioCSD) c.2 t
                (c.2.payload c.1)) := by
  obtain ⟨file, hfile, hbytes⟩ :=
    tsFile_packets pcr hc hs hv ha hfull hempty hpos hcache hlen hcalls
  have hcarried := session_carried hc hs hv ha hcalls
  refine ⟨file, hfile, ?_, fun b hb => ?_, fun t => ?_⟩
  · rw [hbytes, cut_stream, stream_length, List.length_map, ← List.length_map (f := Prod.fst),
      stamp_packets]
  · rw [hbytes] at hb
    exact sync_stream hb
  · rw [hbytes]
    exact (receives_calls pcr hcarried t).elementary _

theorem ts_file_two :
    ∃ size file, tsFile (· * 27000) (session 2 48000 [0, 0, 0, 1, 0x67, 1, 2, 3] [0x11, 0x90])
        newFile [0, 0, 0, 0, 0, 0, 0] 7 twoCalls = some (size, file) ∧
      (elementary 0x1E1 file).2.length = 1 ∧ (elementary 0x1E2 file).2.length = 1 := by
  obtain ⟨file, hfile, -, -, hunits⟩ := ts_file (· * 27000) (s := newFile)
    (by decide) (by decide) (by decide) (by decide) ⟨by decide, fun _ => rfl⟩ rfl rfl (by decide)
    (show ((([0, 0, 0, 0, 0, 0, 0] : Bytes).length : Int) = 7) from rfl) twoCalls_muxable
  exact ⟨_, file, hfile, congrArg (fun r => r.2.length) (hunits .video),
    congrArg (fun r => r.2.length) (hunits .audio)⟩

/-- **A receiver may join at any packet.**  From the `n`-th packet of the file on, the PES packets
of each track are those of the calls from some `k` on, in order and complete; a call whose packets
are all there is one of them.  If a video call is, then both tables are there, their checksums are
right, and a receiver that knows no PID gets the two streams with their types. -/
theorem receiver_joins (hc : channelCnt ≠ 0) (hs : sampleRate ≠ 0) (hv : videoCSD.length ≤ 156)
    (ha : 2 ≤ audioCSD.length) (hfull : s.AlwaysFull) (hempty : s.contents = []) (hpos : s.pos = 0)
    (hcache : 0 < cacheSize) (hlen : (mpCache.length : Int) = cacheSize)
    (hcalls : ∀ c ∈ calls, ∃ t, Muxable (session channelCnt sampleRate videoCSD audioCSD) c.2 t) :
    ∃ wss ctx' size file, run pcr (session channelCnt sampleRate videoCSD audioCSD) calls
      = some (wss, ctx') ∧
      tsFile pcr (session channelCnt sampleRate videoCSD audioCSD) s mpCache cacheSize calls
        = some (size, file) ∧
      ∀ n, ∃ k, (∀ t, (elementary (trackPid t) (file.drop (188 * n))).2
            = trackUnits (session channelCnt sampleRate videoCSD audioCSD) (calls.drop k) t) ∧
        ∀ j, 188 * n ≤ (emitted (wss.take j).flatten).length → k ≤ j ∧
          ((∃ c ∈ calls.drop j, c.2.stream_idx = 0) → receive (file.drop (188 * n))
            = some [(0x1b, trackUnits (session channelCnt sampleRate videoCSD audioCSD)
              (calls.drop k) .video),
                (0x0f, trackUnits (session channelCnt sampleRate videoCSD audioCSD)
                  (calls.drop k) .audio)]) := by
  obtain ⟨file, hfile, hbytes⟩ :=
    tsFile_packets pcr hc hs hv ha hfull hempty hpos hcache hlen hcalls
  obtain ⟨wss, ctx', hrun, -, htake⟩ := session_packets pcr hc hs hv ha hcalls
  have hcarried := session_carried hc hs hv ha hcalls
  refine ⟨wss, ctx', _, file, hrun, hfile, fun n => ?_⟩
  obtain ⟨k, hjoins, hlast⟩ := joins_calls pcr hcarried n
  rw [hbytes, stream_drop]
  refine ⟨k, fun t => (hjoins t).elementary _, fun j hj => ?_⟩
  have hn : n ≤ ((calls.take j).flatMap
      (callPackets pcr (session channelCnt sampleRate videoCSD audioCSD))).length := by
    rw [htake, stream_length] at hj
    omega
  refine ⟨hlast j hn, fun hvideo => ?_⟩
  -- the packets of the last calls are all there
  have hsplit : (calls.flatMap
      (callPackets pcr (session channelCnt sampleRate videoCSD audioCSD))).drop n
      = ((calls.take j).flatMap
        (callPackets pcr (session channelCnt sampleRate videoCSD audioCSD))).drop n
        ++ (calls.drop j).flatMap
            (callPackets pcr (session channelCnt sampleRate videoCSD audioCSD)) := by
    rw [← List.drop_append_of_le_length hn, ← List.flatMap_append, List.take_append_drop]
  obtain ⟨hpat, hpmt⟩ := tables_mem pcr (session channelCnt sampleRate videoCSD audioCSD) hvideo
  refine receive_packets (fun p hp => ?_) ?_ ?_ hjoins
  · exact mem_callPackets_table pcr hcarried (List.mem_of_mem_drop hp)
  · rw [hsplit]
    exact List.mem_append_right _ hpat
  · rw [hsplit]
    exact List.mem_append_right _ hpmt

end

/-- a key frame and an AAC frame, into a new file over a cache of seven bytes -/
theorem receiver_joins_two :
    ∃ size file, tsFile (· * 27000) (session 2 48000 [0, 0, 0, 1, 0x67, 1, 2, 3] [0x11, 0x90])
        newFile [0, 0, 0, 0, 0, 0, 0] 7 twoCalls = some (size, file) ∧
      ∃ streams, receive file = some streams ∧ streams.map Prod.fst = [0x1b, 0x0f] := by
  obtain ⟨wss, ctx', size, file, -, hfile, hall⟩ := receiver_joins (· * 27000)
    (s := newFile) (by decide) (by decide) (by decide) (by decide)
    ⟨by decide, fun _ => rfl⟩ rfl rfl (by decide)
    (show ((([0, 0, 0, 0, 0, 0, 0] : Bytes).length : Int) = 7) from rfl) twoCalls_muxable
  obtain ⟨k, -, hjoined⟩ := hall 0
  obtain ⟨-, hreceive⟩ := hjoined 0 (Nat.zero_le _)
  have hvideo : ∃ c ∈ twoCalls.drop 0, c.2.stream_idx = 0 := ⟨_, List.mem_cons_self, rfl⟩
  exact ⟨size, file, hfile, _, hreceive hvideo, rfl⟩

end

end Pluto.Ts

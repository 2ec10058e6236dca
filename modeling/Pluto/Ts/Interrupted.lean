import Pluto.Bytes.CutStreams
import Pluto.Cache.Blocks
import Pluto.Ts.Receive

/-!
# A session that is closed without a trailer

`Mpeg2tsMuxerClose` frees the cache writer and does not flush it, which only the trailer does, and
closes the stream, with which libc writes what it still holds.  A session that is closed without a
trailer leaves the whole caches that it has written.

* `tsBroken`     the file of a session that is closed behind its packets;
* `stops_calls`  the packets of a run up to some packet: the units of the first calls, and a part of
  the next one;
* `broken_off`   what is in the file.
-/

namespace Pluto.Ts
open Octets Transport

section
variable (pcr : Int → Int)

/-- the packets are written into the cache that the header has created; then, without a trailer,
the cache is freed and `fclose` leaves the file -/
def tsBroken (ctx : AVFormatContext) (s : MmStreamInfo) (mpCache : Bytes) (cacheSize : Int)
    (calls : List (Mem × AVPacket)) : Option Bytes :=
  (createCacheSimple s mpCache cacheSize).bind fun cache =>
    (run pcr ctx calls).map fun r =>
      (cache.run (r.1.flatten.map fun w => .write w.bytes)).2.mpStream.contents

/-! ## the last call -/

/-- the packets of track `u` in packets that break off in a call -/
theorem stops_callPackets {ctx : AVFormatContext} {c : Mem × AVPacket} {t : CodecType}
    (h : Carried ctx c t) {n : Nat} (hn : n < (callPackets pcr ctx c).length) (u : CodecType) :
    ∃ us, units ((((callPackets pcr ctx c).take n).filter fun p => p.pid = trackPid u).map fun p =>
      (p.start, p.payload))
        = ([], us) ∧ (us = [] ∨ u = t ∧ CutShort (pesPacket ctx c.2 t (c.2.payload c.1)) us) := by
  rw [h.packets, List.length_append] at hn
  rw [h.packets, List.take_append, List.filter_append]
  have htables : (((tablePackets t).take n).filter fun p => p.pid = trackPid u) = [] :=
    List.filter_eq_nil_iff.mpr fun p hp => by
    simpa using tablePackets_pid (List.mem_of_mem_take hp) u
  rw [htables, List.nil_append]
  by_cases hu : u = t
  · rw [hu, List.filter_eq_self.mpr
      fun p hp => by simpa using pesPackets_pid (List.mem_of_mem_take hp)]
    have hin : n - (tablePackets t).length < (pesPackets (trackPid t) (clockField (pcr c.2.pts))
        (pesPacket ctx c.2 t (c.2.payload c.1)) (clockField_length _) h.long).length := by
      rw [pesPackets, List.length_cons] at hn ⊢
      omega
    obtain ⟨us, hus, hshort⟩ := units_pesPackets_take (clockField_length (pcr c.2.pts)) h.long hin
    exact ⟨us, hus, .inr ⟨rfl, hshort⟩⟩
  · have hother :
        (((pesPackets (trackPid t) (clockField (pcr c.2.pts))
          (pesPacket ctx c.2 t (c.2.payload c.1))
        (clockField_length _) h.long).take (n - (tablePackets t).length)).filter fun p =>
          p.pid = trackPid u) = [] := by
      refine List.filter_eq_nil_iff.mpr fun p hp => ?_
      rw [pesPackets_pid (List.mem_of_mem_take hp)]
      simpa using fun heq => hu (trackPid_injective heq).symm
    rw [hother]
    exact ⟨[], rfl, .inl rfl⟩

/-- what is received of track `u` of the call at which a run breaks off -/
def Broken (ctx : AVFormatContext) (c : Option (Mem × AVPacket)) (u : CodecType) (us : List Bytes) :
    Prop :=
  us = [] ∨ ∃ d, c = some d ∧ codecType d.2.stream_idx = some u ∧
    CutShort (pesPacket ctx d.2 u (d.2.payload d.1)) us

/-- **The packets of a run up to some packet.**  The units of the calls whose packets are all there,
and perhaps the beginning of the next one. -/
theorem stops_calls {ctx : AVFormatContext} {calls : List (Mem × AVPacket)}
    (hcalls : ∀ c ∈ calls, ∃ t, Carried ctx c t) (n : Nat) :
    ∃ k, (∀ j ≤ calls.length, j ≤ k ↔ ((calls.take j).flatMap (callPackets pcr ctx)).length ≤ n) ∧
      ∀ u, ∃ us, units ((((calls.flatMap (callPackets pcr ctx)).take n).filter fun p =>
        p.pid = trackPid u).map
          fun p => (p.start, p.payload)) = ([], trackUnits ctx (calls.take k) u ++ us) ∧
            Broken ctx calls[k]? u us := by
  induction calls generalizing n with
  | nil =>
    refine ⟨0, fun j hj => ?_, fun u => ⟨[], ?_, .inl rfl⟩⟩
    · rw [List.take_nil, List.flatMap_nil]
      exact ⟨fun _ => Nat.zero_le n, fun _ => hj⟩
    · rw [List.flatMap_nil, List.take_nil]
      rfl
  | cons c calls ih =>
    obtain ⟨t, hc⟩ := hcalls c List.mem_cons_self
    have hrest : ∀ d ∈ calls, ∃ t, Carried ctx d t :=
      fun d hd => hcalls d (List.mem_cons_of_mem c hd)
    rw [List.flatMap_cons]
    by_cases hn : n < (callPackets pcr ctx c).length
    · -- the run breaks off in this call
      refine ⟨0, fun j hj => ?_, fun u => ?_⟩
      · cases j with
        | zero => exact ⟨fun _ => Nat.zero_le n, fun _ => le_rfl⟩
        | succ j =>
          rw [List.take_succ_cons, List.flatMap_cons, List.length_append]
          omega
      · obtain ⟨us, hus, hbroken⟩ := stops_callPackets pcr hc hn u
        rw [List.take_append_of_le_length hn.le]
        refine ⟨us, hus, hbroken.imp_right ?_⟩
        rintro ⟨rfl, hshort⟩
        exact ⟨c, rfl, hc.track, hshort⟩
    · obtain ⟨k, hk, hunits⟩ := ih hrest (n - (callPackets pcr ctx c).length)
      refine ⟨k + 1, fun j hj => ?_, fun u => ?_⟩
      · cases j with
        | zero => exact ⟨fun _ => Nat.zero_le n, fun _ => Nat.zero_le _⟩
        | succ j =>
          have hj' := hk j (Nat.le_of_succ_le_succ hj)
          rw [List.take_succ_cons, List.flatMap_cons, List.length_append]
          omega
      · obtain ⟨us, hus, hbroken⟩ := hunits u
        have hfirst := hc.receives pcr u _ (congrArg Prod.fst hus)
        rw [hus, ← List.append_assoc, ← trackUnits_cons ctx c _ hc.track u,
          ← List.take_succ_cons] at hfirst
        rw [List.take_append, List.take_of_length_le (not_lt.mp hn), List.filter_append,
          List.map_append]
        exact ⟨us, hfirst, hbroken⟩

/-! ## the file -/

section
variable {channelCnt sampleRate : Int} {videoCSD audioCSD : Bytes} {s : MmStreamInfo}
  {mpCache : Bytes} {cacheSize : Int} {calls : List (Mem × AVPacket)}

/-- the whole caches -/
theorem tsBroken_new {ctx : AVFormatContext} (hfull : s.AlwaysFull) (hempty : s.contents = [])
    (hpos : s.pos = 0) (hcache : 0 < cacheSize) (hlen : (mpCache.length : Int) = cacheSize)
    {r : List (List CacheWrite) × AVFormatContext} (hr : run pcr ctx calls = some r) :
    ∃ file, tsBroken pcr ctx s mpCache cacheSize calls = some file ∧
      file.length = cacheSize.toNat * ((emitted r.1.flatten).length / cacheSize.toNat) ∧
      file = (emitted r.1.flatten).take file.length := by
  have hcreate : createCacheSimple s mpCache cacheSize = some
      { mpStream := s, mpCache := mpCache, mCacheSize := cacheSize.toNat, mValidLen := 0 } :=
    if_neg (by omega)
  obtain ⟨hwrote, hsize⟩ :=
    wrote_run (wrote_new hfull hempty hpos (by omega : 0 < cacheSize.toNat) (by omega :
      mpCache.length = cacheSize.toNat)) (r.1.flatten.map CacheWrite.bytes)
  have hbytes : [] ++ (r.1.flatten.map CacheWrite.bytes).flatten = emitted r.1.flatten := rfl
  rw [hbytes] at hwrote
  rw [List.map_map] at hwrote hsize
  have hlength := hwrote.length
  have hcontents := hwrote.contents
  rw [hsize] at hlength hcontents
  unfold tsBroken
  rw [hcreate, Option.bind_some, hr, Option.map_some]
  refine ⟨_, rfl, hlength, ?_⟩
  rw [← hlength] at hcontents
  exact hcontents

/-- **A session that is broken off.**  Without a trailer, the file holds the whole caches of what
was written.  There is a number of calls that are complete in it: each track has the PES packets of
these calls, in order, and at most the beginning of one more, which is that of the next call. -/
theorem broken_off (hc : channelCnt ≠ 0) (hs : sampleRate ≠ 0) (hv : videoCSD.length ≤ 156)
    (ha : 2 ≤ audioCSD.length) (hfull : s.AlwaysFull) (hempty : s.contents = []) (hpos : s.pos = 0)
    (hcache : 0 < cacheSize) (hlen : (mpCache.length : Int) = cacheSize)
    (hcalls : ∀ c ∈ calls, ∃ t, Muxable (session channelCnt sampleRate videoCSD audioCSD) c.2 t) :
    ∃ wss ctx' file, run pcr (session channelCnt sampleRate videoCSD audioCSD) calls
      = some (wss, ctx') ∧
      tsBroken pcr (session channelCnt sampleRate videoCSD audioCSD) s mpCache cacheSize calls
        = some file ∧
      file.length = cacheSize.toNat * ((emitted wss.flatten).length / cacheSize.toNat) ∧
      file <+: emitted wss.flatten ∧
      ∃ k, (∀ j ≤ calls.length, j ≤ k ↔ (emitted (wss.take j).flatten).length ≤ file.length) ∧
        ∀ t, ∃ us, elementary (trackPid t) file
            = ([], trackUnits (session channelCnt sampleRate videoCSD audioCSD) (calls.take k) t
              ++ us) ∧
          Broken (session channelCnt sampleRate videoCSD audioCSD) calls[k]? t us := by
  obtain ⟨wss, ctx', hrun, -, htake⟩ := session_packets pcr hc hs hv ha hcalls
  obtain ⟨file, hfile, hlength, hhead⟩ := tsBroken_new pcr hfull hempty hpos hcache hlen hrun
  obtain ⟨k, hk, hunits⟩ := stops_calls pcr (session_carried hc hs hv ha hcalls) (file.length / 188)
  have hall := htake (max wss.length calls.length)
  rw [List.take_of_length_le (le_max_left _ _), List.take_of_length_le (le_max_right _ _)] at hall
  refine ⟨wss, ctx', file, hrun, hfile, hlength, hhead ▸ List.take_prefix _ _, k, fun j hj => ?_,
    fun t => ?_⟩
  · rw [hk j hj, htake, stream_length]
    omega
  · obtain ⟨us, hus, hbroken⟩ := hunits t
    refine ⟨us, ?_, hbroken⟩
    rw [hhead, hall, elementary_take, elementary_stream]
    exact hus

end

theorem twoCalls_sizes :
    (run (· * 27000) (session 2 48000 [0, 0, 0, 1, 0x67, 1, 2, 3] [0x11, 0x90]) twoCalls).map
    (fun r => ((emitted (r.1.take 1).flatten).length, (emitted r.1.flatten).length))
      = some (752, 1128) := by
  decide +kernel

/-- through a cache of two hundred bytes: a thousand bytes, and the first call is complete -/
theorem broken_off_two :
    ∃ file k, tsBroken (· * 27000) (session 2 48000 [0, 0, 0, 1, 0x67, 1, 2, 3] [0x11, 0x90])
        newFile (List.replicate 200 0) 200 twoCalls = some file ∧
      file.length = 1000 ∧ 1 ≤ k ∧ ∃ us, (elementary 0x1E1 file).2
        = trackUnits (session 2 48000 [0, 0, 0, 1, 0x67, 1, 2, 3] [0x11, 0x90])
          (twoCalls.take k) .video ++ us := by
  obtain ⟨wss, ctx', file, hrun, hfile, hlength, -, k, hk, hunits⟩ := broken_off (· * 27000)
    (s := newFile) (by decide) (by decide) (by decide) (by decide)
    ⟨by decide, fun _ => rfl⟩ rfl rfl (by decide)
    (show (((List.replicate 200 0 : Bytes).length : Int) = 200) from rfl) twoCalls_muxable
  have hsizes := twoCalls_sizes
  rw [hrun, Option.map_some, Option.some_inj, Prod.mk.injEq] at hsizes
  rw [hsizes.2] at hlength
  have hthousand : file.length = 1000 := hlength
  obtain ⟨us, hus, -⟩ := hunits .video
  refine ⟨file, k, hfile, hthousand, (hk 1 (by decide)).mpr ?_, us, congrArg Prod.snd hus⟩
  rw [hsizes.1, hthousand]
  norm_num

end

end Pluto.Ts

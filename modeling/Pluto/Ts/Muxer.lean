import Mathlib.Data.Int.Bitwise
import Pluto.Muxer.Writer

/-!
# `Mpeg2tsMuxer`: the transport stream muxer

The functions of `Mpeg2tsMuxer.c`, and of `Mpeg2tsMuxerDrv.c` what sets the fields they read.  The
writes come out as a list; `none` is an abort: a failed `assert`, or a read through a null CSD.
`pcr` is the clock value that the floating-point arithmetic makes of a time stamp.

* `writeProgramAssociationTable`, `writeProgramMapTable`  one packet each;
* `writeAvTsPacket`     the payload of one packet, from one or both segments;
* `writeFragments`      the `while` loop over the packets behind the first;
* `writeAccessUnit`, `mpeg2tsWritePacket`  one `AVPacket`;
* `run`                 one packet after the other.
-/

namespace Pluto.Ts
open Octets

/-- `TS_PACKAGE_SZ` -/
def tsPackageSz : Nat := 188

/-- `nal_aud` -/
def nalAud : Bytes := [0, 0, 0, 1, 0x09, 0xf0]

/-- `mTrackCSD`: an empty CSD is the null pointer -/
structure AVFormatContext where
  mChannelCnt : Int
  mSampleRate : Int
  mPATContinuityCounter : Nat
  mPMTContinuityCounter : Nat
  mTSContinuityCounter : CodecType → Nat
  mCrcTable : Nat → UInt32
  mTrackPid : CodecType → Nat
  mTrackCSD : CodecType → Bytes
  mTrackCnt : Nat

/-! ## the CRC -/

def crcStep (crc : UInt32) : UInt32 :=
  (crc <<< 1) ^^^ (if crc &&& 0x80000000 ≠ 0 then 0x04C11DB7 else 0)

def initCrcTable (ctx : AVFormatContext) : AVFormatContext :=
  { ctx with mCrcTable := fun i => crcStep^[8] (UInt32.ofNat i <<< 24) }

def crc32 (ctx : AVFormatContext) (b : Bytes) : UInt32 :=
  b.foldl (fun crc p => (crc <<< 8) ^^^ ctx.mCrcTable
    (((crc >>> 24) ^^^ p.toUInt32) &&& 0xff).toNat)
    0xFFFFFFFF

/-! ## tables -/

def kPATStartData : Bytes :=
  [0x47,
    0x40, 0x00, 0x10, 0x00,
    0x00, 0xb0, 0x0d, 0x00,
    0x00, 0xc3, 0x00, 0x00,
    0x00, 0x01, 0xe1, 0xe0,
    0xe8, 0x5f, 0x74, 0xec]

def kPMTStartData : Bytes :=
  [0x47,
    0x41, 0xe0, 0x10, 0x00,
    0x02, 0xb0, 0x00, 0x00,
    0x01, 0xc3, 0x00, 0x00,
    0xe0, 0x00, 0xf0, 0x00]

/-- `mpTSBuf` after its `memset` -/
def freshBuf : Bytes := List.replicate tsPackageSz 0xff

/-- `buf[i] |= x` -/
def orAt (buf : Bytes) (i : Nat) (x : UInt8) : Bytes := buf.set i (buf.getD i 0 ||| x)

def writeProgramAssociationTable (ctx : AVFormatContext) : List CacheWrite × AVFormatContext :=
  let buf := memcpy freshBuf 0 kPATStartData
  let buf := orAt buf 3 (UInt8.ofNat ctx.mPATContinuityCounter)
  let n := ctx.mPATContinuityCounter + 1
  ([⟨.buffer buf, tsPackageSz⟩], { ctx with mPATContinuityCounter := if n ≥ 0x10 then 0 else n })

/-- the entry of a track: the first one is the AVC track -/
def pmtEntry (ctx : AVFormatContext) (t : CodecType) : Bytes :=
  let streamType : UInt8 := match t with
    | .video => 0x1b
    | .audio => 0x0f
  [streamType, UInt8.ofNat (0xe0 ||| ctx.mTrackPid t >>> 8), UInt8.ofNat (ctx.mTrackPid t &&& 0xff),
    0xf0, 0x00]

def kPcrPid : Nat := 0x1e1

/-- `mpTSBuf` as `write_program_map_table` fills it -/
def pmtBuf (ctx : AVFormatContext) : Bytes :=
  let buf := memcpy freshBuf 0 kPMTStartData
  let buf := orAt buf 3 (UInt8.ofNat ctx.mPMTContinuityCounter)
  let sectionLength := 9 + 5 * ctx.mTrackCnt + 4
  let buf := orAt buf 6 (UInt8.ofNat (sectionLength >>> 8))
  let buf := buf.set 7 (UInt8.ofNat (sectionLength &&& 0xff))
  let buf := orAt buf 13 (UInt8.ofNat (kPcrPid >>> 8 &&& 0x1f))
  let buf := orAt buf 14 (UInt8.ofNat (kPcrPid &&& 0xff))
  let buf := memcpy buf kPMTStartData.length
    (([CodecType.video, CodecType.audio].take ctx.mTrackCnt).flatMap (pmtEntry ctx))
  let crc := crc32 ctx (slice buf 5 (12 + 5 * ctx.mTrackCnt))
  memcpy buf (17 + 5 * ctx.mTrackCnt) (be 4 crc.toNat)

def writeProgramMapTable (ctx : AVFormatContext) : List CacheWrite × AVFormatContext :=
  let n := ctx.mPMTContinuityCounter + 1
  ([⟨.buffer (pmtBuf ctx), tsPackageSz⟩],
    { ctx with mPMTContinuityCounter := if n ≥ 0x10 then 0 else n })

/-! ## access units -/

/-- a pointer difference stored in an `int` -/
def toInt32 (x : Int) : Int := (x + 2 ^ 31) % 2 ^ 32 - 2 ^ 31

/-- the writes, and the new `*pStreamLeftSize` and `*pStreamPtr` -/
def writeAvTsPacket (m : Mem) (pkt : AVPacket) (tsPktLeftSize streamLeftSize streamPtr : Int) :
    Option (List CacheWrite × Int × Int) :=
  if tsPktLeftSize ≤ streamLeftSize then
    let inData0 := pkt.data0 ≤ streamPtr ∧ streamPtr < pkt.data0 + pkt.size0
    let curDataBlockLeftSize :=
      if inData0 then toInt32 (pkt.data0 + pkt.size0 - streamPtr)
      else toInt32 (pkt.data1 + pkt.size1 - streamPtr)
    if tsPktLeftSize ≤ curDataBlockLeftSize then
      some ([⟨.memory m streamPtr, tsPktLeftSize⟩],
        streamLeftSize - tsPktLeftSize, streamPtr + tsPktLeftSize)
    else if inData0 then
      some ([⟨.memory m streamPtr, curDataBlockLeftSize⟩,
          ⟨.memory m pkt.data1, tsPktLeftSize - curDataBlockLeftSize⟩],
        streamLeftSize - tsPktLeftSize, pkt.data1 + (tsPktLeftSize - curDataBlockLeftSize))
    else none
  else none

/-- `stream_size` -/
def streamSize (ctx : AVFormatContext) (pkt : AVPacket) : CodecType → Nat
  | .video =>
    if pkt.flags ≠ 0 then
      (pkt.size0 + pkt.size1 + nalAud.length + (ctx.mTrackCSD .video).length) % 2 ^ 32
    else (pkt.size0 + pkt.size1 + nalAud.length) % 2 ^ 32
  | .audio => (pkt.size0 + pkt.size1 + 7) % 2 ^ 32

def pesPacketLength (stream_size : Nat) : Nat :=
  let n := (stream_size + 8) % 2 ^ 32
  if n ≥ 65535 then 0 else n

/-- `padding_size` -/
def paddingSize (stream_size : Nat) : Nat :=
  if stream_size < tsPackageSz - 18 - 8 then tsPackageSz - 18 - 8 else 0

/-- the 12 bytes up to the end of the clock value -/
def firstHeader (PID : Nat) (counter : Nat) (paddingSize : Nat) (PCR : Int) : Bytes :=
  let pcr_low := PCR.tmod 300
  let pcr_high := PCR.tdiv 300
  [0x47, UInt8.ofNat (0x40 ||| PID >>> 8), UInt8.ofNat (PID &&& 0xff),
    UInt8.ofNat (0x30 ||| counter), UInt8.ofNat (paddingSize + 7), 0x10,
    UInt8.ofInt (pcr_high >>> 25), UInt8.ofInt (pcr_high >>> 17), UInt8.ofInt (pcr_high >>> 9),
    UInt8.ofInt (pcr_high >>> 1),
    UInt8.ofInt (pcr_high <<< 7) ||| UInt8.ofInt (pcr_low >>> 8) ||| 0x7e, UInt8.ofInt pcr_low]

def ptsOf (pts : Int) : Nat := ((pts * 1000 * 9).tdiv 100 % 2 ^ 32).toNat

/-- `stream_id` -/
def streamId : CodecType → UInt8
  | .video => 0xe0
  | .audio => 0xc0

/-- the 14 bytes in front of the elementary stream -/
def pesHeader (stream_id : UInt8) (PES_packet_length PTS : Nat) : Bytes :=
  [0x00, 0x00, 0x01, stream_id,
    UInt8.ofNat (PES_packet_length >>> 8), UInt8.ofNat (PES_packet_length &&& 0xff),
    0x84, 0x80, 0x05,
    UInt8.ofNat (0x20 ||| ((PTS >>> 30 &&& 7) <<< 1) ||| 1), UInt8.ofNat (PTS >>> 22 &&& 0xff),
    UInt8.ofNat (((PTS >>> 15 &&& 0x7f) <<< 1) ||| 1), UInt8.ofNat (PTS >>> 7 &&& 0xff),
    UInt8.ofNat (((PTS &&& 0x7f) <<< 1) ||| 1)]

def adtsHeader (csd0 csd1 : UInt8) (stream_size : Nat) : Bytes :=
  let profile : UInt8 := (csd0 >>> 3) - 1
  let sampling_freq_index := ((csd0 &&& 7) <<< 1) ||| (csd1 >>> 7)
  let channel_configuration := (csd1 >>> 3) &&& 0x0f
  [0xff, 0xf1,
    (profile <<< 6) ||| (sampling_freq_index <<< 2) ||| ((channel_configuration >>> 2) &&& 1),
    ((channel_configuration &&& 3) <<< 6) ||| UInt8.ofNat (stream_size >>> 11),
    UInt8.ofNat (stream_size >>> 3 &&& 0xff), UInt8.ofNat ((stream_size &&& 7) <<< 5), 0]

/-- what is written between the PES header and the payload: the access unit delimiter and the CSD
of a key frame, or the ADTS header, which is made from the first two bytes of the audio CSD -/
def unitHeader (ctx : AVFormatContext) (pkt : AVPacket) : CodecType → Option (List Bytes)
  | .video => some (if pkt.flags ≠ 0 then [nalAud, ctx.mTrackCSD .video] else [nalAud])
  | .audio =>
    match ctx.mTrackCSD .audio with
    | csd0 :: csd1 :: _ => some [adtsHeader csd0 csd1 (streamSize ctx pkt .audio)]
    | _ => none

/-- `mpTSBuf` for a packet behind the first, and how many bytes of it are written -/
def fragmentHeader (PID counter : Nat) (streamLeftSize : Int) : Bytes × Int :=
  let lastAccessUnit := streamLeftSize < tsPackageSz - 4
  let buf := freshBuf.set 0 0x47
  let buf := buf.set 1 (UInt8.ofNat (PID >>> 8))
  let buf := buf.set 2 (UInt8.ofNat (PID &&& 0xff))
  let buf := buf.set 3 (UInt8.ofNat ((if lastAccessUnit then 0x30 else 0x10) ||| counter))
  if lastAccessUnit then
    let paddingSize := tsPackageSz - 4 - streamLeftSize
    let buf := buf.set 4 (UInt8.ofInt (paddingSize - 1))
    let buf := if paddingSize ≥ 2 then buf.set 5 0 else buf
    (buf, paddingSize + 4)
  else (buf, 4)

/-- the loop `while (stream_left_size)` -/
def writeFragments (m : Mem) (pkt : AVPacket) (t : CodecType) (PID : Nat) :
    Nat → AVFormatContext → Int → Int → Option (List CacheWrite × AVFormatContext)
  | 0, _, _, _ => none
  | fuel + 1, ctx, streamLeftSize, streamPtr =>
    if streamLeftSize = 0 then some ([], ctx)
    else
      let counter := ctx.mTSContinuityCounter t
      let ctx := { ctx with
        mTSContinuityCounter := Function.update ctx.mTSContinuityCounter t
          (if counter ≥ 0x0f then 0 else counter + 1) }
      let head := fragmentHeader PID counter streamLeftSize
      match writeAvTsPacket m pkt (tsPackageSz - head.2) streamLeftSize streamPtr with
      | none => none
      | some (ws, streamLeftSize, streamPtr) =>
        (writeFragments m pkt t PID fuel ctx streamLeftSize streamPtr).map fun r =>
          (⟨.buffer head.1, head.2⟩ :: ws ++ r.1, r.2)

section
variable (pcr : Int → Int)

/-- `mpTSBuf` up to the end of the PES header: header, clock value, padding, PES header -/
def unitPrefix (ctx : AVFormatContext) (pkt : AVPacket) (t : CodecType) : Bytes :=
  let stream_size := streamSize ctx pkt t
  firstHeader (ctx.mTrackPid t) (ctx.mTSContinuityCounter t) (paddingSize stream_size) (pcr pkt.pts)
    ++ List.replicate (paddingSize stream_size) 0xff
    ++ pesHeader (streamId t) (pesPacketLength stream_size) (ptsOf pkt.pts)

/-- `streamLeftSize.toNat + 2` rounds are enough for the loop: the last one leaves `0` -/
def writeAccessUnit (ctx : AVFormatContext) (m : Mem) (pkt : AVPacket) :
    Option (List CacheWrite × AVFormatContext) :=
  match codecType pkt.stream_idx with
  | none => none
  | some t =>
    let PID := ctx.mTrackPid t
    let head := unitPrefix pcr ctx pkt t
    let counter := ctx.mTSContinuityCounter t
    let ctx := { ctx with
      mTSContinuityCounter := Function.update ctx.mTSContinuityCounter t
        (if counter + 1 ≥ 0x10 then 0 else counter + 1) }
    match unitHeader ctx pkt t with
    | none => none
    | some hs =>
      let tsPktLeftSize : Int := tsPackageSz - head.length - hs.flatten.length
      match writeAvTsPacket m pkt tsPktLeftSize (pkt.size0 + pkt.size1) pkt.data0 with
      | none => none
      | some (ws, streamLeftSize, streamPtr) =>
        (writeFragments m pkt t PID (streamLeftSize.toNat + 2) ctx streamLeftSize streamPtr).map
            fun r => (CacheWrite.all head :: hs.map CacheWrite.all ++ ws ++ r.1, r.2)

def mpeg2tsWritePacket (ctx : AVFormatContext) (m : Mem) (pkt : AVPacket) :
    Option (List CacheWrite × AVFormatContext) :=
  if pkt.stream_idx = 0 then
    let pat := writeProgramAssociationTable ctx
    let pmt := writeProgramMapTable pat.2
    (writeAccessUnit pcr pmt.2 m pkt).map fun r => (pat.1 ++ pmt.1 ++ r.1, r.2)
  else if pkt.stream_idx = 1 then writeAccessUnit pcr ctx m pkt
  else some ([], ctx)

/-- the writes of every packet; each comes with the memory it is read from -/
def run (ctx : AVFormatContext) :
    List (Mem × AVPacket) → Option (List (List CacheWrite) × AVFormatContext)
  | [] => some ([], ctx)
  | c :: calls =>
    match mpeg2tsWritePacket pcr ctx c.1 c.2 with
    | none => none
    | some (ws, ctx) => (run ctx calls).map fun r => (ws :: r.1, r.2)

end

/-! ## `Mpeg2tsMuxerDrv.c` -/

def mpeg2tsMuxerOpen : AVFormatContext where
  mChannelCnt := 0
  mSampleRate := 0
  mPATContinuityCounter := 0
  mPMTContinuityCounter := 0
  mTSContinuityCounter := fun _ => 0
  mCrcTable := fun _ => 0
  mTrackPid := fun _ => 0
  mTrackCSD := fun _ => []
  mTrackCnt := 0

/-- `Mpeg2tsMuxerIOCtrl` with `SET_TRACK_INFO`, for an H.264 video track -/
def setTrackInfo (ctx : AVFormatContext) (channelCnt sampleRate : Int) : AVFormatContext :=
  { ctx with mChannelCnt := channelCnt, mSampleRate := sampleRate }

def mpeg2tsMuxerWriteCSD (ctx : AVFormatContext) (csdData : Bytes) (t : CodecType) :
    AVFormatContext :=
  { ctx with mTrackCSD := Function.update ctx.mTrackCSD t csdData }

def mpeg2tsMuxerWriteHeader (ctx : AVFormatContext) : AVFormatContext :=
  if ctx.mSampleRate ≠ 0 ∧ ctx.mChannelCnt ≠ 0 then
    initCrcTable { ctx with
      mTrackCnt := 2
      mTrackPid := fun t => match t with
        | .video => 0x1E1
        | .audio => 0x1E2 }
  else
    initCrcTable { ctx with
      mTrackCnt := 1
      mTrackPid := fun t => match t with
        | .video => 0x1E1
        | .audio => 0 }

/-- a muxer with both tracks, ready for packets -/
def session (channelCnt sampleRate : Int) (videoCSD audioCSD : Bytes) : AVFormatContext :=
  mpeg2tsMuxerWriteHeader (mpeg2tsMuxerWriteCSD (mpeg2tsMuxerWriteCSD
    (setTrackInfo mpeg2tsMuxerOpen channelCnt sampleRate) videoCSD .video) audioCSD .audio)

end Pluto.Ts

import Pluto.Mp4.Avcc
import Pluto.Cache.Simple

/-!
# `Mp4Muxer.c`: the boxes of `moov`

For each box a function that computes its size and a function that writes it, size field first.
The two are written separately; nothing here says that they agree.

* `movGet…TagSize`, `movWrite…Tag`   the two functions of a box;
* `putLoop`                the loops that read a sample table through its read pointer;
* `movWriteMoovTag`        all of `moov`, with the `free` box that follows it when it fits in front
                           of `mdat`.

Sizes are `uint32_t` in the source and are cut to 32 bits where they are written.  A write function
that may not return, because the time scale of a track is zero or the CSD has no SPS, has an
`Option` for a result.
-/

namespace Pluto.Mp4
open Octets Boxes

/-- what the code asks of its surroundings: the date that `gmtime` returns, and the bytes of a block
that `malloc` returns -/
structure Env where
  tm_mon : Int
  tm_mday : Int
  tm_year : Int
  /-- the fields of `struct tm` are `int`s -/
  range : tm_mon.natAbs ≤ 2 ^ 31 ∧ tm_mday.natAbs ≤ 2 ^ 31 ∧ tm_year.natAbs ≤ 2 ^ 31
  heap : Nat → UInt8

/-! ## strings -/

def ascii (s : String) : Bytes := s.toList.map fun c => UInt8.ofNat c.toNat

/-- the characters before the first NUL -/
def cString (s : Bytes) : Bytes := s.takeWhile fun b => b ≠ 0

def strlen (s : Bytes) : Nat := (cString s).length

def digits (n : Nat) : Bytes := (Nat.toDigits 10 n).map fun c => UInt8.ofNat c.toNat

/-- `%d` -/
def decimal (n : Int) : Bytes := if n < 0 then ascii "-" ++ digits n.natAbs else digits n.natAbs

/-- `%.<prec>d` of a number that is not negative -/
def padded (prec n : Nat) : Bytes := List.replicate (prec - (digits n).length) 48 ++ digits n

/-- `title_info` after the first call of `movGetHdlrTagSize`, which fills an empty title -/
def titleInfo (env : Env) (mov : MOVContext) : Bytes :=
  if mov.title_info.head? = some 0 then
    let text := ascii "ISO Media file by ZJZ. Create on: " ++ decimal (env.tm_mon + 1) ++ ascii "/"
      ++ decimal env.tm_mday ++ ascii "/" ++ decimal (env.tm_year + 1900) ++ ascii "."
    text ++ [0] ++ mov.title_info.drop (text.length + 1)
  else mov.title_info

/-! ## the sample tables -/

/-- the value of `*cache_read_ptr++` and the context after it -/
def MOVContext.next (mov : MOVContext) (k : Table) : UInt32 × MOVContext :=
  (mov.mov_inf_cache (mov.cache_read_ptr k),
    { mov with cache_read_ptr := Function.update mov.cache_read_ptr k (mov.cache_read_ptr k + 1) })

/-- `n` rounds of a loop from index `i` on, each of which reads one word of the table and writes -/
def putLoop (k : Table) (write : Nat → UInt32 → List CacheWrite) :
    Nat → Nat → MOVContext → List CacheWrite × MOVContext
  | 0, _, mov => ([], mov)
  | n + 1, i, mov =>
    let r := mov.next k
    let rest := putLoop k write n (i + 1) r.2
    (write i r.1 ++ rest.1, rest.2)

def movGetStcoTagSize (track : MOVTrack) : Nat := (track.stco_size + 4) * 4

def movWriteStcoTag (mov : MOVContext) (track : MOVTrack) : List CacheWrite × MOVContext :=
  let entries := if track.stco_tiny_pages = 0 then
      putLoop (.stco, track.stream_type) (fun _ v => putBe32 v.toNat) track.stco_size 0 mov
    else ([], mov)
  (putBe32 (movGetStcoTagSize track) ++ putTag (fourcc 's' 't' 'c' 'o')
    ++ (putBe32 0 ++ putBe32 track.stco_size ++ entries.1), entries.2)

def movGetStszTagSize (track : MOVTrack) : Nat := (track.stsz_size + 5) * 4

def movWriteStszTag (mov : MOVContext) (track : MOVTrack) : List CacheWrite × MOVContext :=
  let entries := if track.stsz_tiny_pages = 0 then
      putLoop (.stsz, track.stream_type) (fun _ v => putBe32 v.toNat) track.stsz_size 0 mov
    else ([], mov)
  (putBe32 (movGetStszTagSize track) ++ putTag (fourcc 's' 't' 's' 'z')
    ++ (putBe32 0 ++ putBe32 0 ++ putBe32 track.stsz_size ++ entries.1), entries.2)

def movGetStscTagSize (track : MOVTrack) : Nat := (track.stsc_size * 3 + 4) * 4

def movWriteStscTag (mov : MOVContext) (track : MOVTrack) : List CacheWrite × MOVContext :=
  let entries := if track.stsc_tiny_pages = 0 then
      putLoop (.stsc, track.stream_type)
        (fun i v => putBe32 (i + 1) ++ putBe32 v.toNat ++ putBe32 1)
        track.stsc_size 0 mov
    else ([], mov)
  (putBe32 (movGetStscTagSize track) ++ putTag (fourcc 's' 't' 's' 'c')
    ++ (putBe32 0 ++ putBe32 track.stsc_size ++ entries.1), entries.2)

def movGetStssTagSize (track : MOVTrack) : Nat := (track.keyFrame_num + 4) * 4

def stssFields (mov : MOVContext) (track : MOVTrack) : List CacheWrite :=
  putBe32 0 ++ putBe32 track.keyFrame_num
    ++ (List.range track.keyFrame_num).flatMap fun i => putBe32 (mov.cache_keyframe i).toNat

def movWriteStssTag (mov : MOVContext) (track : MOVTrack) : List CacheWrite :=
  putBe32 (movGetStssTagSize track) ++ putTag (fourcc 's' 't' 's' 's') ++ stssFields mov track

def movGetSttsTagSize (track : MOVTrack) : Nat :=
  match track.enc.codec_type with
  | .audio => 16 + 1 * 8
  | .video => 16 + track.stts_size * 8

/-- a video track leaves out its first entry and has a last one of duration zero -/
def sttsFields (mov : MOVContext) (track : MOVTrack) : List CacheWrite × MOVContext :=
  match track.enc.codec_type with
  | .audio =>
    (putBe32 0 ++ putBe32 1 ++ (putBe32 track.stsz_size ++ putBe32 (u32 track.enc.frame_size)), mov)
  | .video =>
    let entries := if track.stts_tiny_pages = 0 then
        putLoop (.stts, track.stream_type)
          (fun i v => if i = 0 then [] else putBe32 1 ++ putBe32 v.toNat) track.stts_size 0 mov
      else ([], mov)
    (putBe32 0 ++ putBe32 track.stts_size ++ entries.1 ++ (putBe32 1 ++ putBe32 0), entries.2)

def movWriteSttsTag (mov : MOVContext) (track : MOVTrack) : List CacheWrite × MOVContext :=
  let entries := match track.enc.codec_type with
    | .audio => 1
    | .video => track.stts_size
  let fields := sttsFields mov track
  (putBe32 (16 + entries * 8) ++ putTag (fourcc 's' 't' 't' 's') ++ fields.1, fields.2)

/-! ## `esds` -/

/-- `for (i=1; len>>(7*i); i++)`; a 32-bit length leaves it at `5` or before -/
def descrLoop (len : Nat) : Nat → Nat → Nat
  | 0, i => i
  | n + 1, i => if len >>> (7 * i) = 0 then i else descrLoop len n (i + 1)

def descrLength (len : Nat) : Nat := len + 1 + descrLoop len 4 1

def putDescr (tag size : Nat) : List CacheWrite :=
  let i := descrLength size - size - 2
  putByte tag ++ ((List.range i).reverse.flatMap fun j =>
    putByte ((size >>> (7 * (j + 1))) ||| 0x80))
    ++ putByte (size &&& 0x7F)

/-- `DecoderSpecificInfoSize` -/
def decoderSpecificInfoLen (track : MOVTrack) : Nat :=
  if track.csdData.val.length ≠ 0 then descrLength track.csdData.val.length else 0

def movGetEsdsTagSize (track : MOVTrack) : Nat :=
  12 + descrLength (3 + descrLength (13 + decoderSpecificInfoLen track) + descrLength 1)

def esdsFields (track : MOVTrack) : List CacheWrite :=
  putBe32 0
    ++ putDescr 3 (3 + descrLength (13 + decoderSpecificInfoLen track) + descrLength 1)
    ++ putBe16 (u32 track.trackID) ++ putByte 0
    ++ putDescr 4 (13 + decoderSpecificInfoLen track)
    ++ putByte track.enc.codec_id ++ putByte (if track.enc.codec_type = .audio then 0x15 else 0x11)
    ++ putByte 0 ++ putBe16 0 ++ putBe32 0 ++ putBe32 0
    ++ (if track.csdData.val.length ≠ 0 then putDescr 5 track.csdData.val.length
      ++ putBuffer track.csdData.val else [])
    ++ putDescr 6 1 ++ putByte 2

def movWriteEsdsTag (track : MOVTrack) : List CacheWrite :=
  putBe32 (movGetEsdsTagSize track) ++ putTag (fourcc 'e' 's' 'd' 's') ++ esdsFields track

/-! ## `stsd` -/

def movGetAvccTagSize (env : Env) (track : MOVTrack) : Nat :=
  8 + ffIsomGetAvccSize env.heap track.csdData.val

def movWriteAvccTag (env : Env) (track : MOVTrack) : Option (List CacheWrite) :=
  (ffIsomWriteAvcc env.heap track.csdData.val).map fun body =>
    putBe32 (movGetAvccTagSize env track) ++ putTag (fourcc 'a' 'v' 'c' 'C') ++ body

/-- `MKTAG` -/
def mkTag (a b c d : Char) : Nat := a.toNat + b.toNat * 2 ^ 8 + c.toNat * 2 ^ 16 + d.toNat * 2 ^ 24

def movGetAudioTagSize (track : MOVTrack) : Nat :=
  16 + 8 + 12 + if track.tag = mkTag 'm' 'p' '4' 'a' then movGetEsdsTagSize track else 0

def audioFields (track : MOVTrack) : List CacheWrite :=
  putBe32 0 ++ putBe16 0 ++ putBe16 1
    ++ putBe16 0 ++ putBe16 0 ++ putBe32 0
    ++ putBe16 (u32 track.enc.channels) ++ putBe16 (u32 track.enc.bits_per_sample) ++ putBe16 0
    ++ putBe16 0 ++ putBe16 (u32 track.enc.sample_rate) ++ putBe16 0

def movWriteAudioTag (track : MOVTrack) : List CacheWrite :=
  putBe32 (movGetAudioTagSize track) ++ putLe32 track.tag
    ++ (audioFields track ++ if track.tag = mkTag 'm' 'p' '4' 'a' then movWriteEsdsTag track
      else [])

def movFindCodecTag (enc : AVCodecContext) : Nat :=
  if enc.codec_id = codecIdH264 then mkTag 'a' 'v' 'c' '1'
  else if enc.codec_id = codecIdMpeg4 then mkTag 'm' 'p' '4' 'v'
  else if enc.codec_id = codecIdAac then mkTag 'm' 'p' '4' 'a'
  else if enc.codec_id = codecIdPcm then mkTag 's' 'o' 'w' 't'
  else if enc.codec_id = codecIdAdpcm then mkTag 'm' 's' '\x00' '\x11'
  else if enc.codec_id = codecIdMjpeg then mkTag 'm' 'j' 'p' 'a'
  else enc.codec_tag

def movGetVideoTagSize (env : Env) (track : MOVTrack) : Nat :=
  16 + 4 + 12 + 18 + 32 + 4
    + if track.tag = mkTag 'a' 'v' 'c' '1' then movGetAvccTagSize env track
      else if track.tag = mkTag 'm' 'p' '4' 'v' then movGetEsdsTagSize track
      else 0

def videoFields (track : MOVTrack) : List CacheWrite :=
  putBe32 0 ++ putBe16 0 ++ putBe16 1
    ++ putBe16 0 ++ putBe16 0 ++ putBe32 0 ++ putBe32 0 ++ putBe32 0
    ++ putBe16 (u32 track.enc.width) ++ putBe16 (u32 track.enc.height)
    ++ putBe32 0x00480000 ++ putBe32 0x00480000 ++ putBe32 0 ++ putBe16 1
    ++ putByte (strlen (zeros 32)) ++ putBuffer ((zeros 32).take 31)
    ++ putBe16 0x18 ++ putBe16 0xffff

/-- the box inside the sample entry -/
def writeVideoCodec (env : Env) (track : MOVTrack) : Option (List CacheWrite) :=
  if track.tag = mkTag 'a' 'v' 'c' '1' then movWriteAvccTag env track
  else if track.tag = mkTag 'm' 'p' '4' 'v' then some (movWriteEsdsTag track)
  else some []

def movWriteVideoTag (env : Env) (track : MOVTrack) : Option (List CacheWrite) :=
  (writeVideoCodec env track).map fun codec =>
    putBe32 (movGetVideoTagSize env track) ++ putLe32 track.tag ++ (videoFields track ++ codec)

def movGetStsdTagSize (env : Env) (track : MOVTrack) : Nat :=
  16 + match track.enc.codec_type with
    | .video => movGetVideoTagSize env track
    | .audio => movGetAudioTagSize track

/-- the sample entry -/
def writeSampleEntry (env : Env) (track : MOVTrack) : Option (List CacheWrite) :=
  match track.enc.codec_type with
  | .video => movWriteVideoTag env track
  | .audio => some (movWriteAudioTag track)

def movWriteStsdTag (env : Env) (track : MOVTrack) : Option (List CacheWrite) :=
  (writeSampleEntry env track).map fun entry =>
    putBe32 (movGetStsdTagSize env track) ++ putTag (fourcc 's' 't' 's' 'd')
      ++ (putBe32 0 ++ putBe32 1 ++ entry)

/-! ## `stbl` -/

def movGetStblTagSize (env : Env) (track : MOVTrack) : Nat :=
  8 + movGetStsdTagSize env track + movGetSttsTagSize track
    + (if track.enc.codec_type = .video then movGetStssTagSize track else 0)
    + movGetStscTagSize track + movGetStszTagSize track + movGetStcoTagSize track

def movWriteStblTag (env : Env) (mov : MOVContext) (track : MOVTrack) :
    Option (List CacheWrite × MOVContext) :=
  (movWriteStsdTag env track).map fun stsd =>
    let stts := movWriteSttsTag mov track
    let stss := if track.enc.codec_type = .video then movWriteStssTag stts.2 track else []
    let stsc := movWriteStscTag stts.2 track
    let stsz := movWriteStszTag stsc.2 track
    let stco := movWriteStcoTag stsz.2 track
    (putBe32 (movGetStblTagSize env track) ++ putTag (fourcc 's' 't' 'b' 'l')
      ++ (stsd ++ stts.1 ++ stss ++ stsc.1 ++ stsz.1 ++ stco.1), stco.2)

/-! ## `minf` -/

def movGetDrefTagSize : Nat := 28

def movWriteDrefTag : List CacheWrite :=
  putBe32 movGetDrefTagSize ++ putTag (fourcc 'd' 'r' 'e' 'f')
    ++ (putBe32 0 ++ putBe32 1
      ++ (putBe32 0xc ++ putTag (fourcc 'u' 'r' 'l' ' ') ++ putBe32 1))

def movGetDinfTagSize : Nat := 8 + movGetDrefTagSize

def movWriteDinfTag : List CacheWrite :=
  putBe32 movGetDinfTagSize ++ putTag (fourcc 'd' 'i' 'n' 'f') ++ movWriteDrefTag

def movGetSmhdTagSize : Nat := 16

def smhdFields : List CacheWrite := putBe32 0 ++ putBe16 0 ++ putBe16 0

def movWriteSmhdTag : List CacheWrite :=
  putBe32 movGetSmhdTagSize ++ putTag (fourcc 's' 'm' 'h' 'd') ++ smhdFields

def movGetVmhdTagSize : Nat := 0x14

def vmhdFields : List CacheWrite := putBe32 1 ++ putBe32 0 ++ putBe32 0

def movWriteVmhdTag : List CacheWrite :=
  putBe32 movGetVmhdTagSize ++ putTag (fourcc 'v' 'm' 'h' 'd') ++ vmhdFields

/-- the header of the media type -/
def writeMediaHeader (track : MOVTrack) : List CacheWrite :=
  match track.enc.codec_type with
  | .video => movWriteVmhdTag
  | .audio => movWriteSmhdTag

def movGetMinfTagSize (env : Env) (track : MOVTrack) : Nat :=
  8 + (match track.enc.codec_type with
      | .video => movGetVmhdTagSize
      | .audio => movGetSmhdTagSize)
    + movGetDinfTagSize + movGetStblTagSize env track

def movWriteMinfTag (env : Env) (mov : MOVContext) (track : MOVTrack) :
    Option (List CacheWrite × MOVContext) :=
  (movWriteStblTag env mov track).map fun stbl =>
    (putBe32 (movGetMinfTagSize env track) ++ putTag (fourcc 'm' 'i' 'n' 'f')
      ++ (writeMediaHeader track ++ movWriteDinfTag ++ stbl.1), stbl.2)

/-! ## `mdia` -/

def movGetHdlrTagSize (env : Env) (mov : MOVContext) : Nat := 32 + 1 + strlen (titleInfo env mov)

def hdlrType : CodecType → Tag
  | .video => fourcc 'v' 'i' 'd' 'e'
  | .audio => fourcc 's' 'o' 'u' 'n'

def hdlrFields (env : Env) (mov : MOVContext) (track : MOVTrack) : List CacheWrite :=
  putBe32 0 ++ putBuffer (zeros 4) ++ putTag (hdlrType track.enc.codec_type)
    ++ putBe32 0 ++ putBe32 0 ++ putBe32 0
    ++ putBuffer ((titleInfo env mov).take (strlen (titleInfo env mov))) ++ putByte 0

def movWriteHdlrTag (env : Env) (mov : MOVContext) (track : MOVTrack) : List CacheWrite :=
  putBe32 (movGetHdlrTagSize env mov) ++ putTag (fourcc 'h' 'd' 'l' 'r') ++ hdlrFields env mov track

def movGetMdhdTagSize : Nat := 0x20

def mdhdFields (track : MOVTrack) : List CacheWrite :=
  putByte 0 ++ putBe24 0 ++ putBe32 (u32 track.time) ++ putBe32 (u32 track.time)
    ++ putBe32 (u32 track.timescale) ++ putBe32 (u32 track.trackDuration) ++ putBe16 0 ++ putBe16 0

def movWriteMdhdTag (track : MOVTrack) : List CacheWrite :=
  putBe32 movGetMdhdTagSize ++ putTag (fourcc 'm' 'd' 'h' 'd') ++ mdhdFields track

def movGetMdiaTagSize (env : Env) (mov : MOVContext) (track : MOVTrack) : Nat :=
  8 + movGetMdhdTagSize + movGetHdlrTagSize env mov + movGetMinfTagSize env track

def movWriteMdiaTag (env : Env) (mov : MOVContext) (track : MOVTrack) :
    Option (List CacheWrite × MOVContext) :=
  (movWriteMinfTag env mov track).map fun minf =>
    (putBe32 (movGetMdiaTagSize env mov track) ++ putTag (fourcc 'm' 'd' 'i' 'a')
      ++ (movWriteMdhdTag track ++ movWriteHdlrTag env mov track ++ minf.1), minf.2)

/-! ## `trak` -/

def avRescaleRnd (a b c : Int) : Int := (a * b + c - 1).tdiv c

/-- the entries `a`, `b`, `c`, `d` of the matrix -/
def rotation (degrees : Int) : Nat × Nat × Nat × Nat :=
  if degrees = 90 then (0, 0x00010000, 0xFFFF0000, 0)
  else if degrees = 180 then (0xFFFF0000, 0, 0, 0xFFFF0000)
  else if degrees = 270 then (0, 0xFFFF0000, 0x00010000, 0)
  else (0x00010000, 0, 0, 0x00010000)

def movGetTkhdTagSize : Nat := 0x5c

def tkhdFields (track : MOVTrack) : List CacheWrite :=
  let duration := avRescaleRnd track.trackDuration globalTimescale track.timescale
  let (a, b, c, d) := rotation track.enc.rotate_degree
  putByte 0 ++ putBe24 0xf ++ putBe32 (u32 track.time) ++ putBe32 (u32 track.time)
    ++ putBe32 (u32 track.trackID) ++ putBe32 0 ++ putBe32 (u32 duration)
    ++ putBe32 0 ++ putBe32 0 ++ putBe32 0
    ++ putBe16 (if track.enc.codec_type = .audio then 0x0100 else 0) ++ putBe16 0
    ++ putBe32 a ++ putBe32 b ++ putBe32 0 ++ putBe32 c ++ putBe32 d ++ putBe32 0
    ++ putBe32 0 ++ putBe32 0 ++ putBe32 0x40000000
    ++ putBe32 (if track.enc.codec_type = .video then u32 (track.enc.width * 0x10000) else 0)
    ++ putBe32 (if track.enc.codec_type = .video then u32 (track.enc.height * 0x10000) else 0)

/-- the duration is divided by the time scale -/
def movWriteTkhdTag (track : MOVTrack) : Option (List CacheWrite) :=
  if track.timescale = 0 then none
  else some (putBe32 movGetTkhdTagSize ++ putTag (fourcc 't' 'k' 'h' 'd') ++ tkhdFields track)

def movGetTrakTagSize (env : Env) (mov : MOVContext) (track : MOVTrack) : Nat :=
  8 + movGetTkhdTagSize + movGetMdiaTagSize env mov track

def movWriteTrakTag (env : Env) (mov : MOVContext) (track : MOVTrack) :
    Option (List CacheWrite × MOVContext) :=
  match movWriteTkhdTag track, movWriteMdiaTag env mov track with
  | some tkhd, some mdia =>
    some (putBe32 (movGetTrakTagSize env mov track) ++ putTag (fourcc 't' 'r' 'a' 'k')
      ++ (tkhd ++ mdia.1), mdia.2)
  | _, _ => none

/-! ## `moov` -/

/-- the indices below `n`; the context has two tracks -/
def streamsBelow (n : Nat) : List CodecType := [CodecType.video, CodecType.audio].take n

def movGetMvhdTagSize : Nat := 108

def mvhdFields (mov : MOVContext) : List CacheWrite :=
  let maxTrackID := (streamsBelow mov.nb_streams).foldl (fun m i => max m (mov.tracks i).trackID) 1
  putByte 0 ++ putBe24 0 ++ putBe32 (u32 mov.create_time) ++ putBe32 (u32 mov.create_time)
    ++ putBe32 (u32 mov.timescale) ++ putBe32 (u32 (mov.tracks .video).trackDuration)
    ++ putBe32 0x00010000 ++ putBe16 0x0100 ++ putBe16 0 ++ putBe32 0 ++ putBe32 0
    ++ putBe32 0x00010000 ++ putBe32 0 ++ putBe32 0 ++ putBe32 0 ++ putBe32 0x00010000
    ++ putBe32 0 ++ putBe32 0 ++ putBe32 0 ++ putBe32 0x40000000
    ++ putBe32 0 ++ putBe32 0 ++ putBe32 0 ++ putBe32 0 ++ putBe32 0 ++ putBe32 0
    ++ putBe32 (u32 (maxTrackID + 1))

def movWriteMvhdTag (mov : MOVContext) : List CacheWrite :=
  putBe32 movGetMvhdTagSize ++ putTag (fourcc 'm' 'v' 'h' 'd') ++ mvhdFields mov

/-- `writeLatitude` (`whole = 2`) and `writeLongitude` (`whole = 3`): sign, whole part, a dot, and
four digits; `snprintf` cuts each part -/
def writeDegrees (whole : Nat) (degreex10000 : Int) : List CacheWrite :=
  let wholePart := degreex10000.tdiv 10000
  let sign := if wholePart = 0 then (if degreex10000 < 0 then ascii "-" else ascii "+")
    else if wholePart < 0 then ascii "-" else ascii "+"
  let fractionalPart := (degreex10000 - wholePart * 10000).natAbs
  putBuffer ((sign ++ padded whole wholePart.natAbs ++ ascii ".").take (whole + 2)
    ++ (padded 4 fractionalPart).take 4)

def movGetUdtaTagSize : Nat := 4 + 4 + 4 + 4 + 4 + 8 + 9 + 1

def xyzFields (mov : MOVContext) : List CacheWrite :=
  putBe32 0x001215c7 ++ writeDegrees 2 mov.latitudex10000 ++ writeDegrees 3 mov.longitudex10000
    ++ putByte 0x2F

def movWriteUdtaTag (mov : MOVContext) : List CacheWrite :=
  putBe32 movGetUdtaTagSize ++ putTag (fourcc 'u' 'd' 't' 'a')
    ++ (putBe32 (movGetUdtaTagSize - 8) ++ putTag (fourcc '\xa9' 'x' 'y' 'z') ++ xyzFields mov)

/-- the tracks with a sample -/
def writtenTracks (mov : MOVContext) : List CodecType :=
  (streamsBelow mov.nb_streams).filter fun i => (mov.tracks i).stsz_size > 0

def movGetMoovTagSize (env : Env) (mov : MOVContext) : Nat :=
  8 + (if mov.geo_available then movGetUdtaTagSize else 0) + movGetMvhdTagSize
    + ((writtenTracks mov).map fun i => movGetTrakTagSize env mov (mov.tracks i)).sum

def movWriteFreeTag (size : Nat) : List CacheWrite :=
  putBe32 size ++ putTag (fourcc 'f' 'r' 'e' 'e')

/-- the title is filled when the size of a track is asked for -/
def MOVContext.fillTitle (mov : MOVContext) (env : Env) : MOVContext :=
  if writtenTracks mov = [] then mov else { mov with title_info := titleInfo env mov }

/-- the loop in front of `mvhd` -/
def MOVContext.nameTracks (mov : MOVContext) : MOVContext :=
  { mov with
    timescale := globalTimescale
    tracks := fun i =>
      if i ∈ streamsBelow mov.nb_streams then
        { mov.tracks i with
          time := mov.create_time
          trackID := if i = .video then 1 else 2
          stream_type := i }
      else mov.tracks i }

def movWriteTraks (env : Env) : List CodecType → MOVContext → Option (List CacheWrite × MOVContext)
  | [], mov => some ([], mov)
  | i :: is, mov =>
    (movWriteTrakTag env mov (mov.tracks i)).bind fun trak =>
      (movWriteTraks env is trak.2).map fun rest => (trak.1 ++ rest.1, rest.2)

def writeOps (ws : List CacheWrite) : List CacheOp := ws.map fun w => .write w.bytes

/-- `moov_size` as the `int` that is compared -/
def moovSize (env : Env) (mov : MOVContext) : Int :=
  ((movGetMoovTagSize env mov : Int)).bmod (2 ^ 32)

/-- the box itself, and the context after it -/
def movWriteMoovBox (env : Env) (mov : MOVContext) : Option (List CacheWrite × MOVContext) :=
  let size := moovSize env mov
  let mov := (mov.fillTitle env).nameTracks
  (movWriteTraks env (writtenTracks mov) mov).map fun traks =>
    (putBe32 (u32 size) ++ putTag (fourcc 'm' 'o' 'o' 'v')
      ++ ((if mov.geo_available then movWriteUdtaTag mov else []) ++ movWriteMvhdTag mov
        ++ traks.1), traks.2)

/-- `moov_size + 28 + 8 <= MOV_HEADER_RESERVE_SIZE` -/
def moovFits (env : Env) (mov : MOVContext) : Prop :=
  moovSize env mov + 28 + 8 ≤ movHeaderReserveSize

instance (env : Env) (mov : MOVContext) : Decidable (moovFits env mov) :=
  inferInstanceAs (Decidable (_ ≤ _))

def movWriteMoovTag (env : Env) (mov : MOVContext) : Option (List CacheOp × MOVContext) :=
  (movWriteMoovBox env mov).map fun box =>
    ((if moovFits env mov then [CacheOp.seek mov.free_pos .seekSet] else [])
      ++ writeOps box.1
      ++ (if moovFits env mov then
        writeOps (movWriteFreeTag (u32 (movHeaderReserveSize - moovSize env mov - 28)))
        else []), box.2)

end Pluto.Mp4

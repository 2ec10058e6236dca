import Pluto.Mp4.Session
import Pluto.Mp4.StartCodes

/-!
# `moov` is a nested box tree

* `moovShape`            the boxes of `moov` with the number of bytes of their fields, as the sizes
                         are computed by the `movGet…TagSize` functions;
* `moovBox_shape`        the boxes that are written have this shape;
* `moovTagSize_le`       the size of `moov`, for tables within their capacity;
* `moov_nested`          in every session the bytes of `moov` are boxes of this shape.
-/

namespace Pluto.Mp4
open Octets Boxes SampleTables

/-! ## shapes -/

def codecShapes (env : Env) (track : MOVTrack) : List Shape :=
  match track.enc.codec_type with
  | .video =>
    if track.tag = mkTag 'a' 'v' 'c' '1' then
      [.mk (fourcc 'a' 'v' 'c' 'C') (ffIsomGetAvccSize env.heap track.csdData.val) []]
    else if track.tag = mkTag 'm' 'p' '4' 'v' then
      [.mk (fourcc 'e' 's' 'd' 's') (movGetEsdsTagSize track - 8) []]
    else []
  | .audio =>
    if track.tag = mkTag 'm' 'p' '4' 'a' then
      [.mk (fourcc 'e' 's' 'd' 's') (movGetEsdsTagSize track - 8) []] else []

def entryShape (env : Env) (track : MOVTrack) : Shape :=
  .mk (leTag track.tag) (match track.enc.codec_type with
    | .video => 78
    | .audio => 28) (codecShapes env track)

def syncShapes (track : MOVTrack) : List Shape :=
  if track.enc.codec_type = .video then
    [.mk (fourcc 's' 't' 's' 's') (8 + 4 * track.keyFrame_num) []] else []

def stblShape (env : Env) (track : MOVTrack) : Shape :=
  .mk (fourcc 's' 't' 'b' 'l') 0
    ([.mk (fourcc 's' 't' 's' 'd') 8 [entryShape env track],
      .mk (fourcc 's' 't' 't' 's') (movGetSttsTagSize track - 8) []]
      ++ syncShapes track
      ++ [.mk (fourcc 's' 't' 's' 'c') (8 + 12 * track.stsc_size) [],
        .mk (fourcc 's' 't' 's' 'z') (12 + 4 * track.stsz_size) [],
        .mk (fourcc 's' 't' 'c' 'o') (8 + 4 * track.stco_size) []])

def mhdShape (track : MOVTrack) : Shape :=
  match track.enc.codec_type with
  | .video => .mk (fourcc 'v' 'm' 'h' 'd') 12 []
  | .audio => .mk (fourcc 's' 'm' 'h' 'd') 8 []

def minfShape (env : Env) (track : MOVTrack) : Shape :=
  .mk (fourcc 'm' 'i' 'n' 'f') 0
    [mhdShape track,
      .mk (fourcc 'd' 'i' 'n' 'f') 0
        [.mk (fourcc 'd' 'r' 'e' 'f') 8 [.mk (fourcc 'u' 'r' 'l' ' ') 4 []]],
      stblShape env track]

def trakShape (env : Env) (mov : MOVContext) (track : MOVTrack) : Shape :=
  .mk (fourcc 't' 'r' 'a' 'k') 0
    [.mk (fourcc 't' 'k' 'h' 'd') 84 [],
      .mk (fourcc 'm' 'd' 'i' 'a') 0
        [.mk (fourcc 'm' 'd' 'h' 'd') 24 [],
          .mk (fourcc 'h' 'd' 'l' 'r') (25 + strlen (titleInfo env mov)) [],
          minfShape env track]]

def udtaShapes (mov : MOVContext) : List Shape :=
  if mov.geo_available then [.mk (fourcc 'u' 'd' 't' 'a') 0 [.mk (fourcc '\xa9' 'x' 'y' 'z') 22 []]]
    else []

def moovShape (env : Env) (mov : MOVContext) : Shape :=
  .mk (fourcc 'm' 'o' 'o' 'v') 0
    (udtaShapes mov ++ .mk (fourcc 'm' 'v' 'h' 'd') 100 [] ::
      (writtenTracks mov).map fun i => trakShape env mov (mov.tracks i))

theorem shapes_append (ts us : List Box) : shapes (ts ++ us) = shapes ts ++ shapes us := by
  induction ts with
  | nil => rfl
  | cons t ts ih => rw [List.cons_append, shapes, ih, shapes, List.cons_append]

theorem shapes_map {α : Type} (l : List α) (f : α → Box) :
    shapes (l.map f) = l.map fun a => (f a).shape := by
  induction l with
  | nil => rfl
  | cons a l ih => rw [List.map_cons, shapes, ih, List.map_cons]

theorem leaf_shape {tag : Tag} {fields : Bytes} {n : Nat}
    (h : (leaf tag fields).encode.length = 8 + n) :
    (leaf tag fields).shape = .mk tag n [] := by
  rw [leaf_length] at h
  rw [leaf, Box.shape, shapes, Nat.add_left_cancel h]

theorem codec_shapes {env : Env} {track : MOVTrack} (h : Describable env track) :
    shapes (codecBoxes env track) = codecShapes env track := by
  have hesds : (esdsBox track).shape
      = .mk (fourcc 'e' 's' 'd' 's') (movGetEsdsTagSize track - 8) [] := by
    refine leaf_shape ?_
    have hlen := esds_length track
    rw [esdsBox, leaf_length] at hlen
    rw [leaf_length]
    omega
  unfold codecBoxes codecShapes Describable at *
  cases hty : track.enc.codec_type with
  | video =>
    dsimp only
    by_cases h264 : track.tag = mkTag 'a' 'v' 'c' '1'
    · have hsome := (ffIsomWriteAvcc_isSome env.heap track.csdData.val).mpr (h hty h264)
      obtain ⟨ws, hws⟩ := Option.isSome_iff_exists.mp hsome
      have hlen := ffIsomWriteAvcc_length (track.csdData.property.trans (by norm_num)) hws
      rw [if_pos h264, if_pos h264, shapes, shapes, avccBox, hws]
      refine congrArg (fun s => [s]) (leaf_shape ?_)
      rw [leaf_length]
      exact congrArg (8 + ·) hlen
    · rw [if_neg h264, if_neg h264]
      split
      · rw [shapes, shapes, hesds]
      · rfl
  | audio =>
    dsimp only
    split
    · rw [shapes, shapes, hesds]
    · rfl

theorem stbl_shape {env : Env} (mov : MOVContext) {track : MOVTrack} (hp : Plain track)
    (h : Describable env track) :
    (stblBox env mov track).shape = stblShape env track := by
  have hentry : (entryBox env track).shape = entryShape env track := by
    rw [entryBox, Box.shape, codec_shapes h, entryShape]
    congr 1
    unfold entryFields
    cases track.enc.codec_type with
    | video => exact videoFields_length track
    | audio => exact audioFields_length track
  have hstsd : (stsdBox env track).shape
      = .mk (fourcc 's' 't' 's' 'd') 8 [entryShape env track] := by
    rw [stsdBox, Box.shape, shapes, shapes, hentry]
    rfl
  have hstts : (sttsBox mov track).shape
      = .mk (fourcc 's' 't' 't' 's') (movGetSttsTagSize track - 8) [] := by
    refine leaf_shape ?_
    have hlen := stts_length mov hp
    rw [sttsBox, leaf_length] at hlen
    rw [leaf_length]
    omega
  have hstss : shapes (syncBoxes mov track) = syncShapes track := by
    unfold syncBoxes syncShapes
    split
    · have hlen := stss_length mov track
      rw [shapes, shapes]
      refine congrArg (fun s => [s]) (leaf_shape ?_)
      rw [stssBox, movGetStssTagSize] at hlen
      omega
    · rfl
  have hstsc : (stscBox mov track).shape
      = .mk (fourcc 's' 't' 's' 'c') (8 + 12 * track.stsc_size) [] := by
    have hlen := stsc_length mov track
    rw [stscBox, movGetStscTagSize] at hlen
    refine leaf_shape ?_
    omega
  have hstsz : (stszBox mov track).shape
      = .mk (fourcc 's' 't' 's' 'z') (12 + 4 * track.stsz_size) [] := by
    have hlen := stsz_length mov track
    rw [stszBox, movGetStszTagSize] at hlen
    refine leaf_shape ?_
    omega
  have hstco : (stcoBox mov track).shape
      = .mk (fourcc 's' 't' 'c' 'o') (8 + 4 * track.stco_size) [] := by
    have hlen := stco_length mov track
    rw [stcoBox, movGetStcoTagSize] at hlen
    refine leaf_shape ?_
    omega
  rw [stblBox, Box.shape, shapes_append, shapes_append, stblShape, hstss]
  simp only [shapes, hstsd, hstts, hstsc, hstsz, hstco, List.length_nil]

theorem trak_shape {env : Env} (mov : MOVContext) {track : MOVTrack} (hp : Plain track)
    (h : Describable env track) :
    (trakBox env mov track).shape = trakShape env mov track := by
  have htkhd : (tkhdBox track).shape = .mk (fourcc 't' 'k' 'h' 'd') 84 [] :=
    leaf_shape (tkhd_length track).symm
  have hmdhd : (mdhdBox track).shape = .mk (fourcc 'm' 'd' 'h' 'd') 24 [] :=
    leaf_shape (mdhd_length track).symm
  have hhdlr : (hdlrBox env mov track).shape
      = .mk (fourcc 'h' 'd' 'l' 'r') (25 + strlen (titleInfo env mov)) [] := by
    refine leaf_shape ?_
    rw [leaf_length, hdlrFields_length]
  have hmhd : (mhdBox track).shape = mhdShape track := by
    unfold mhdBox mhdShape
    cases track.enc.codec_type with
    | video =>
      refine leaf_shape ?_
      rw [← emitted_vmhd]
      rfl
    | audio =>
      refine leaf_shape ?_
      rw [← emitted_smhd]
      rfl
  have hdinf : dinfBox.shape
      = .mk (fourcc 'd' 'i' 'n' 'f') 0
        [.mk (fourcc 'd' 'r' 'e' 'f') 8 [.mk (fourcc 'u' 'r' 'l' ' ') 4 []]] := rfl
  rw [trakBox, mdiaBox, minfBox, trakShape, minfShape]
  simp only [Box.shape, shapes, htkhd, hmdhd, hhdlr, hmhd, hdinf, stbl_shape mov hp h,
    List.length_nil]

/-- **The boxes of `moov` have the computed shape.** -/
theorem moovBox_shape {env : Env} {mov : MOVContext}
    (hplain : ∀ i ∈ writtenTracks mov, Plain (mov.tracks i))
    (h : ∀ i ∈ writtenTracks mov, Describable env (mov.tracks i)) :
    (moovBox env (mov.prepared env)).shape = moovShape env mov := by
  have hgeo : (mov.prepared env).geo_available = mov.geo_available := by
    unfold MOVContext.prepared MOVContext.fillTitle
    split <;> rfl
  have hudta : shapes (udtaBoxes (mov.prepared env)) = udtaShapes mov := by
    unfold udtaBoxes udtaShapes
    rw [hgeo]
    split
    · have hxyz : (leaf (fourcc '\xa9' 'x' 'y' 'z') (emitted (xyzFields (mov.prepared env)))).shape
          = .mk (fourcc '\xa9' 'x' 'y' 'z') 22 [] := by
        refine leaf_shape ?_
        rw [leaf_length, xyzFields_length]
      simp only [shapes, Box.shape, hxyz, List.length_nil]
    · rfl
  have hmvhd : (mvhdBox (mov.prepared env)).shape = .mk (fourcc 'm' 'v' 'h' 'd') 100 [] :=
    leaf_shape (mvhd_length _).symm
  have htraks : (writtenTracks mov).map
      (fun i => (trakBox env (mov.prepared env) ((mov.prepared env).tracks i)).shape)
      = (writtenTracks mov).map fun i => trakShape env mov (mov.tracks i) := by
    apply List.map_congr_left
    intro i hi
    have hp := hplain i hi
    rw [prepared_tracks env mov i (written_below hi).1]
    have hp' : Plain { mov.tracks i with
        time := mov.create_time
        trackID := if i = .video then 1 else 2
        stream_type := i } := ⟨hp.stsz, hp.stco, hp.stsc, hp.stts, hp.duration⟩
    rw [trak_shape (mov.prepared env) hp' (h i hi)]
    unfold trakShape
    rw [titleInfo_prepared]
    rfl
  rw [moovBox, Box.shape, shapes_append, hudta, shapes, hmvhd, shapes_map, prepared_written, htraks]
  rfl

/-! ## sizes -/

theorem descrLoop_le (len n i : Nat) : descrLoop len n i ≤ i + n := by
  induction n generalizing i with
  | zero => exact le_rfl
  | succ n ih =>
    rw [descrLoop]
    split
    · exact Nat.le_add_right _ _
    · exact (ih (i + 1)).trans (by omega)

theorem descrLength_le (len : Nat) : descrLength len ≤ len + 6 := by
  have := descrLoop_le len 4 1
  unfold descrLength
  omega

theorem decoderSpecificInfo_le (track : MOVTrack) :
    decoderSpecificInfoLen track ≤ track.csdData.val.length + 6 := by
  unfold decoderSpecificInfoLen
  split
  · exact descrLength_le _
  · exact Nat.zero_le _

theorem esds_le (track : MOVTrack) : movGetEsdsTagSize track ≤ track.csdData.val.length + 53 := by
  have hcsd := decoderSpecificInfo_le track
  have h1 := descrLength_le (13 + decoderSpecificInfoLen track)
  have h2 := descrLength_le 1
  have h3 := descrLength_le (3 + descrLength (13 + decoderSpecificInfoLen track) + descrLength 1)
  unfold movGetEsdsTagSize
  omega

/-- the record of the CSD holds one SPS and one PPS, of the units that the CSD is made of -/
theorem avcc_le (heap : Nat → UInt8) {data : Bytes} (hdata : data.length < 2 ^ 32) :
    ffIsomGetAvccSize heap data ≤ data.length + 11 := by
  unfold ffIsomGetAvccSize
  by_cases h6 : data.length > 6
  · rw [if_pos h6]
    by_cases hs : hasStartCode data
    · have hunits :=
        nalUnitsAt_total 0 data.length (ffAvcFindStartcodeAt_spec 0 (Nat.zero_le data.length)).2
      have hsets :=
        scanSets_total (ffAvcParseNalUnits data)
          (nalUnits data data.length (ffAvcFindStartcode data 0)) 0
        ⟨none, 0, none, 0⟩
      rw [nalUnitsAt_zero, ffAvcFindStartcodeAt_zero] at hunits
      rw [← (parameterSets_spec hdata heap).1] at hsets
      rw [if_pos hs]
      dsimp only at hsets ⊢
      omega
    · rw [if_neg hs]
      omega
  · rw [if_neg h6]
    exact Nat.zero_le _

theorem digits_length {n : Nat} (h : n < 10 ^ 10) : (digits n).length ≤ 10 := by
  rw [digits, List.length_map]
  exact Nat.toDigits_length 10 n 10 (by norm_num) h

theorem decimal_length {n : Int} (h : n.natAbs < 10 ^ 10) : (decimal n).length ≤ 11 := by
  have := digits_length h
  have hsign : (ascii "-").length = 1 := rfl
  unfold decimal
  split
  · rw [List.length_append, hsign]
    omega
  · omega

/-- the title fits into its array -/
theorem title_le (env : Env) {mov : MOVContext} (h : mov.title_info.length = 128) :
    strlen (titleInfo env mov) ≤ 128 := by
  refine (strlen_le _).trans ?_
  obtain ⟨hmon, hday, hyear⟩ := env.range
  have h1 : (decimal (env.tm_mon + 1)).length ≤ 11 := decimal_length (by omega)
  have h2 : (decimal env.tm_mday).length ≤ 11 := decimal_length (by omega)
  have h3 : (decimal (env.tm_year + 1900)).length ≤ 11 := decimal_length (by omega)
  have htext : (ascii "ISO Media file by ZJZ. Create on: ").length = 34 := rfl
  have hslash : (ascii "/").length = 1 := rfl
  have hdot : (ascii ".").length = 1 := rfl
  unfold titleInfo
  split
  · dsimp only
    simp only [List.length_append, List.length_drop, htext, hslash, hdot, List.length_singleton, h]
    omega
  · exact h.le

/-- the counters are within the capacity of the tables -/
structure Bounded (track : MOVTrack) : Prop where
  stsz : track.stsz_size ≤ 32768
  stco : track.stco_size ≤ 8192
  stsc : track.stsc_size ≤ 8192
  stts : track.enc.codec_type = .video → track.stts_size ≤ 32768
  key : track.enc.codec_type = .video → track.keyFrame_num ≤ 32768

theorem stsd_le (env : Env) (track : MOVTrack) :
    movGetStsdTagSize env track ≤ track.csdData.val.length + 160 := by
  have hesds := esds_le track
  have havcc := avcc_le env.heap (track.csdData.property.trans (by norm_num))
  unfold movGetStsdTagSize
  cases hty : track.enc.codec_type with
  | video =>
    dsimp only
    unfold movGetVideoTagSize movGetAvccTagSize
    by_cases h264 : track.tag = mkTag 'a' 'v' 'c' '1'
    · rw [if_pos h264]
      omega
    · rw [if_neg h264]
      split <;> omega
  | audio =>
    dsimp only
    unfold movGetAudioTagSize
    split <;> omega

/-- `stts`, `stss`, `stsc`, `stsz` and `stco` at their capacities -/
def fullTables : CodecType → Nat
  | .video =>
    16 + 32768 * 8 + (32768 + 4) * 4 + (8192 * 3 + 4) * 4 + (32768 + 5) * 4 + (8192 + 4) * 4
  | .audio => 24 + (8192 * 3 + 4) * 4 + (32768 + 5) * 4 + (8192 + 4) * 4

/-- together they leave more than 130000 bytes of a MiB -/
theorem fullTables_total : fullTables .video + fullTables .audio = 917664 := rfl

theorem stbl_le (env : Env) {track : MOVTrack} (hb : Bounded track) :
    movGetStblTagSize env track ≤ track.csdData.val.length + fullTables track.enc.codec_type
      + 168 := by
  have hstsd := stsd_le env track
  have h1 := hb.stsz
  have h2 := hb.stco
  have h3 := hb.stsc
  unfold movGetStblTagSize movGetSttsTagSize movGetStssTagSize movGetStscTagSize movGetStszTagSize
    movGetStcoTagSize
  cases hty : track.enc.codec_type with
  | video =>
    have h4 := hb.stts hty
    have h5 := hb.key hty
    dsimp only [fullTables]
    rw [if_pos rfl]
    omega
  | audio =>
    dsimp only [fullTables]
    rw [if_neg (by decide)]
    omega

theorem trak_le {env : Env} {mov : MOVContext} {track : MOVTrack} (hb : Bounded track)
    (htitle : strlen (titleInfo env mov) ≤ 128) :
    movGetTrakTagSize env mov track
      ≤ track.csdData.val.length + fullTables track.enc.codec_type + 600 := by
  have hstbl := stbl_le env hb
  have hminf : movGetMinfTagSize env track ≤ movGetStblTagSize env track + 64 := by
    unfold movGetMinfTagSize movGetVmhdTagSize movGetSmhdTagSize movGetDinfTagSize movGetDrefTagSize
    split <;> omega
  unfold movGetTrakTagSize movGetMdiaTagSize movGetHdlrTagSize movGetTkhdTagSize movGetMdhdTagSize
  omega

/-- at most the two tracks are written -/
theorem writtenTracks_sum (mov : MOVContext) (f : CodecType → Nat) :
    ((writtenTracks mov).map f).sum ≤ f .video + f .audio := by
  have hle : ((writtenTracks mov).map f).sum ≤ ([CodecType.video, CodecType.audio].map f).sum :=
    ((List.filter_sublist.trans (List.take_sublist _ _)).map f).sum_le_sum fun _ _ => Nat.zero_le _
  rwa [List.map_cons, List.map_cons, List.map_nil, List.sum_cons, List.sum_cons, List.sum_nil,
    Nat.add_zero] at hle

/-- **The size of `moov`**: the two CSDs, the full tables of both tracks, and less than 1400 bytes
beside. -/
theorem moovTagSize_le {env : Env} {mov : MOVContext}
    (htype : ∀ i ∈ writtenTracks mov, (mov.tracks i).enc.codec_type = i)
    (hb : ∀ i ∈ writtenTracks mov, Bounded (mov.tracks i))
    (htitle : strlen (titleInfo env mov) ≤ 128) :
    movGetMoovTagSize env mov ≤ (mov.tracks .video).csdData.val.length
      + (mov.tracks .audio).csdData.val.length
      + fullTables .video + fullTables .audio + 1400 := by
  have htraks : ((writtenTracks mov).map fun i => movGetTrakTagSize env mov (mov.tracks i)).sum
      ≤ ((writtenTracks mov).map fun i =>
        (mov.tracks i).csdData.val.length + fullTables i + 600).sum := by
    refine List.sum_le_sum fun i hi => ?_
    have hle := trak_le (hb i hi) htitle
    rwa [htype i hi] at hle
  have htwo := writtenTracks_sum mov fun i => (mov.tracks i).csdData.val.length + fullTables i + 600
  have hudta : (if mov.geo_available then movGetUdtaTagSize else 0) ≤ 38 := by
    split <;> decide
  unfold movGetMoovTagSize movGetMvhdTagSize
  omega

/-! ## every session -/

theorem Closed.bounded {ctx : AVFormatContext} {mov : MOVContext} {calls : List (Mem × AVPacket)}
    (h : Closed ctx.headed.priv_data.setup mov (events ctx.streams calls)) (hf : Fresh ctx)
    (hcap : Capacity calls) {t : CodecType} (ht : t ∈ writtenTracks mov) :
    Bounded (mov.tracks t) := by
  have hroom := hcap.room ctx.streams
  have hsamples : ∀ u, (mov.tracks u).stsz_size ≤ 32768 := by
    intro u
    rw [h.stsz, ← (layout_of mdatStart _).samples]
    exact hroom.samples u
  have hchunks := hroom.chunks t
  have hvideo : (mov.tracks t).enc.codec_type = .video → t = .video := by
    rw [h.enc ht, hf.codec_type]
    exact id
  refine ⟨hsamples t, ?_, ?_, ?_, ?_⟩
  · rw [h.stco]
    exact hchunks
  · rw [h.stsc]
    exact hchunks
  · intro hty
    cases hvideo hty
    rw [h.timed.stts]
    exact hsamples .video
  · intro hty
    cases hvideo hty
    exact h.timed.key.trans (hsamples .video)

/-- the video CSD is all that the write functions ask for, beside the time scales -/
theorem Closed.writable {ctx : AVFormatContext} {mov : MOVContext} {es : List (CodecType × Bytes)}
    {env : Env} (h : Closed ctx.headed.priv_data.setup mov es) (hf : Fresh ctx)
    (havcc : AvccWritable env.heap (ctx.priv_data.tracks .video).csdData.val) {t : CodecType}
    (ht : t ∈ writtenTracks mov) : Describable env (mov.tracks t) := by
  intro hty _
  rw [h.enc ht, hf.codec_type] at hty
  subst hty
  rw [h.csdData]
  exact havcc

/-- the size of the `moov` of a session -/
theorem Closed.moov_le {ctx : AVFormatContext} {mov : MOVContext} {calls : List (Mem × AVPacket)}
    (env : Env) (h : Closed ctx.headed.priv_data.setup mov (events ctx.streams calls))
    (hf : Fresh ctx) (hcap : Capacity calls) :
    movGetMoovTagSize env mov ≤ (ctx.priv_data.tracks .video).csdData.val.length
      + (ctx.priv_data.tracks .audio).csdData.val.length + fullTables .video + fullTables .audio
        + 1400 := by
  have htype : ∀ i ∈ writtenTracks mov, (mov.tracks i).enc.codec_type = i := by
    intro i hi
    rw [h.enc hi, hf.codec_type]
  have htitle : strlen (titleInfo env mov) ≤ 128 :=
    title_le env ((congrArg (fun s => s.title_info.length) h.setup).trans hf.title)
  have hle := moovTagSize_le htype (fun i hi => h.bounded hf hcap hi) htitle
  rwa [h.csdData, h.csdData] at hle

/-- **All sizes fit into their 32 bits**, with two to spare. -/
theorem Closed.moov_lt {ctx : AVFormatContext} {mov : MOVContext} {calls : List (Mem × AVPacket)}
    (env : Env) (h : Closed ctx.headed.priv_data.setup mov (events ctx.streams calls))
    (hf : Fresh ctx) (hcap : Capacity calls)
    (hcsd : ∀ t, (ctx.priv_data.tracks t).csdData.val.length < 2 ^ 27) :
    movGetMoovTagSize env mov < 2 ^ 30 := by
  have hle := h.moov_le env hf hcap
  have h1 := hcsd .video
  have h2 := hcsd .audio
  have := fullTables_total
  omega

/-- **`moov` is a nested box tree.**  Header, packets and closing packet have results; `moov` is
written if and only if the time scale of each track in it is not zero; and then its bytes are
exactly nested boxes. -/
theorem moov_nested (env : Env) {ctx : AVFormatContext} (ho : Opened ctx) (hn : ctx.mTrackCnt ≤ 2)
    {calls : List (Mem × AVPacket)} (hs : Streamed calls) (hne : calls ≠ []) (hcap : Capacity calls)
    (hcsd : ∀ t, (ctx.priv_data.tracks t).csdData.val.length < 2 ^ 27)
    (havcc : AvccWritable env.heap (ctx.priv_data.tracks .video).csdData.val) (total : Option Int) :
    ∃ header body closed, movWriteHeader ctx = some header ∧ packets header.2 calls = some body ∧
      movWritePacket (totalTime body.2 total) (fun _ => 0) lastPacket = some closed ∧
      ((movWriteMoovTag env closed.2.2.priv_data).isSome ↔ ∀ i ∈ writtenTracks closed.2.2.priv_data,
        (closed.2.2.priv_data.tracks i).timescale ≠ 0) ∧
      ∀ out, movWriteMoovTag env closed.2.2.priv_data = some out →
        ∃ pre moov post, out.1 = pre ++ writeOps moov ++ post ∧
          (movWriteMoovBox env closed.2.2.priv_data).map Prod.fst = some moov ∧
          Fits (moovShape env closed.2.2.priv_data) (emitted moov) ∧
          ofBe ((emitted moov).take 4) = movGetMoovTagSize env closed.2.2.priv_data := by
  have hf := ho.fresh
  obtain ⟨ws, mov, hbody, -⟩ := packets_some ctx.headed hs
  obtain ⟨u, c, -, hlast, hclosed⟩ := packets_closed hf hs hne total hbody
  refine ⟨_, _, _, if_pos hn, hbody, hlast, ?_, ?_⟩
  · have hplain : ∀ i ∈ writtenTracks _, Plain _ := fun i hi => hclosed.plain hf hi
    unfold movWriteMoovTag
    rw [Option.isSome_map, moov_isSome hplain]
    exact forall₂_congr fun i hi => ⟨fun hw => hw.1, fun hw => ⟨hw, hclosed.writable hf havcc hi⟩⟩
  · intro out hout
    obtain ⟨box, hbox, rfl⟩ := Option.map_eq_some_iff.mp hout
    have hplain : ∀ i ∈ writtenTracks _, Plain _ := fun i hi => hclosed.plain hf hi
    have hdesc : ∀ i ∈ writtenTracks _, Describable env _ :=
      fun i hi => hclosed.writable hf havcc hi
    obtain ⟨hbytes, hsize, -⟩ := emitted_moov hplain hbox
    have hlt := hclosed.moov_lt env hf hcap hcsd
    rw [hsize] at hlt
    have hfits := Box.encode_fits _ (hlt.trans (by norm_num))
    rw [moovBox_shape hplain hdesc, ← hbytes] at hfits
    refine ⟨_, box.1, _, rfl, ?_, hfits, ?_⟩
    · rw [hbox]
      rfl
    · rw [hsize, hbytes]
      have := ofBe_size (hlt.trans (by norm_num)) []
      rwa [List.append_nil] at this

def smallEnv : Env where
  tm_mon := 0
  tm_mday := 1
  tm_year := 126
  range := by decide
  heap _ := 0

theorem moov_nested_small :
    ∃ header body closed, movWriteHeader smallContext = some header ∧
      packets header.2 smallCalls = some body ∧
      movWritePacket (totalTime body.2 (some 80)) (fun _ => 0) lastPacket = some closed ∧
      ((movWriteMoovTag smallEnv closed.2.2.priv_data).isSome ↔
        ∀ i ∈ writtenTracks closed.2.2.priv_data,
        (closed.2.2.priv_data.tracks i).timescale ≠ 0) ∧
      ∀ out, movWriteMoovTag smallEnv closed.2.2.priv_data = some out →
        ∃ pre moov post, out.1 = pre ++ writeOps moov ++ post ∧
          (movWriteMoovBox smallEnv closed.2.2.priv_data).map Prod.fst = some moov ∧
          Fits (moovShape smallEnv closed.2.2.priv_data) (emitted moov) ∧
          ofBe ((emitted moov).take 4) = movGetMoovTagSize smallEnv closed.2.2.priv_data :=
  moov_nested smallEnv smallContext_opened (by decide) (by decide)
    (List.cons_ne_nil _ _) smallCalls_capacity
    (by intro t; cases t <;> decide) smallContext_csd (some 80)

end Pluto.Mp4

import Pluto.Avbs.Records
import Pluto.Ts.Aac

/-!
# `avbs_extractor.c`: the elementary streams of a recording

* `adtsHeader`           the header in front of an audio frame;
* `avbsExtractor`        `main`: `vbs.h264` and `abs.aac`;
* `extracted`            what is extracted from a recording, and how an ADTS reader cuts it.
-/

namespace Pluto.Avbs
open Octets

/-! ## the program -/

/-- `vbs.h264` and `abs.aac` -/
structure Extracted where
  vbs : Bytes
  abs : Bytes

/-- `adts`, for the first two bytes of the codec-specific data; of each `unsigned` the low eight
bits are stored -/
def adtsHeader (csd0 csd1 : UInt8) (abs_len : Nat) : Bytes :=
  let profile : UInt8 := (csd0 >>> 3) - 1
  let sampling_freq_index := ((csd0 &&& 7) <<< 1) ||| (csd1 >>> 7)
  let channel_configuration := (csd1 >>> 3) &&& 0x0f
  [0xff, 0xf1,
    (profile <<< 6) ||| (sampling_freq_index <<< 2) ||| ((channel_configuration >>> 2) &&& 1),
    ((channel_configuration &&& 3) <<< 6) ||| UInt8.ofNat (abs_len >>> 11),
    UInt8.ofNat (abs_len >>> 3 &&& 0xff), UInt8.ofNat ((abs_len &&& 7) <<< 5), 0]

/-- the bytes of a segment go into the file of their track -/
def Extracted.put (out : Extracted) (idx : Int) (b : Bytes) : Extracted :=
  if idx = 0 then { out with vbs := out.vbs ++ b }
  else if idx = 1 then { out with abs := out.abs ++ b }
  else out

/-- `fwrite(buf, 1, n, ..)` for a track that has a file -/
def writeSegment (v : Vars) (buf : Bytes) (n : Int) (out : Extracted) : Option Extracted :=
  if v.idx = 0 ∨ v.idx = 1 then (fwrite buf n).map (out.put v.idx) else some out

/-- the header of an audio frame; one of a negative length is not looked at, as its segments cannot
be written -/
def writeAdts (csd0 csd1 : UInt8) (v : Vars) (out : Extracted) : Extracted :=
  if v.idx = 1 then out.put 1 (adtsHeader csd0 csd1 (v.size0 + v.size1 + 7).toNat) else out

/-- the body of the loop -/
def extractPacket (csd0 csd1 : UInt8) (r : Reader) (out : Extracted) :
    Option (Reader × Extracted) :=
  r.packet.bind fun r =>
    (writeSegment r.vars r.buf r.vars.size0 (writeAdts csd0 csd1 r.vars out)).bind fun out =>
      if r.vars.size1 = 0 then some (r, out)
      else (r.readBuf 0 r.vars.size1).bind fun r =>
        (writeSegment r.vars r.buf r.vars.size1 out).map fun out => (r, out)

theorem extractPacket_fp0 {csd0 csd1 : UInt8} {r : Reader} {out : Extracted}
    {x : Reader × Extracted} (h : extractPacket csd0 csd1 r out = some x) :
    x.1.fp0.length ≤ r.fp0.length := by
  obtain ⟨r₁, hpacket, h⟩ := Option.bind_eq_some_iff.mp h
  obtain ⟨out₁, -, h⟩ := Option.bind_eq_some_iff.mp h
  have hle := packet_fp0 hpacket
  split at h
  · cases h
    exact hle
  · obtain ⟨r₂, hread, h⟩ := Option.bind_eq_some_iff.mp h
    obtain ⟨out₂, -, h⟩ := Option.map_eq_some_iff.mp h
    cases h
    exact (readBuf_fp0 hread).trans hle

def extractBody (csd0 csd1 : UInt8) : Body Extracted where
  run := extractPacket csd0 csd1
  reads := extractPacket_fp0

/-- `main`, for the file `V3_avbs`, the bytes of the allocation `buf` and what is in the variables
at first: `none` where the `assert` fails or an array does not hold what is read or written -/
def avbsExtractor (file buf : Bytes) (v : Vars) : Option Extracted :=
  (Reader.csd ⟨file, zeros 64, buf, v⟩).bind fun r =>
    (fwrite r.buf r.vars.size0).bind fun vcsd =>
      r.csd.bind fun r =>
        if r.vars.size0 = 2 then
          (whileText (extractBody (r.buf.getD 0 0) (r.buf.getD 1 0)) r ⟨vcsd, []⟩).map Prod.snd
        else none

/-! ## a recording -/

/-- the frame of an audio packet -/
def adtsFrame (csd0 csd1 : UInt8) (p : Record) : Bytes :=
  adtsHeader csd0 csd1 (p.payload.length + 7) ++ p.payload

/-- what is extracted of a recording -/
def Recording.extracted (R : Recording) : Extracted :=
  ⟨R.video.csd ++ (R.track .video).flatMap Record.payload,
    (R.track .audio).flatMap (adtsFrame (R.audio.csd.getD 0 0) (R.audio.csd.getD 1 0))⟩

theorem fwrite_overlay {buf b : Bytes} (h : b.length ≤ buf.length) :
    fwrite (overlay buf 0 b) b.length = some b := by
  have hlen : b.length ≤ (overlay buf 0 b).length := by
    rw [overlay_start buf b h, List.length_append]
    omega
  unfold fwrite
  rw [if_pos ⟨Int.natCast_nonneg _, Int.ofNat_le.mpr hlen⟩, Int.toNat_natCast,
    overlay_start buf b h, List.take_left]

/-- both tracks have a file -/
theorem writeSegment_overlay {v : Vars} {t : CodecType} (hidx : v.idx = trackIdx t) {buf b : Bytes}
    (h : b.length ≤ buf.length) (out : Extracted) :
    writeSegment v (overlay buf 0 b) b.length out = some (out.put (trackIdx t) b) := by
  have htrack : v.idx = 0 ∨ v.idx = 1 := by
    rw [hidx]
    cases t with
    | video => exact .inl rfl
    | audio => exact .inr rfl
  unfold writeSegment
  rw [if_pos htrack, fwrite_overlay h, hidx]
  rfl

theorem Extracted.put_put (out : Extracted) (t : CodecType) (a b : Bytes) :
    (out.put (trackIdx t) a).put (trackIdx t) b = out.put (trackIdx t) (a ++ b) := by
  cases t with
  | video => simp [Extracted.put, trackIdx]
  | audio => simp [Extracted.put, trackIdx]

/-- what a packet adds -/
def Extracted.add (out : Extracted) (csd0 csd1 : UInt8) (p : Record) : Extracted :=
  match p.track with
  | .video => { out with vbs := out.vbs ++ p.payload }
  | .audio => { out with abs := out.abs ++ adtsFrame csd0 csd1 p }

theorem put_add (out : Extracted) (csd0 csd1 : UInt8) (p : Record) :
    (writeAdts csd0 csd1 p.vars out).put (trackIdx p.track) p.payload = out.add csd0 csd1 p := by
  have hlen : ((p.seg0.length : Int) + p.seg1.length + 7).toNat = p.payload.length + 7 := by
    rw [Record.payload, List.length_append]
    omega
  unfold writeAdts Extracted.add adtsFrame Record.vars
  dsimp only
  rw [hlen]
  cases p.track with
  | video => simp [Extracted.put, trackIdx]
  | audio => simp [Extracted.put, trackIdx]

/-- one packet of a recording -/
theorem extractPacket_record (csd0 csd1 : UInt8) {r : Reader} {p : Record} {rest : Bytes}
    (h : Ready 42 r) (htext : r.text = p.text ++ zeros 22)
    (hfp : r.fp0 = p.seg0 ++ (p.seg1 ++ rest)) (out : Extracted) :
    ∃ r', extractPacket csd0 csd1 r out = some (r', out.add csd0 csd1 p) ∧ r'.fp0 = rest ∧
      Ready 42 r' := by
  have hroom := p.room
  have hbuf := h.buf
  have hstored : (overlay r.buf 0 p.seg0).length = bufSize :=
    h.stored (show 0 + p.seg0.length ≤ bufSize by omega)
  have hpacket := h.packet htext hfp
  unfold extractPacket
  rw [hpacket, Option.bind_some]
  dsimp only
  have hfirst := writeSegment_overlay (v := p.vars) rfl (show p.seg0.length ≤ r.buf.length by omega)
    (writeAdts csd0 csd1 p.vars out)
  have hadd := put_add out csd0 csd1 p
  rw [show p.vars.size0 = p.seg0.length from rfl, hfirst, Option.bind_some]
  by_cases h1 : p.seg1 = []
  · have hzero : p.vars.size1 = 0 := by
      show (p.seg1.length : Int) = 0
      rw [h1]
      rfl
    rw [Record.payload, h1, List.append_nil] at hadd
    rw [if_pos hzero, hadd]
    refine ⟨_, rfl, ?_, h.text, h.nul, hstored⟩
    dsimp only
    rw [h1, List.nil_append]
  · have hpos : p.vars.size1 ≠ 0 := by
      have := List.length_pos_of_ne_nil h1
      show (p.seg1.length : Int) ≠ 0
      omega
    have hready : Ready 42
        { r with fp0 := p.seg1 ++ rest, buf := overlay r.buf 0 p.seg0, vars := p.vars } :=
      ⟨h.text, h.nul, hstored⟩
    have hseg1 : 0 + p.seg1.length ≤ bufSize := by omega
    have hread := hready.readBuf hseg1 rfl
    have hsecond :=
      writeSegment_overlay (v := p.vars)
        rfl (show p.seg1.length ≤ (overlay r.buf 0 p.seg0).length by omega)
      ((writeAdts csd0 csd1 p.vars out).put (trackIdx p.track) p.seg0)
    rw [Extracted.put_put, ← Record.payload, hadd] at hsecond
    rw [if_neg hpos, show p.vars.size1 = p.seg1.length from rfl,
      show (0 : Int) = (0 : Nat) from rfl, hread, Option.bind_some]
    dsimp only
    rw [show p.vars.size1 = p.seg1.length from rfl, hsecond]
    exact ⟨_, rfl, rfl, h.text, h.nul, hready.stored hseg1⟩

/-- the packets, one after the other -/
theorem foldl_add (csd0 csd1 : UInt8) (ps : List Record) (out : Extracted) :
    ps.foldl (fun out p => out.add csd0 csd1 p) out
      = ⟨out.vbs ++ (ps.filter (·.track = .video)).flatMap Record.payload,
        out.abs ++ (ps.filter (·.track = .audio)).flatMap (adtsFrame csd0 csd1)⟩ := by
  induction ps generalizing out with
  | nil => simp
  | cons p ps ih =>
    rw [List.foldl_cons, ih]
    unfold Extracted.add
    cases ht : p.track with
    | video => simp [ht]
    | audio => simp [ht]

/-- what the packets read so far have added -/
theorem extractBody_keeps (csd0 csd1 : UInt8) (start : Extracted) :
    Keeps (extractBody csd0 csd1) fun ps _ out =>
      out = ps.foldl (fun out p => out.add csd0 csd1 p) start := by
  intro done p r out rest hI hr htext hfp
  obtain ⟨r', hrun, hfp', hready'⟩ := extractPacket_record csd0 csd1 hr htext hfp out
  refine ⟨r', _, hrun, hfp', hready', ?_⟩
  show _ = (done ++ [p]).foldl _ start
  rw [List.foldl_append, ← show out = _ from hI]
  rfl

/-- **What is extracted**: the program gets through exactly if the codec-specific data of the audio
track has the two bytes that it asserts. -/
theorem avbsExtractor_file (R : Recording) {buf : Bytes} (hbuf : buf.length = bufSize) (v : Vars) :
    avbsExtractor R.file buf v = if R.audio.csd.length = 2 then some R.extracted else none := by
  have hready : Ready 0 ⟨R.file, zeros 64, buf, v⟩ := ⟨rfl, rfl, hbuf⟩
  obtain ⟨r₁, hcsd₁, hfp₁, hready₁, hbuf₁, hvars₁⟩ := hready.csd (by omega) R.video rfl
  obtain ⟨r₂, hcsd₂, hfp₂, hready₂, hbuf₂, hvars₂⟩ := hready₁.csd le_rfl R.audio hfp₁
  have hvideo : fwrite r₁.buf r₁.vars.size0 = some R.video.csd := by
    rw [hbuf₁, hvars₁]
    exact fwrite_overlay (R.video.room.trans hbuf.ge)
  have hsize : r₂.vars.size0 = R.audio.csd.length := by rw [hvars₂]
  unfold avbsExtractor
  rw [hcsd₁, Option.bind_some, hvideo, Option.bind_some, hcsd₂, Option.bind_some, hsize]
  by_cases htwo : R.audio.csd.length = 2
  · rw [if_pos htwo, if_pos (by rw [htwo]; rfl)]
    obtain ⟨csd0, csd1, hcsd⟩ := List.length_eq_two.mp htwo
    have hstart : r₂.buf.getD 0 0 = csd0 ∧ r₂.buf.getD 1 0 = csd1 := by
      have hroom : R.audio.csd.length ≤ r₁.buf.length := by
        rw [hready₁.buf]
        exact R.audio.room
      rw [hbuf₂, overlay_start _ _ hroom, hcsd]
      exact ⟨rfl, rfl⟩
    rw [hstart.1, hstart.2]
    obtain ⟨r', out, hloop, hout⟩ :=
      whileText_records (extractBody csd0 csd1) (extractBody_keeps csd0 csd1 ⟨R.video.csd, []⟩)
        (s := ⟨R.video.csd, []⟩)
        (by decide) hready₂ rfl hfp₂
    rw [hloop, Option.map_some, show out = _ from hout, foldl_add]
    unfold Recording.extracted Recording.track
    rw [hcsd]
    rfl
  · rw [if_neg htwo, if_neg fun h => htwo (by exact_mod_cast h)]

/-- **The extractor.**  On a recording the program gets through exactly if the codec-specific data
of the audio track has two bytes.  Then `vbs.h264` is that of the video track and the video packets,
and an ADTS reader cuts `abs.aac` into the audio packets, with the configuration of the
codec-specific data, if a frame has less than 2¹³ bytes. -/
theorem extracted (R : Recording) {buf : Bytes} (hbuf : buf.length = bufSize) (v : Vars) :
    ((avbsExtractor R.file buf v).isSome = true ↔ R.audio.csd.length = 2) ∧
      ∀ out, avbsExtractor R.file buf v = some out →
        out.vbs = R.video.csd ++ (R.track .video).flatMap Record.payload ∧
        ∀ h, Ts.Configured (R.audio.csd.getD 0 0) (R.audio.csd.getD 1 0) h →
          1 ≤ (R.audio.csd.getD 0 0).toNat / 8 →
          (∀ p ∈ R.track .audio, p.payload.length + 7 < 8192) →
            Adts.frames out.abs = some ((R.track .audio).map fun p => (h, p.payload)) := by
  rw [avbsExtractor_file R hbuf v]
  constructor
  · split
    · rename_i htwo
      exact iff_of_true rfl htwo
    · rename_i htwo
      exact iff_of_false Bool.false_ne_true htwo
  · intro out hout
    split at hout
    · cases hout
      refine ⟨rfl, fun h hconf htype hshort => ?_⟩
      have hframes : ∀ f ∈ (R.track .audio).map fun p => (h, p.payload), f.2.length + 7 < 8192 := by
        intro f hf
        obtain ⟨p, hp, rfl⟩ := List.mem_map.mp hf
        exact hshort p hp
      have hencode : (R.track .audio).flatMap
          (adtsFrame (R.audio.csd.getD 0 0) (R.audio.csd.getD 1 0))
          = ((R.track .audio).map fun p => (h, p.payload)).flatMap Adts.encodeFrame := by
        rw [List.flatMap_map]
        refine List.flatMap_congr fun p hp => ?_
        show Ts.adtsHeader _ _ _ ++ p.payload = _
        rw [Ts.adtsHeader_encode hconf htype (hshort p hp)]
        rfl
      rw [← Adts.frames_encode hframes, ← hencode]
      rfl
    · cases hout

theorem extracted_small :
    ∃ out, avbsExtractor smallRecording.file (zeros bufSize) ⟨0, 0, 0, 0, 0, 0⟩ = some out ∧
      out.vbs = [0, 0, 0, 1, 0x67, 0x42, 0xc0, 0x1e, 0, 0, 0, 1, 0x68, 0xce, 0x3c, 0x80,
        0, 0, 0, 1, 0x65, 7, 8, 0, 0, 0, 1, 0x41] ∧
      Adts.frames out.abs = some [(⟨1, 8, 1⟩, [1, 2, 3])] := by
  obtain ⟨hsome, hout⟩ := extracted smallRecording (zeros_length bufSize) ⟨0, 0, 0, 0, 0, 0⟩
  obtain ⟨out, heq⟩ := Option.isSome_iff_exists.mp (hsome.mpr rfl)
  obtain ⟨hvbs, habs⟩ := hout out heq
  exact ⟨out, heq, hvbs, habs ⟨1, 8, 1⟩ ⟨rfl, rfl, rfl⟩ (by decide) (by decide)⟩

end Pluto.Avbs

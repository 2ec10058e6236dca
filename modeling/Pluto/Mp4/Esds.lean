import Pluto.Bytes.Descriptor
import Pluto.Mp4.Nesting

/-!
# The descriptors of `esds`

`descrLength` and `putDescr` compute the width of a length each on their own.  Both agree with the
groups of seven bits of a descriptor length, so what `mov_write_esds_tag` writes behind the version
is one ES descriptor.

* `putDescr_eq`      a tag and the groups of the length;
* `esDescr`          the tree that the box holds;
* `esds_parsed`      a reader of descriptors gets the tree back.
-/

namespace Pluto.Mp4
open Octets Boxes
open Descriptors (Descr lengthGroups groups descrsOf)

/-! ## lengths -/

/-- the loop counts the groups, and stops behind the last one -/
theorem descrLoop_eq (len n i : Nat) (h0 : 0 < i) (hi : i ≤ Nat.log 128 len + 1)
    (hn : Nat.log 128 len + 1 ≤ i + n) :
    descrLoop len n i = Nat.log 128 len + 1 := by
  induction n generalizing i with
  | zero => exact le_antisymm hi hn
  | succ n ih =>
    have hpow : (2 : Nat) ^ (7 * i) = 128 ^ i := by rw [pow_mul]; norm_num
    rw [descrLoop, Nat.shiftRight_eq_div_pow, hpow]
    by_cases hlt : len < 128 ^ i
    · have hlog : Nat.log 128 len < i := Nat.log_lt_of_lt_pow' h0.ne' hlt
      rw [if_pos (Nat.div_eq_of_lt hlt)]
      omega
    · have hle : i ≤ Nat.log 128 len := Nat.le_log_of_pow_le (by norm_num) (not_lt.mp hlt)
      rw [if_neg (Nat.div_pos (not_lt.mp hlt) (by positivity)).ne']
      exact ih (i + 1) (Nat.succ_pos i) (by omega) (by omega)

theorem descrLength_eq {len : Nat} (h : len < 2 ^ 28) :
    descrLength len = 1 + (lengthGroups len).length + len := by
  have hlog : Nat.log 128 len < 4 := Nat.log_lt_of_lt_pow' (by norm_num) h
  rw [descrLength, descrLoop_eq len 4 1 Nat.one_pos (by omega) (by omega), lengthGroups,
    Descriptors.groups_length]
  omega

theorem group_byte (x : Nat) : UInt8.ofNat (x ||| 0x80) = UInt8.ofNat (128 + x % 128) := by
  have hlow : ∀ r : Fin 256, (r : Nat) ||| 128 = 128 + r % 128 := by decide +kernel
  apply UInt8.toNat_inj.mp
  rw [UInt8.toNat_ofNat', UInt8.toNat_ofNat', Nat.or_mod_two_pow]
  have hx := hlow ⟨x % 256, Nat.mod_lt x (by norm_num)⟩
  have hmod : x % 256 % 128 = x % 128 := Nat.mod_mod_of_dvd x (by norm_num)
  dsimp only at hx
  rw [show (2 : Nat) ^ 8 = 256 from rfl, hx, hmod]
  omega

/-- the loop of `putDescr_cache` writes the groups -/
theorem emitted_groups (k size : Nat) :
    emitted (((List.range k).reverse.flatMap fun j => putByte ((size >>> (7 * (j + 1))) ||| 0x80))
      ++ putByte (size &&& 0x7F)) = groups k size := by
  induction k with
  | zero =>
    rw [groups, ← Nat.and_two_pow_sub_one_eq_mod size 7]
    exact emitted_putByte _
  | succ k ih =>
    have hpow : (2 : Nat) ^ (7 * (k + 1)) = 128 ^ (k + 1) := by rw [pow_mul]; norm_num
    rw [List.range_succ, List.reverse_append, List.reverse_singleton, List.singleton_append,
      List.flatMap_cons, List.append_assoc, emitted_append, ih, emitted_putByte,
      Nat.shiftRight_eq_div_pow, hpow, groups, ← group_byte]
    rfl

theorem putDescr_eq (tag : Nat) {size : Nat} (h : size < 2 ^ 28) :
    emitted (putDescr tag size) = UInt8.ofNat tag :: lengthGroups size := by
  have hlen := descrLength_eq h
  rw [lengthGroups, Descriptors.groups_length] at hlen
  unfold putDescr
  dsimp only
  rw [show descrLength size - size - 2 = Nat.log 128 size by omega, List.append_assoc,
    emitted_append, emitted_groups, emitted_putByte]
  rfl

/-! ## the tree -/

/-- the field bytes of the descriptors that hold descriptors: an ES descriptor without optional
fields and a DecoderConfig descriptor -/
def mpeg4Own (tag : UInt8) : Option Nat :=
  if tag = 3 then some 3 else if tag = 4 then some 13 else none

/-- object type, stream type, buffer size, maximal and average bit rate -/
def decoderConfig (track : MOVTrack) : Bytes :=
  be 1 track.enc.codec_id ++ be 1 (if track.enc.codec_type = .audio then 0x15 else 0x11)
    ++ (be 1 0 ++ be 2 0 ++ be 4 0 ++ be 4 0)

def csdDescr (track : MOVTrack) : List Descr :=
  if track.csdData.val.length ≠ 0 then [.mk 5 track.csdData.val []] else []

def esDescr (track : MOVTrack) : Descr :=
  .mk 3 (be 2 (u32 track.trackID) ++ be 1 0)
    [.mk 4 (decoderConfig track) (csdDescr track), .mk 6 [2] []]

theorem decoderConfig_length (track : MOVTrack) : (decoderConfig track).length = 13 := by
  simp [decoderConfig]

/-- a descriptor is as long as `descrLength` says of its body -/
theorem encode_descrLength (tag : UInt8) (fields : Bytes) (children : List Descr)
    (h : (fields ++ Descriptors.encodeAll children).length < 2 ^ 28) :
    (Descr.mk tag fields children).encode.length
      = descrLength (fields ++ Descriptors.encodeAll children).length := by
  rw [Descriptors.encode_mk, List.length_cons, List.length_append, descrLength_eq h]
  omega

section
variable (track : MOVTrack)

theorem csdDescr_encode (h : track.csdData.val.length < 2 ^ 28) :
    Descriptors.encodeAll (csdDescr track)
      = emitted (if track.csdData.val.length ≠ 0 then
          putDescr 5 track.csdData.val.length ++ putBuffer track.csdData.val else []) := by
  unfold csdDescr
  split
  · rw [Descriptors.encodeAll_cons, Descriptors.encodeAll_nil, List.append_nil,
      Descriptors.encode_mk, Descriptors.encodeAll_nil, List.append_nil, emitted_append,
      putDescr_eq 5 h, emitted_putBuffer]
    rfl
  · rw [Descriptors.encodeAll_nil]
    rfl

theorem csdDescr_length (h : track.csdData.val.length < 2 ^ 28) :
    (Descriptors.encodeAll (csdDescr track)).length = decoderSpecificInfoLen track := by
  unfold csdDescr decoderSpecificInfoLen
  split
  · have hlen := encode_descrLength 5 track.csdData.val [] (by simpa using h)
    rw [Descriptors.encodeAll_cons, Descriptors.encodeAll_nil, List.append_nil, hlen,
      Descriptors.encodeAll_nil, List.append_nil]
  · rw [Descriptors.encodeAll_nil]
    rfl

variable (h : track.csdData.val.length < 2 ^ 27)
include h

theorem config_length :
    (decoderConfig track ++ Descriptors.encodeAll (csdDescr track)).length
      = 13 + decoderSpecificInfoLen track := by
  rw [List.length_append, decoderConfig_length, csdDescr_length track (h.trans (by norm_num))]

theorem es_length :
    (be 2 (u32 track.trackID) ++ be 1 0 ++ Descriptors.encodeAll
      [.mk 4 (decoderConfig track) (csdDescr track), .mk 6 [2] []]).length
        = 3 + descrLength (13 + decoderSpecificInfoLen track) + descrLength 1 := by
  have hinfo := decoderSpecificInfo_le track
  have hlen := config_length track h
  have hsl := encode_descrLength 6 [2] [] (by simp)
  have hconfig := encode_descrLength 4 (decoderConfig track) (csdDescr track) (by omega)
  rw [Descriptors.encodeAll_cons, Descriptors.encodeAll_cons, Descriptors.encodeAll_nil,
    List.append_nil, List.length_append, List.length_append, List.length_append, hsl, hconfig, hlen,
    be_length, be_length,
    Descriptors.encodeAll_nil, List.append_nil, List.length_singleton]
  omega

/-- both lengths fit into four groups -/
theorem lengths_lt : 13 + decoderSpecificInfoLen track < 2 ^ 28 ∧
    3 + descrLength (13 + decoderSpecificInfoLen track) + descrLength 1 < 2 ^ 28 := by
  have hinfo := decoderSpecificInfo_le track
  have h1 := descrLength_le 1
  have h2 := descrLength_le (13 + decoderSpecificInfoLen track)
  omega

theorem emitted_esdsFields : emitted (esdsFields track) = be 4 0 ++ (esDescr track).encode := by
  obtain ⟨hlt4, hlt3⟩ := lengths_lt track h
  have h6 : (Descr.mk 6 [2] []).encode = emitted (putDescr 6 1 ++ putByte 2) := by
    rw [Descriptors.encode_mk, Descriptors.encodeAll_nil, emitted_append,
      putDescr_eq 6 (by norm_num), emitted_putByte]
    rfl
  have h4 : (Descr.mk 4 (decoderConfig track) (csdDescr track)).encode
      = UInt8.ofNat 4 :: lengthGroups (13 + decoderSpecificInfoLen track)
        ++ (decoderConfig track ++ Descriptors.encodeAll (csdDescr track)) := by
    rw [Descriptors.encode_mk, config_length track h]
    rfl
  rw [esDescr, Descriptors.encode_mk, es_length track h, Descriptors.encodeAll_cons,
    Descriptors.encodeAll_cons, Descriptors.encodeAll_nil, h4, h6,
    csdDescr_encode track (h.trans (by norm_num))]
  unfold esdsFields decoderConfig
  simp only [emitted_append, emitted_putBe32, emitted_putBe16, emitted_putByte, putDescr_eq 3 hlt3,
    putDescr_eq 4 hlt4, List.append_assoc, List.cons_append, List.append_nil]
  rfl

theorem esDescr_wellFormed : Descriptors.WellFormed mpeg4Own (esDescr track) := by
  obtain ⟨hlt4, hlt3⟩ := lengths_lt track h
  have hcsd : ∀ c ∈ csdDescr track, Descriptors.WellFormed mpeg4Own c := by
    intro c hc
    unfold csdDescr at hc
    split at hc
    · rw [List.mem_singleton.mp hc]
      exact .leaf rfl (h.trans (by norm_num))
    · cases hc
  have hconfig : Descriptors.WellFormed mpeg4Own
      (.mk 4 (decoderConfig track) (csdDescr track)) := by
    refine .node ?_ ?_ hcsd
    · rw [decoderConfig_length]
      rfl
    · rw [config_length track h]
      exact hlt4
  have hsl : Descriptors.WellFormed mpeg4Own (.mk 6 [2] []) := .leaf rfl (by norm_num)
  refine .node ?_ ?_ ?_
  · rw [List.length_append, be_length, be_length]
    rfl
  · rw [es_length track h]
    exact hlt3
  · intro c hc
    rcases List.mem_cons.mp hc with rfl | hc
    · exact hconfig
    · rw [List.mem_singleton.mp hc]
      exact hsl

/-- **The descriptors of `esds`.**  For every track whose CSD is shorter than `2 ^ 27` bytes the box
begins with the number of its bytes, its tag and the version, and a reader of descriptors finds one
ES descriptor behind them, to the end of the box: three bytes of fields, the DecoderConfig
descriptor with thirteen bytes of fields and the CSD, if there is one, and the SL descriptor. -/
theorem esds_parsed :
    movGetEsdsTagSize track = (emitted (movWriteEsdsTag track)).length ∧
      ofBe ((emitted (movWriteEsdsTag track)).take 4) = (emitted (movWriteEsdsTag track)).length ∧
      slice (emitted (movWriteEsdsTag track)) 4 8 = (fourcc 'e' 's' 'd' 's').val ++ be 4 0 ∧
      descrsOf mpeg4Own ((emitted (movWriteEsdsTag track)).drop 12)
        = some [.mk 3 (be 2 (u32 track.trackID) ++ be 1 0)
            [.mk 4 (decoderConfig track)
              (if track.csdData.val.length ≠ 0 then [.mk 5 track.csdData.val []] else []),
              .mk 6 [2] []]] := by
  have hread := Descriptors.descrsOf_encodeAll mpeg4Own [esDescr track] fun t ht => by
    rw [List.mem_singleton.mp ht]
    exact esDescr_wellFormed track h
  rw [Descriptors.encodeAll_cons, Descriptors.encodeAll_nil, List.append_nil] at hread
  have hsmall : (esdsBox track).encode.length < 2 ^ 32 := by
    have hle := esds_le track
    rw [← esds_length]
    omega
  have hsize := ofBe_size hsmall []
  rw [List.append_nil] at hsize
  have hbytes : (esdsBox track).encode
      = be 4 (8 + (esdsBox track).body.length) ++ ((fourcc 'e' 's' 'd' 's').val ++ be 4 0)
      ++ (esDescr track).encode := by
    have hbody : (esdsBox track).body = be 4 0 ++ (esDescr track).encode :=
      (leaf_body _ _).trans (emitted_esdsFields track h)
    rw [encode_eq, List.append_assoc, List.append_assoc, List.append_assoc, ← hbody]
    rfl
  rw [emitted_esds]
  refine ⟨esds_length track, hsize, ?_, ?_⟩
  · rw [hbytes]
    exact slice_mid (be 4 _) _ _
  · rw [hbytes]
    exact hread

end

/-- a CSD whose length takes two groups -/
theorem esds_parsed_two :
    ∃ track : MOVTrack, track.csdData.val.length = 130 ∧
      descrsOf mpeg4Own ((emitted (movWriteEsdsTag track)).drop 12)
        = some [.mk 3 (be 2 (u32 track.trackID) ++ be 1 0)
            [.mk 4 (decoderConfig track)
              (if track.csdData.val.length ≠ 0 then [.mk 5 track.csdData.val []] else []),
              .mk 6 [2] []]] := by
  have hlen : (zeros 130).length = 130 := zeros_length 130
  refine ⟨{ emptyTrack with csdData := ⟨zeros 130, by norm_num⟩ }, hlen, ?_⟩
  exact (esds_parsed { emptyTrack with csdData := ⟨zeros 130, by norm_num⟩ } (by norm_num)).2.2.2

end Pluto.Mp4

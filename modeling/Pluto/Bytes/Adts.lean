import Pluto.Bytes.Transport

/-!
# ADTS

A stream of AAC frames, each behind a header that names its length.

* `Header.encode`        the seven bytes in front of a frame, without a checksum;
* `readHeader`           sync word, fields and length of a header;
* `frames`               a stream cut at the lengths of its headers;
* `frames_encode`        a stream of frames is cut into these frames.
-/

namespace Adts
open Octets Transport

/-- profile, sampling_frequency_index, channel_configuration -/
structure Header where
  profile : Fin 4
  sampling : Fin 16
  channels : Fin 8
deriving DecidableEq, Repr

/-- the header of a frame of `n` bytes, itself included -/
def Header.encode (h : Header) (n : Nat) : Bytes :=
  [0xff, 0xf1, UInt8.ofNat (64 * h.profile + 4 * h.sampling + h.channels / 4),
    UInt8.ofNat (64 * (h.channels % 4) + n / 2048), UInt8.ofNat (n / 8 % 256),
    UInt8.ofNat (32 * (n % 8)), 0]

/-- the 13 bits of aac_frame_length -/
def frameLength (b : Bytes) : Nat := byteAt b 3 % 4 * 2048 + byteAt b 4 * 8 + byteAt b 5 / 32

-- a value out of the range of a field is read modulo its size
local instance profiles : NeZero 4 := ⟨by decide⟩
local instance samplings : NeZero 16 := ⟨by decide⟩
local instance channelSets : NeZero 8 := ⟨by decide⟩

def headerOf (b : Bytes) : Header where
  profile := Fin.ofNat 4 (byteAt b 2 / 64)
  sampling := Fin.ofNat 16 (byteAt b 2 / 4)
  channels := Fin.ofNat 8 (byteAt b 2 % 2 * 4 + byteAt b 3 / 64)

/-- seven bytes, and two more where there is a checksum -/
def headerSize (b : Bytes) : Nat := if byteAt b 1 % 2 = 1 then 7 else 9

/-- the header at the start of `b`, and the length of its frame -/
def readHeader (b : Bytes) : Option (Header × Nat) :=
  if 7 ≤ b.length ∧ byteAt b 0 = 0xff ∧ byteAt b 1 / 16 = 0xf ∧ headerSize b ≤ frameLength b ∧
    frameLength b ≤ b.length then
    some (headerOf b, frameLength b)
  else none

/-- a stream cut into its frames; `none` where there is no header or a frame is cut off -/
def frames (b : Bytes) : Option (List (Header × Bytes)) :=
  if b = [] then some []
  else
    match readHeader b with
    | none => none
    | some (h, n) =>
      if 0 < n then (frames (b.drop n)).map fun rest =>
        (h, slice b (headerSize b) (n - headerSize b)) :: rest
      else none
termination_by b.length
decreasing_by
  have hpos := List.length_pos_of_ne_nil ‹_›
  rw [List.length_drop]
  omega

/-- a frame behind its header -/
def encodeFrame (f : Header × Bytes) : Bytes := f.1.encode (f.2.length + 7) ++ f.2

section
variable (h : Header) {n : Nat} (frame rest : Bytes)

theorem encode_bytes (hn : n < 8192) :
    byteAt (h.encode n ++ rest) 0 = 0xff ∧ byteAt (h.encode n ++ rest) 1 = 0xf1 ∧
      byteAt (h.encode n ++ rest) 2 = 64 * h.profile + 4 * h.sampling + h.channels / 4 ∧
      byteAt (h.encode n ++ rest) 3 = 64 * (h.channels % 4) + n / 2048 ∧
      byteAt (h.encode n ++ rest) 4 = n / 8 % 256 ∧
      byteAt (h.encode n ++ rest) 5 = 32 * (n % 8) := by
  have hp := h.profile.isLt
  have hs := h.sampling.isLt
  have hc := h.channels.isLt
  refine ⟨rfl, rfl, ?_, ?_, ?_, ?_⟩
  · show (UInt8.ofNat _).toNat = _
    rw [UInt8.toNat_ofNat', Nat.mod_eq_of_lt (by omega)]
  · show (UInt8.ofNat _).toNat = _
    rw [UInt8.toNat_ofNat', Nat.mod_eq_of_lt (by omega)]
  · show (UInt8.ofNat _).toNat = _
    rw [UInt8.toNat_ofNat', Nat.mod_mod]
  · show (UInt8.ofNat _).toNat = _
    rw [UInt8.toNat_ofNat', Nat.mod_eq_of_lt (by omega)]

theorem frameLength_encode (hn : n < 8192) : frameLength (h.encode n ++ rest) = n := by
  obtain ⟨-, -, -, h3, h4, h5⟩ := encode_bytes h rest hn
  have hc := h.channels.isLt
  unfold frameLength
  rw [h3, h4, h5]
  omega

theorem headerOf_encode (hn : n < 8192) : headerOf (h.encode n ++ rest) = h := by
  obtain ⟨-, -, h2, h3, -, -⟩ := encode_bytes h rest hn
  have hp := h.profile.isLt
  have hs := h.sampling.isLt
  have hc := h.channels.isLt
  obtain ⟨p, s, c⟩ := h
  unfold headerOf
  rw [h2, h3]
  congr 1
  · apply Fin.ext
    rw [Fin.val_ofNat]
    dsimp only at hp hs hc ⊢
    omega
  · apply Fin.ext
    rw [Fin.val_ofNat]
    dsimp only at hp hs hc ⊢
    omega
  · apply Fin.ext
    rw [Fin.val_ofNat]
    dsimp only at hp hs hc ⊢
    omega

/-- the header in front of a frame is read -/
theorem readHeader_encode (hn : frame.length + 7 < 8192) :
    readHeader (encodeFrame (h, frame) ++ rest) = some (h, frame.length + 7) ∧
      headerSize (encodeFrame (h, frame) ++ rest) = 7 := by
  obtain ⟨h0, h1, -⟩ := encode_bytes h (frame ++ rest) hn
  have hlen := frameLength_encode h (frame ++ rest) hn
  have hhead := headerOf_encode h (frame ++ rest) hn
  have hsize : headerSize (h.encode (frame.length + 7) ++ (frame ++ rest)) = 7 := by
    unfold headerSize
    rw [h1]
    rfl
  unfold encodeFrame readHeader
  rw [List.append_assoc, hlen, hhead, hsize, h0, h1]
  refine ⟨if_pos ⟨?_, rfl, rfl, Nat.le_add_left 7 _, ?_⟩, rfl⟩
  · rw [List.length_append]
    exact Nat.le_add_right 7 _
  · rw [List.length_append, List.length_append]
    show frame.length + 7 ≤ 7 + (frame.length + rest.length)
    omega

end

/-- **A stream of frames** is cut into these frames. -/
theorem frames_encode {fs : List (Header × Bytes)} (hfs : ∀ f ∈ fs, f.2.length + 7 < 8192) :
    frames (fs.flatMap encodeFrame) = some fs := by
  induction fs with
  | nil =>
    unfold frames
    rfl
  | cons f fs ih =>
    obtain ⟨h, frame⟩ := f
    have hn := hfs (h, frame) List.mem_cons_self
    obtain ⟨hread, hsize⟩ := readHeader_encode h frame (fs.flatMap encodeFrame) hn
    have hne : encodeFrame (h, frame) ++ fs.flatMap encodeFrame ≠ [] := List.cons_ne_nil _ _
    have hlen : (encodeFrame (h, frame)).length = frame.length + 7 := by
      unfold encodeFrame
      rw [List.length_append]
      exact Nat.add_comm 7 _
    have hdrop : (encodeFrame (h, frame) ++ fs.flatMap encodeFrame).drop (frame.length + 7)
        = fs.flatMap encodeFrame := by
      rw [← hlen, List.drop_left]
    have hslice : slice (encodeFrame (h, frame) ++ fs.flatMap encodeFrame) 7 frame.length = frame :=
      slice_mid (h.encode (frame.length + 7)) frame (fs.flatMap encodeFrame)
    rw [List.flatMap_cons, frames, if_neg hne, hread]
    dsimp only
    rw [if_pos (Nat.succ_pos _), hdrop, ih fun f hf => hfs f (List.mem_cons_of_mem _ hf), hsize,
      Nat.add_sub_cancel, hslice]
    rfl

end Adts

import Pluto.Ts.Pids

/-!
# The time stamp of a PES packet

* `ptsField`             the 33 bits of a time stamp, as the five bytes of a PES header carry them;
* `PtsReads`             prefix, marker bits and value;
* `pts_reads_iff`        when the bytes that `write_access_unit` puts read back as the time: the
                         variable that holds the time has 32 bits.
-/

namespace Pluto.Ts
open Octets Transport

/-! ## the field -/

/-- 3, 8, 7, 8 and 7 bits, the first, third and fifth part in front of a marker bit -/
def ptsField (b : Bytes) : Nat :=
  byteAt b 0 / 2 % 8 * 2 ^ 30 + byteAt b 1 * 2 ^ 22 + byteAt b 2 / 2 * 2 ^ 15 + byteAt b 3 * 2 ^ 7
    + byteAt b 4 / 2

/-- the prefix of a header without a decoding time, and the three marker bits -/
def PtsMarked (b : Bytes) : Prop :=
  byteAt b 0 / 16 = 2 ∧ byteAt b 0 % 2 = 1 ∧ byteAt b 2 % 2 = 1 ∧ byteAt b 4 % 2 = 1

instance (b : Bytes) : Decidable (PtsMarked b) := inferInstanceAs (Decidable (_ ∧ _ ∧ _ ∧ _))

/-- the time stamp of a PES header reads as `v` -/
def PtsReads (pes : Bytes) (v : Nat) : Prop :=
  PtsMarked (slice pes 9 5) ∧ ptsField (slice pes 9 5) = v

instance (pes : Bytes) (v : Nat) : Decidable (PtsReads pes v) := inferInstanceAs (Decidable (_ ∧ _))

theorem marked_first (n : Nat) : (UInt8.ofNat (0x20 ||| ((n >>> 30 &&& 7) <<< 1) ||| 1)).toNat
    = 0x21 + 2 * (n / 2 ^ 30 % 8) := by
  have h : ∀ x : Fin 8, (UInt8.ofNat (0x20 ||| ((x : Nat) <<< 1) ||| 1)).toNat = 0x21 + 2 * x := by
    decide
  have hand : n >>> 30 &&& 7 = n / 2 ^ 30 % 8 := by
    rw [Nat.shiftRight_eq_div_pow]
    exact Nat.and_two_pow_sub_one_eq_mod _ 3
  rw [hand]
  exact h ⟨n / 2 ^ 30 % 8, Nat.mod_lt _ (by decide)⟩

theorem marked_seven (n : Nat) :
    (UInt8.ofNat (((n &&& 0x7f) <<< 1) ||| 1)).toNat = 2 * (n % 128) + 1 := by
  have h : ∀ x : Fin 128, (UInt8.ofNat (((x : Nat) <<< 1) ||| 1)).toNat = 2 * x + 1 := by decide
  have hand : n &&& 0x7f = n % 128 := Nat.and_two_pow_sub_one_eq_mod n 7
  rw [hand]
  exact h ⟨n % 128, Nat.mod_lt _ (by decide)⟩

theorem plain_eight (n : Nat) : (UInt8.ofNat (n &&& 0xff)).toNat = n % 256 := by
  rw [and_0xff, UInt8.toNat_ofNat', Nat.mod_mod]

/-- **The five bytes** are marked as they should be, and carry the 33 low bits of what they are made
of. -/
theorem pesHeader_pts (stream_id : UInt8) (len n : Nat) :
    PtsReads (pesHeader stream_id len n) (n % 2 ^ 33) := by
  have h0 : byteAt (slice (pesHeader stream_id len n) 9 5) 0 = 0x21 + 2 * (n / 2 ^ 30 % 8) :=
    marked_first n
  have h1 : byteAt (slice (pesHeader stream_id len n) 9 5) 1 = n / 2 ^ 22 % 256 := by
    show (UInt8.ofNat (n >>> 22 &&& 0xff)).toNat = _
    rw [plain_eight, Nat.shiftRight_eq_div_pow]
  have h2 : byteAt (slice (pesHeader stream_id len n) 9 5) 2 = 2 * (n / 2 ^ 15 % 128) + 1 := by
    show (UInt8.ofNat (((n >>> 15 &&& 0x7f) <<< 1) ||| 1)).toNat = _
    rw [marked_seven, Nat.shiftRight_eq_div_pow]
  have h3 : byteAt (slice (pesHeader stream_id len n) 9 5) 3 = n / 2 ^ 7 % 256 := by
    show (UInt8.ofNat (n >>> 7 &&& 0xff)).toNat = _
    rw [plain_eight, Nat.shiftRight_eq_div_pow]
  have h4 : byteAt (slice (pesHeader stream_id len n) 9 5) 4 = 2 * (n % 128) + 1 := marked_seven n
  refine ⟨⟨?_, ?_, ?_, ?_⟩, ?_⟩
  · rw [h0]
    omega
  · rw [h0]
    omega
  · rw [h2]
    omega
  · rw [h4]
    omega
  · unfold ptsField
    rw [h0, h1, h2, h3, h4]
    omega

/-! ## the value -/

/-- `PTS`, an `unsigned int` -/
theorem ptsOf_eq {pts : Int} (h : 0 ≤ pts) : ptsOf pts = 90 * pts.toNat % 2 ^ 32 := by
  obtain ⟨n, rfl⟩ := Int.eq_ofNat_of_zero_le h
  have hscale : ((n : Int) * 1000 * 9).tdiv 100 = (90 * n : Nat) := by
    rw [Int.tdiv_eq_ediv_of_nonneg (by omega)]
    omega
  have hmod : ((90 * n : Nat) : Int) % 2 ^ 32 = (90 * n % 2 ^ 32 : Nat) := by push_cast; rfl
  rw [ptsOf, hscale, hmod, Int.toNat_natCast, Int.toNat_natCast]

/-- 32 bits of a number are its 33 low bits if bit 32 is zero -/
theorem mod_narrow (v : Nat) : v % 2 ^ 32 % 2 ^ 33 = v % 2 ^ 33 ↔ v % 2 ^ 33 < 2 ^ 32 := by
  have hmod : v % 2 ^ 33 % 2 ^ 32 = v % 2 ^ 32 := Nat.mod_mod_of_dvd v (by decide)
  have hlt : v % 2 ^ 32 < 2 ^ 32 := Nat.mod_lt _ (by decide)
  rw [Nat.mod_eq_of_lt (hlt.trans (by decide))]
  constructor
  · intro h
    rw [← h]
    exact hlt
  · intro h
    rw [← hmod, Nat.mod_eq_of_lt h]

/-- **The time stamp of an access unit.**  The first header of every access unit, also of one that
aborts, ends with a PES header of 14 bytes, and `write_access_unit` writes it first.  For a time
`pts` of milliseconds that can be scaled its time stamp reads as `90 * pts` modulo `2 ^ 33` if and
only if that is below `2 ^ 32`; prefix and marker bits are always there. -/
theorem pts_reads_iff (pcr : Int → Int) (ctx : AVFormatContext) (m : Mem) (pkt : AVPacket)
    (t : CodecType) (hpts : 0 ≤ pkt.pts) (_ : 9000 * pkt.pts < 2 ^ 63) :
    ∃ head pes rest, unitHeaders pcr ctx m pkt t = (head ++ pes) :: rest ∧
      (codecType pkt.stream_idx = some t → ∀ r, writeAccessUnit pcr ctx m pkt = some r →
        ∃ ws, r.1 = CacheWrite.all (head ++ pes) :: ws) ∧
      pes.length = 14 ∧ pes.take 3 = [0, 0, 1] ∧ PtsMarked (slice pes 9 5) ∧
      (PtsReads pes (90 * pkt.pts.toNat % 2 ^ 33) ↔ 90 * pkt.pts.toNat % 2 ^ 33 < 2 ^ 32) := by
  obtain ⟨hmarked, hfield⟩ :=
    pesHeader_pts (streamId t) (pesPacketLength (streamSize ctx pkt t)) (ptsOf pkt.pts)
  refine ⟨_, pesHeader (streamId t) (pesPacketLength (streamSize ctx pkt t)) (ptsOf pkt.pts), _,
    rfl, fun ht r hr => writeAccessUnit_first pcr ht hr, rfl, rfl, hmarked, ?_⟩
  unfold PtsReads
  rw [hfield, and_iff_right hmarked, ptsOf_eq hpts]
  exact mod_narrow _

/-- a packet of 200 bytes at a time -/
def timedPacket (pts : Int) : AVPacket := ⟨pts, 0, 200, 0, 0, 1, 0, 20⟩

/-- the access unit of such a packet is written -/
theorem timedPacket_written :
    (writeAccessUnit (· * 27000) (session 2 48000 [] [0x11, 0x90]) (fun _ => 0)
      (timedPacket 5)).isSome := by
  decide +kernel

theorem pts_reads_small :
    ∃ head pes r ws, writeAccessUnit (· * 27000) (session 2 48000 [] [0x11, 0x90]) (fun _ => 0)
      (timedPacket 5)
        = some r ∧ r.1 = CacheWrite.all (head ++ pes) :: ws ∧ pes.length = 14 ∧
          PtsReads pes 450 := by
  obtain ⟨head, pes, rest, -, hfirst, hlen, -, -, hreads⟩ := pts_reads_iff (· * 27000)
    (session 2 48000 [] [0x11, 0x90]) (fun _ => 0) (timedPacket 5) .audio (by decide) (by decide)
  obtain ⟨r, hr⟩ := Option.isSome_iff_exists.mp timedPacket_written
  obtain ⟨ws, hws⟩ := hfirst rfl r hr
  exact ⟨head, pes, r, ws, hr, hws, hlen, hreads.mpr (by decide)⟩

/-- after 13 hours, 15 minutes and 22 seconds the time stamp starts again at zero -/
theorem pts_wraps :
    ∃ head pes rest, unitHeaders (· * 27000) (session 2 48000 [] [0x11, 0x90]) (fun _ => 0)
      (timedPacket 47721859) .audio
        = (head ++ pes) :: rest ∧ pes.length = 14 ∧ PtsReads pes 14 ∧
          ¬ PtsReads pes (90 * 47721859 % 2 ^ 33) := by
  have hreads := pesHeader_pts (streamId .audio) (pesPacketLength 207) (ptsOf 47721859)
  refine ⟨_, pesHeader (streamId .audio) (pesPacketLength 207) (ptsOf 47721859), _, rfl, rfl, ?_,
    ?_⟩
  · exact hreads
  · intro h
    exact absurd (hreads.2.symm.trans h.2) (by decide)

end Pluto.Ts

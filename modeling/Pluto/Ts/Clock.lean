import Pluto.Ts.TimeStamp

/-!
# The clock value of an access unit

* `PcrField`             33 bits of base, six reserved bits and 9 bits of extension, in six bytes;
* `firstHeader_pcr`      what the first header of an access unit holds for a clock value that is not
  negative;
* `pcr_reads`            below `300 * 2 ^ 33` it reads back.
-/

namespace Pluto.Ts
open Octets Transport

/-! ## the field -/

structure PcrField where
  base : Nat
  reserved : Nat
  extension : Nat
deriving DecidableEq, Repr

/-- the 48 bits of the field, the first byte in front -/
def readPcr (b : Bytes) : PcrField := ⟨ofBe b / 2 ^ 15, ofBe b / 2 ^ 9 % 2 ^ 6, ofBe b % 2 ^ 9⟩

theorem ofInt_shiftRight (n k : Nat) :
    (UInt8.ofInt ((n : Int) >>> (k : Int))).toNat = n / 2 ^ k % 256 := by
  rw [Int.shiftRight_natCast, ofInt_natCast, UInt8.toNat_ofNat', Nat.shiftRight_eq_div_pow]

/-- the byte that the three parts share: the byte store cuts off all of the base but its lowest
bit -/
theorem shared_byte (high : Nat) {low : Nat} (hlow : low < 2 ^ 9) :
    (UInt8.ofInt ((high : Int) <<< 7) ||| UInt8.ofInt ((low : Int) >>> 8) ||| 0x7e).toNat
      = high % 2 * 2 ^ 7 + (2 ^ 6 - 1) * 2 + low / 2 ^ 8 := by
  have h : ∀ a b : Fin 2, (UInt8.ofNat (a * 2 ^ 7) ||| UInt8.ofNat b ||| 0x7e).toNat
      = a * 2 ^ 7 + (2 ^ 6 - 1) * 2 + b := by decide
  have hbase : UInt8.ofInt ((high : Int) <<< 7) = UInt8.ofNat (high % 2 * 2 ^ 7) := by
    have hshift : (high : Int) <<< 7 = ((high <<< 7 : Nat) : Int) := Int.shiftLeft_natCast high 7
    rw [hshift, ofInt_natCast, Nat.shiftLeft_eq]
    apply UInt8.toNat_inj.mp
    rw [UInt8.toNat_ofNat', UInt8.toNat_ofNat']
    omega
  have hext : UInt8.ofInt ((low : Int) >>> 8) = UInt8.ofNat (low / 2 ^ 8) := by
    have hshift : (low : Int) >>> 8 = ((low >>> 8 : Nat) : Int) := Int.shiftRight_natCast low 8
    rw [hshift, ofInt_natCast, Nat.shiftRight_eq_div_pow]
  rw [hbase, hext]
  exact h ⟨high % 2, Nat.mod_lt _ (by decide)⟩ ⟨low / 2 ^ 8, by omega⟩

/-- **The six bytes** hold the 33 low bits of the quotient, six ones and the remainder. -/
theorem firstHeader_pcr (PID counter paddingSize PCR : Nat) :
    readPcr (slice (firstHeader PID counter paddingSize PCR) 6 6)
      = ⟨PCR / 300 % 2 ^ 33, 2 ^ 6 - 1, PCR % 300⟩ := by
  have hlow : PCR % 300 < 2 ^ 9 := (Nat.mod_lt PCR (by decide)).trans (by decide)
  have h0 : (UInt8.ofInt (((PCR / 300 : Nat) : Int) >>> 25)).toNat = _ :=
    ofInt_shiftRight (PCR / 300) 25
  have h1 : (UInt8.ofInt (((PCR / 300 : Nat) : Int) >>> 17)).toNat = _ :=
    ofInt_shiftRight (PCR / 300) 17
  have h2 : (UInt8.ofInt (((PCR / 300 : Nat) : Int) >>> 9)).toNat = _ :=
    ofInt_shiftRight (PCR / 300) 9
  have h3 : (UInt8.ofInt (((PCR / 300 : Nat) : Int) >>> 1)).toNat = _ :=
    ofInt_shiftRight (PCR / 300) 1
  have h4 := shared_byte (PCR / 300) hlow
  have h5 : (UInt8.ofInt ((PCR % 300 : Nat) : Int)).toNat = PCR % 300 % 256 := by
    rw [ofInt_natCast, UInt8.toNat_ofNat']
  -- division and remainder of C are those of the natural numbers
  have hfield : ofBe (slice (firstHeader PID counter paddingSize PCR) 6 6)
      = PCR / 300 % 2 ^ 33 * 2 ^ 15 + (2 ^ 6 - 1) * 2 ^ 9 + PCR % 300 := by
    show (((((0 * 256 + (UInt8.ofInt (((PCR / 300 : Nat) : Int) >>> 25)).toNat) * 256
        + (UInt8.ofInt (((PCR / 300 : Nat) : Int) >>> 17)).toNat) * 256
        + (UInt8.ofInt (((PCR / 300 : Nat) : Int) >>> 9)).toNat) * 256
        + (UInt8.ofInt (((PCR / 300 : Nat) : Int) >>> 1)).toNat) * 256
        + (UInt8.ofInt (((PCR / 300 : Nat) : Int) <<< 7)
          ||| UInt8.ofInt (((PCR % 300 : Nat) : Int) >>> 8)
          ||| 0x7e).toNat) * 256
        + (UInt8.ofInt ((PCR % 300 : Nat) : Int)).toNat = _
    rw [h0, h1, h2, h3, h4, h5]
    omega
  unfold readPcr
  rw [hfield, PcrField.mk.injEq]
  refine ⟨?_, ?_, ?_⟩ <;> omega

/-! ## the access unit -/

/-- **The clock value of an access unit.**  The first header of every access unit, also of one that
aborts, is what `write_access_unit` writes first, and has an adaptation field with room for a clock
value, whose flags announce nothing else.  If the clock value is below `300 * 2 ^ 33`, the six bytes
behind the flags read as its quotient and its remainder by 300, with six ones between them. -/
theorem pcr_reads (pcr : Int → Int) (ctx : AVFormatContext) (m : Mem) (pkt : AVPacket)
    (t : CodecType) (h0 : 0 ≤ pcr pkt.pts) (hlt : pcr pkt.pts < 300 * 2 ^ 33) :
    ∃ head rest field, unitHeaders pcr ctx m pkt t = head :: rest ∧
      (codecType pkt.stream_idx = some t → ∀ r, writeAccessUnit pcr ctx m pkt = some r →
        ∃ ws, r.1 = CacheWrite.all head :: ws) ∧
      7 ≤ byteAt head 4 ∧ byteAt head 5 = 0x10 ∧
      readPcr (slice head 6 6) = field ∧ field.reserved = 0b111111 ∧
      (field.base : Int) = pcr pkt.pts / 300 ∧ (field.extension : Int) = pcr pkt.pts % 300 ∧
      (field.base : Int) * 300 + field.extension = pcr pkt.pts := by
  obtain ⟨n, hn⟩ := Int.eq_ofNat_of_zero_le h0
  have hfield := firstHeader_pcr (ctx.mTrackPid t) (ctx.mTSContinuityCounter t)
    (paddingSize (streamSize ctx pkt t)) n
  rw [hn] at hlt ⊢
  refine ⟨unitPrefix pcr ctx pkt t, _, ⟨n / 300, 2 ^ 6 - 1, n % 300⟩, rfl,
    fun ht r hr => writeAccessUnit_first pcr ht hr, ?_, rfl, ?_, rfl, ?_, ?_, ?_⟩
  · show 7 ≤ (UInt8.ofNat (paddingSize (streamSize ctx pkt t) + 7)).toNat
    rcases lt_or_ge (streamSize ctx pkt t) 162 with h | h
    · rw [paddingSize_small h]
      decide
    · rw [paddingSize_large h]
      decide
  · rw [Nat.mod_eq_of_lt (by omega : n / 300 < 2 ^ 33)] at hfield
    rw [← hfield, ← hn]
    rfl
  · exact Int.natCast_ediv n 300
  · exact Int.natCast_emod n 300
  · dsimp only
    omega

/-- a clock whose quotient has bit 32 and whose remainder has bit 8 -/
theorem pcr_reads_high :
    ∃ head rest field, unitHeaders (fun _ => 300 * 2 ^ 32 + 299) (session 2 48000 [] [0x11, 0x90])
      (fun _ => 0)
        (timedPacket 5) .audio = head :: rest ∧
      readPcr (slice head 6 6) = field ∧
        (field.base : Int) * 300 + field.extension = 300 * 2 ^ 32 + 299 := by
  obtain ⟨head, rest, field, hunit, -, -, -, hread, -, -, -, hsum⟩ :=
    pcr_reads (fun _ => 300 * 2 ^ 32 + 299)
      (session 2 48000 [] [0x11, 0x90]) (fun _ => 0) (timedPacket 5) .audio (by decide) (by decide)
  exact ⟨head, rest, field, hunit, hread, hsum⟩

end Pluto.Ts

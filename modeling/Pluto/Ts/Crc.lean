import Pluto.Bytes.Crc
import Pluto.Ts.Pids

/-!
# The checksum of the map table

`crc32` goes a byte at a time through the table of `initCrcTable`.  It is the register of 32 bits
with the polynomial `0x04C11DB7` that starts at `0xFFFFFFFF`, so a section with its checksum behind
it gives `0`.

* `crc32_bitwise`       byte by byte is bit by bit;
* `pmtBuf_section`      what `write_program_map_table` sums, and the checksum behind it;
* `crc32_receiver`      every section with its checksum gives `0`, and so does every map table of a
  run.
-/

namespace Pluto.Ts
open Octets Transport

/-! ## the table -/

def poly32 : BitVec 32 := 0x04C11DB7

/-- the table is that of `initCrcTable` -/
def Tabled (ctx : AVFormatContext) : Prop := ctx.mCrcTable = (initCrcTable ctx).mCrcTable

theorem initCrcTable_tabled (ctx : AVFormatContext) : Tabled (initCrcTable ctx) := rfl

theorem top_bit (c : UInt32) : c &&& 0x80000000 ≠ 0 ↔ c.toBitVec.msb = true := by
  have hand : (c &&& 0x80000000).toBitVec = if c.toBitVec.getLsbD 31 then
      BitVec.twoPow 32 31 else 0#32 := by
    rw [UInt32.toBitVec_and]
    exact BitVec.and_twoPow c.toBitVec 31
  have hzero : c &&& 0x80000000 = 0 ↔ (c &&& 0x80000000).toBitVec = 0#32 := UInt32.toBitVec_inj.symm
  rw [Ne, hzero, hand, BitVec.msb_eq_getLsbD_last]
  show _ ↔ c.toBitVec.getLsbD 31 = true
  cases c.toBitVec.getLsbD 31 with
  | false => simp
  | true => simp

theorem crcStep_shift (c : UInt32) : (crcStep c).toBitVec = Crc.shift poly32 c.toBitVec := by
  unfold crcStep Crc.shift
  by_cases h : c &&& 0x80000000 ≠ 0
  · rw [if_pos h, if_pos ((top_bit c).mp h)]
    rfl
  · rw [if_neg h, if_neg (mt (top_bit c).mpr h)]
    rfl

theorem crcSteps_shift (n : Nat) (c : UInt32) :
    (crcStep^[n] c).toBitVec = (Crc.shift poly32)^[n] c.toBitVec := by
  induction n generalizing c with
  | zero => rfl
  | succ n ih => rw [Function.iterate_succ_apply, Function.iterate_succ_apply, ih, crcStep_shift]

/-- one byte of `crc32` -/
theorem crcTable_byte (crc : UInt32) (p : UInt8) :
    ((crc <<< 8) ^^^ crcStep^[8]
      (UInt32.ofNat (((crc >>> 24) ^^^ p.toUInt32) &&& 0xff).toNat <<< 24)).toBitVec
      = Crc.run poly32 crc.toBitVec (Crc.bits8 p) := by
  have hmask : ∀ x : BitVec 32, (x &&& 0xff#32) <<< 24 = x <<< 24 := by
    intro x
    apply BitVec.eq_of_getLsbD_eq
    intro i hi
    rw [BitVec.getLsbD_shiftLeft, BitVec.getLsbD_shiftLeft, BitVec.getLsbD_and]
    by_cases h24 : i < 24
    · simp [h24]
    · rw [show (0xff#32).getLsbD (i - 24) = true by interval_cases i <;> rfl, Bool.and_true]
  have hbyte : p.toUInt32.toBitVec = BitVec.ofNat 32 p.toNat := by
    rw [UInt8.toBitVec_toUInt32, ← BitVec.ofNat_toNat]
    rfl
  have hindex : (UInt32.ofNat (((crc >>> 24) ^^^ p.toUInt32) &&& 0xff).toNat <<< 24).toBitVec
      = ((crc.toBitVec >>> (32 - 8)) ^^^ BitVec.ofNat 32 p.toNat) <<< (32 - 8) := by
    rw [UInt32.ofNat_toNat, ← hmask, ← hbyte]
    simp
  rw [Crc.run_byte poly32 (by decide), UInt32.toBitVec_xor, crcSteps_shift, hindex]
  simp

/-- **Byte by byte is bit by bit.** -/
theorem crc32_bitwise {ctx : AVFormatContext} (h : Tabled ctx) (s : Bytes) :
    (crc32 ctx s).toBitVec = Crc.run poly32 0xFFFFFFFF#32 (Crc.bitsOf s) := by
  have hfold : ∀ crc : UInt32, (s.foldl (fun (crc : UInt32) (p : UInt8) =>
      (crc <<< 8) ^^^ ctx.mCrcTable (((crc >>> 24) ^^^ p.toUInt32) &&& 0xff).toNat) crc).toBitVec
        = Crc.run poly32 crc.toBitVec (Crc.bitsOf s) := by
    induction s with
    | nil => exact fun _ => rfl
    | cons p s ih =>
      intro crc
      rw [List.foldl_cons, ih, Crc.bitsOf_cons, Crc.run_append, ← crcTable_byte, h]
      rfl
  exact hfold 0xFFFFFFFF

/-- what a receiver computes -/
theorem crc32_check {ctx : AVFormatContext} (h : Tabled ctx) (s : Bytes) :
    crc32 ctx (s ++ be 4 (crc32 ctx s).toNat) = 0 := by
  apply UInt32.toBitVec_inj.mp
  rw [crc32_bitwise h, ← UInt32.toNat_toBitVec, crc32_bitwise h]
  exact Crc.run_check 4 poly32 0xFFFFFFFF#32 s

/-! ## the section -/

/-- the section of a table packet behind its pointer field, as long as its `section_length` says -/
def tableSection (b : Bytes) : Bytes := slice b 5 (3 + (byteAt b 6 % 16 * 256 + byteAt b 7))

theorem slice_memcpy (dst src : Bytes) (p n : Nat) (h : p + n ≤ dst.length) :
    slice (memcpy dst (p + n) src) p (n + src.length) = slice dst p n ++ src := by
  have hlen : (dst.take (p + n)).length = p + n := by rw [List.length_take, Nat.min_eq_left h]
  have hend : slice (dst.take (p + n) ++ src) (p + n) src.length = src := by
    rw [slice_append_right _ _ _ _ hlen.le, hlen, Nat.sub_self, slice, List.drop_zero,
      List.take_length]
  rw [memcpy, slice_append_left _ _ _ _ (by rw [List.length_append, hlen]; omega), slice_add, hend,
    slice_append_left _ _ _ _ hlen.ge]
  congr 1
  rw [slice, slice, List.drop_take, List.take_take, Nat.add_sub_cancel_left, Nat.min_self]

/-- the checksum stands behind the bytes that it is made of -/
theorem pmtBuf_section (ctx : AVFormatContext) (hn : ctx.mTrackCnt = 1 ∨ ctx.mTrackCnt = 2) :
    ∃ s, tableSection (pmtBuf ctx) = s ++ be 4 (crc32 ctx s).toNat := by
  obtain ⟨h6, h7, -⟩ := pmtBuf_bytes ctx hn
  obtain ⟨buf, hlen, hbuf⟩ : ∃ buf : Bytes, buf.length = 188 ∧
      pmtBuf ctx = memcpy buf (17 + 5 * ctx.mTrackCnt)
          (be 4 (crc32 ctx (slice buf 5 (12 + 5 * ctx.mTrackCnt))).toNat) := by
    refine ⟨_, ?_, rfl⟩
    rcases hn with hn | hn <;>
      · rw [hn]
        rfl
  refine ⟨slice buf 5 (12 + 5 * ctx.mTrackCnt), ?_⟩
  unfold tableSection
  have hmid := slice_memcpy buf (be 4 (crc32 ctx (slice buf 5 (12 + 5 * ctx.mTrackCnt))).toNat) 5
    (12 + 5 * ctx.mTrackCnt) (by omega)
  rw [be_length] at hmid
  rw [h6, h7, hbuf, ← hmid]
  congr 1
  · congr 1
    omega
  · omega

/-- **The receiver's check of a map table.** -/
theorem pmtBuf_check {ctx : AVFormatContext} (h : Tabled ctx)
    (hn : ctx.mTrackCnt = 1 ∨ ctx.mTrackCnt = 2) :
    crc32 ctx (tableSection (pmtBuf ctx)) = 0 := by
  obtain ⟨s, hs⟩ := pmtBuf_section ctx hn
  rw [hs]
  exact crc32_check h s

/-! ## a run -/

section
variable (pcr : Int → Int)

/-- no call touches the table -/
theorem call_tabled {ctx : AVFormatContext} {m : Mem} {pkt : AVPacket}
    {r : List CacheWrite × AVFormatContext} (h : mpeg2tsWritePacket pcr ctx m pkt = some r) :
    r.2.mCrcTable = ctx.mCrcTable :=
  call_preserves (P := fun ctx ctx' => ctx'.mCrcTable = ctx.mCrcTable) (fun _ => rfl)
    (fun h h' => h'.trans h)
    (fun _ _ _ _ => rfl) (fun _ => rfl) pcr h

/-- the map tables among the headers of a call -/
theorem mem_pmt_call {ctx : AVFormatContext} {m : Mem} {pkt : AVPacket} {b : Bytes}
    (hn : ctx.mTrackCnt = 1 ∨ ctx.mTrackCnt = 2) (h : .pmt b ∈ callHeaders pcr ctx m pkt) :
    b = pmtBuf (writeProgramAssociationTable ctx).2 := by
  have hlen := pmtBuf_length (writeProgramAssociationTable ctx).2 hn
  have hbytes : emitted (writeProgramMapTable (writeProgramAssociationTable ctx).2).1
      = pmtBuf (writeProgramAssociationTable ctx).2 :=
    (List.append_nil _).trans (List.take_of_length_le hlen.le)
  have hpes : ∀ bs : List Bytes, TsHeader.pmt b ∉ bs.map .pes := by
    intro bs hmem
    obtain ⟨_, -, he⟩ := List.mem_map.mp hmem
    cases he
  unfold callHeaders at h
  split at h
  · simp only [List.mem_cons, TsHeader.pmt.injEq, reduceCtorEq, false_or] at h
    exact (h.resolve_right (hpes _)).trans hbytes
  · split at h
    · exact absurd h (hpes _)
    · cases h

/-- the check holds of every map table of a run -/
theorem pmt_run {ctx : AVFormatContext} (h : Tabled ctx)
    (hn : ctx.mTrackCnt = 1 ∨ ctx.mTrackCnt = 2) (calls : List (Mem × AVPacket)) {b : Bytes}
    (hb : .pmt b ∈ runHeaders pcr ctx calls) :
    crc32 ctx (tableSection b) = 0 := by
  induction calls generalizing ctx with
  | nil => cases hb
  | cons c calls ih =>
    unfold runHeaders at hb
    rcases List.mem_append.mp hb with hcall | hrest
    · rw [mem_pmt_call pcr hn hcall]
      exact pmtBuf_check h hn
    · cases hr : mpeg2tsWritePacket pcr ctx c.1 c.2 with
      | none =>
        rw [hr] at hrest
        cases hrest
      | some r =>
        rw [hr] at hrest
        have htable := call_tabled pcr hr
        have hcheck := ih (htable.trans h) ((call_kept pcr hr).count.symm ▸ hn) hrest
        unfold crc32 at hcheck ⊢
        rwa [htable] at hcheck

/-- **The checksum.**  `crc32` with the table of `initCrcTable` is the register of 32 bits with the
polynomial `0x04C11DB7`, started at `0xFFFFFFFF`; a section with its checksum behind it gives `0`,
and so does the section of every map table that a session writes. -/
theorem crc32_receiver (ctx : AVFormatContext) :
    (∀ s, (crc32 (initCrcTable ctx) s).toBitVec
      = Crc.run 0x04C11DB7#32 0xFFFFFFFF#32 (Crc.bitsOf s)) ∧
      (∀ s, crc32 (initCrcTable ctx) (s ++ be 4 (crc32 (initCrcTable ctx) s).toNat) = 0) ∧
      ∀ (channelCnt sampleRate : Int) (videoCSD audioCSD : Bytes) (calls : List (Mem × AVPacket))
      (b : Bytes),
        .pmt b ∈ runHeaders pcr (session channelCnt sampleRate videoCSD audioCSD) calls →
          crc32 (initCrcTable ctx) (tableSection b) = 0 := by
  refine ⟨crc32_bitwise (initCrcTable_tabled ctx), crc32_check (initCrcTable_tabled ctx), ?_⟩
  intro channelCnt sampleRate videoCSD audioCSD calls b hb
  obtain ⟨-, hcount⟩ := session_tracks channelCnt sampleRate videoCSD audioCSD
  have hn : (session channelCnt sampleRate videoCSD audioCSD).mTrackCnt = 1 ∨
      (session channelCnt sampleRate videoCSD audioCSD).mTrackCnt = 2 := by
    rw [hcount]
    split
    · exact Or.inr rfl
    · exact Or.inl rfl
  have htabled : Tabled (session channelCnt sampleRate videoCSD audioCSD) := by
    unfold session mpeg2tsMuxerWriteHeader
    split <;> rfl
  have hcheck := pmt_run pcr htabled hn calls hb
  unfold crc32 at hcheck ⊢
  rwa [htabled] at hcheck

end

example :
    crc32 (initCrcTable mpeg2tsMuxerOpen) [0x31, 0x32, 0x33, 0x34, 0x35, 0x36, 0x37, 0x38, 0x39]
      = 0x0376e6e7 := by
  decide +kernel

example : crc32 (initCrcTable mpeg2tsMuxerOpen) (tableSection kPATStartData) = 0 := by
  decide +kernel

/-- the map table of a session with both tracks -/
theorem crc32_receiver_both :
    ∃ b, TsHeader.pmt b ∈ runHeaders (· * 27000) (session 2 48000 [] [0x11, 0x90]) twoCalls ∧
      crc32 (initCrcTable mpeg2tsMuxerOpen) (tableSection b) = 0 := by
  have hmem : TsHeader.pmt (emitted (writeProgramMapTable (writeProgramAssociationTable
      (session 2 48000 [] [0x11, 0x90])).2).1)
          ∈ runHeaders (· * 27000) (session 2 48000 [] [0x11, 0x90]) twoCalls :=
    List.mem_append_left _ (List.mem_cons_of_mem _ List.mem_cons_self)
  exact ⟨_, hmem, (crc32_receiver (· * 27000) mpeg2tsMuxerOpen).2.2 2 48000 []
    [0x11, 0x90] twoCalls _ hmem⟩

end Pluto.Ts

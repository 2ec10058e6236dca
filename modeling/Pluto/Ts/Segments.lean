import Pluto.Bytes.Transport
import Pluto.Ts.Muxer

/-!
# The payload cursor over two segments

`write_av_ts_packet` finds out by comparing pointers which segment its cursor is in.  `At pkt o ptr`
says that the cursor stands behind the first `o` payload bytes; a packet keeps it right, except
that a packet which ends exactly at the end of `data0` leaves it there: it is then in neither
segment unless `data1` follows directly.

* `writeAvTsPacket_at`   one packet from the payload: the bytes, and the cursor behind them;
* `writeFragments_at`    one round of the loop;
* `Inside`               writes that read within the two segments.
-/

namespace Pluto
open Octets

def AVPacket.size (pkt : AVPacket) : Nat := pkt.size0 + pkt.size1

/-- the payload fits into an `int` -/
def AVPacket.Fits (pkt : AVPacket) : Prop := pkt.size < 2 ^ 31

instance (pkt : AVPacket) : Decidable pkt.Fits := inferInstanceAs (Decidable (pkt.size < 2 ^ 31))

def AVPacket.InSegments (pkt : AVPacket) (x : Int) : Prop :=
  (pkt.data0 ≤ x ∧ x < pkt.data0 + pkt.size0) ∨ (pkt.data1 ≤ x ∧ x < pkt.data1 + pkt.size1)

/-- the two segments share no byte -/
def AVPacket.Disjoint (pkt : AVPacket) : Prop :=
  ∀ x, ¬ ((pkt.data0 ≤ x ∧ x < pkt.data0 + pkt.size0) ∧ (pkt.data1 ≤ x ∧ x < pkt.data1 + pkt.size1))

/-- `data1` directly follows `data0` -/
def AVPacket.Contiguous (pkt : AVPacket) : Prop := pkt.size1 = 0 ∨ pkt.data1 = pkt.data0 + pkt.size0

theorem AVPacket.Contiguous.disjoint {pkt : AVPacket} (h : pkt.Contiguous) : pkt.Disjoint := by
  intro x hx
  rcases h with h | h
  · omega
  · omega

theorem AVPacket.slice_payload0 (pkt : AVPacket) (m : Mem) (o n : Nat) (h : o + n ≤ pkt.size0) :
    slice (pkt.payload m) o n = read m (pkt.data0 + o) n := by
  rw [AVPacket.payload, slice_append_left _ _ _ _ (by rw [AVPacket.seg0, read_length]; exact h),
    AVPacket.seg0, slice_read _ _ _ _ _ h]

theorem AVPacket.slice_payload1 (pkt : AVPacket) (m : Mem) (o n : Nat) (h0 : pkt.size0 ≤ o)
    (h1 : o + n ≤ pkt.size) :
    slice (pkt.payload m) o n = read m (pkt.data1 + (o - pkt.size0 : Nat)) n := by
  have h2 : (pkt.seg0 m).length = pkt.size0 := by rw [AVPacket.seg0, read_length]
  unfold AVPacket.size at h1
  rw [AVPacket.payload, slice_append_right _ _ _ _ (by omega), h2, AVPacket.seg1,
    slice_read _ _ _ _ _ (by omega)]

/-- every length is that of the bytes written, and all reads lie in the two segments -/
def Inside (pkt : AVPacket) (ws : List CacheWrite) : Prop :=
  ∀ w ∈ ws, (w.bytes.length : Int) = w.size ∧ ∀ x, w.reads x → pkt.InSegments x

theorem inside_append {pkt : AVPacket} {ws vs : List CacheWrite} :
    Inside pkt (ws ++ vs) ↔ Inside pkt ws ∧ Inside pkt vs := List.forall_mem_append

theorem inside_all (pkt : AVPacket) (bs : List Bytes) : Inside pkt (bs.map CacheWrite.all) := by
  intro w hw
  obtain ⟨b, _, rfl⟩ := List.mem_map.mp hw
  exact ⟨by rw [CacheWrite.all_bytes]; rfl, fun x hx => False.elim hx⟩

theorem inside_data0 (pkt : AVPacket) (m : Mem) (o n : Nat) (h : o + n ≤ pkt.size0) :
    Inside pkt [⟨.memory m (pkt.data0 + o), n⟩] := by
  intro w hw
  rw [List.mem_singleton] at hw
  rw [hw]
  refine ⟨congrArg Nat.cast (read_length m _ n), fun x hx => Or.inl ?_⟩
  have hx1 : pkt.data0 + o ≤ x := hx.1
  have hx2 : x < pkt.data0 + o + n := hx.2
  omega

theorem inside_data1 (pkt : AVPacket) (m : Mem) (o n : Nat) (h : o + n ≤ pkt.size1) :
    Inside pkt [⟨.memory m (pkt.data1 + o), n⟩] := by
  intro w hw
  rw [List.mem_singleton] at hw
  rw [hw]
  refine ⟨congrArg Nat.cast (read_length m _ n), fun x hx => Or.inr ?_⟩
  have hx1 : pkt.data1 + o ≤ x := hx.1
  have hx2 : x < pkt.data1 + o + n := hx.2
  omega

theorem bytes_memory (m : Mem) (a : Int) (n : Nat) :
    (CacheWrite.mk (.memory m a) n).bytes = read m a n :=
  rfl

theorem bytes_buffer (b : Bytes) (n : Int) : (CacheWrite.mk (.buffer b) n).bytes = b.take n.toNat :=
  rfl

namespace Ts

theorem toInt32_of_range {x : Int} (h0 : 0 ≤ x) (h1 : x < 2 ^ 31) : toInt32 x = x := by
  unfold toInt32
  omega

/-! ## one packet -/

section
variable {pkt : AVPacket} {m : Mem} {o t : Nat} {left : Int}

theorem write_data0 (hfit : pkt.Fits) (ho : o < pkt.size0) (ht : o + t ≤ pkt.size0)
    (hl : (t : Int) ≤ left) :
    writeAvTsPacket m pkt t left (pkt.data0 + o)
      = some ([⟨.memory m (pkt.data0 + o), t⟩], left - t, pkt.data0 + (o + t : Nat)) := by
  unfold AVPacket.Fits AVPacket.size at hfit
  have hin : pkt.data0 ≤ pkt.data0 + (o : Int) ∧ pkt.data0 + (o : Int) < pkt.data0 + pkt.size0 := by
    omega
  have hcur : toInt32 (pkt.data0 + pkt.size0 - (pkt.data0 + o)) = pkt.size0 - o := by
    rw [toInt32_of_range] <;> omega
  have hptr : pkt.data0 + (o : Int) + t = pkt.data0 + (o + t : Nat) := by push_cast; ring
  unfold writeAvTsPacket
  dsimp only
  rw [if_pos hl, if_pos hin, hcur, if_pos (by omega), hptr]

theorem write_across (hfit : pkt.Fits) (ho : o < pkt.size0) (ht : pkt.size0 < o + t)
    (hl : (t : Int) ≤ left) :
    writeAvTsPacket m pkt t left (pkt.data0 + o)
      = some ([⟨.memory m (pkt.data0 + o), (pkt.size0 - o : Nat)⟩,
          ⟨.memory m pkt.data1, (o + t - pkt.size0 : Nat)⟩],
        left - t, pkt.data1 + (o + t - pkt.size0 : Nat)) := by
  unfold AVPacket.Fits AVPacket.size at hfit
  have hin : pkt.data0 ≤ pkt.data0 + (o : Int) ∧ pkt.data0 + (o : Int) < pkt.data0 + pkt.size0 := by
    omega
  have hcur : toInt32 (pkt.data0 + pkt.size0 - (pkt.data0 + o)) = (pkt.size0 - o : Nat) := by
    rw [toInt32_of_range] <;> omega
  have hrest : (t : Int) - (pkt.size0 - o : Nat) = (o + t - pkt.size0 : Nat) := by omega
  unfold writeAvTsPacket
  dsimp only
  rw [if_pos hl, if_pos hin, hcur, if_neg (by omega), if_pos hin, hrest]

theorem write_data1 (hfit : pkt.Fits) {ptr : Int} (hd : pkt.Disjoint) (h0 : pkt.size0 ≤ o)
    (h1 : o < pkt.size) (hptr : ptr = pkt.data1 + (o - pkt.size0 : Nat)) (ht : o + t ≤ pkt.size)
    (hl : (t : Int) ≤ left) :
    writeAvTsPacket m pkt t left ptr
      = some ([⟨.memory m ptr, t⟩], left - t, pkt.data1 + (o + t - pkt.size0 : Nat)) := by
  unfold AVPacket.Fits at hfit
  unfold AVPacket.size at hfit h1 ht
  have hin : ¬ (pkt.data0 ≤ ptr ∧ ptr < pkt.data0 + pkt.size0) := by
    intro h
    exact hd ptr ⟨h, by omega, by omega⟩
  have hcur : toInt32 (pkt.data1 + pkt.size1 - ptr) = (pkt.size - o : Nat) := by
    rw [AVPacket.size, toInt32_of_range] <;> omega
  have hnext : ptr + (t : Int) = pkt.data1 + (o + t - pkt.size0 : Nat) := by omega
  unfold writeAvTsPacket
  dsimp only
  rw [if_pos hl, if_neg hin, hcur, if_pos (by unfold AVPacket.size; omega), hnext]

/-- the cursor stands behind the first `o` bytes -/
def At (pkt : AVPacket) (o : Nat) (ptr : Int) : Prop :=
  (o < pkt.size0 → ptr = pkt.data0 + o) ∧
    (pkt.size0 ≤ o → o < pkt.size → ptr = pkt.data1 + (o - pkt.size0 : Nat))

/-- a packet that ends at `o` does not leave the cursor between the segments -/
def Clear (pkt : AVPacket) (o : Nat) : Prop := o = pkt.size0 → pkt.Contiguous

/-- **One packet from the payload.** -/
theorem writeAvTsPacket_at {ptr : Int} (hfit : pkt.Fits) (hd : pkt.Disjoint) (h : At pkt o ptr)
    (ho : o < pkt.size) (ht : o + t ≤ pkt.size) (hc : Clear pkt (o + t)) :
    ∃ ws ptr', writeAvTsPacket m pkt t ((pkt.size - o : Nat) : Int) ptr
        = some (ws, ((pkt.size - (o + t) : Nat) : Int), ptr') ∧
      At pkt (o + t) ptr' ∧ Inside pkt ws ∧ emitted ws = slice (pkt.payload m) o t := by
  have hl : (t : Int) ≤ ((pkt.size - o : Nat) : Int) := by omega
  have hleft : ((pkt.size - o : Nat) : Int) - t = ((pkt.size - (o + t) : Nat) : Int) := by omega
  by_cases h0 : o < pkt.size0
  · obtain rfl : ptr = pkt.data0 + o := h.1 h0
    by_cases h1 : o + t ≤ pkt.size0
    · refine ⟨_, _, by rw [write_data0 hfit h0 h1 hl, hleft], ⟨fun _ => rfl, fun hge hlt => ?_⟩,
        inside_data0 pkt m o t h1, ?_⟩
      · -- the packet ended where `data0` ends
        have he : o + t = pkt.size0 := le_antisymm h1 hge
        unfold AVPacket.size at hlt
        rcases hc he with hz | hz
        · omega
        · omega
      · rw [AVPacket.slice_payload0 pkt m o t h1]
        exact List.append_nil _
    · obtain ⟨r, hr⟩ := Nat.exists_eq_add_of_lt (not_le.mp h1)
      have et : t = (pkt.size0 - o) + (r + 1) := by omega
      have er : o + t - pkt.size0 = r + 1 := by omega
      have eo : o + (pkt.size0 - o) = pkt.size0 := by omega
      have hr1 : r + 1 ≤ pkt.size1 := by unfold AVPacket.size at ht; omega
      have hin1 := inside_data1 pkt m 0 (r + 1) (by omega)
      rw [Nat.cast_zero, add_zero] at hin1
      refine ⟨_, _, by rw [write_across hfit h0 (by omega) hl, hleft],
        ⟨fun hlt => by omega, fun _ _ => rfl⟩, ?_, ?_⟩
      · rw [er]
        exact inside_append.mpr ⟨inside_data0 pkt m o _ eo.le, hin1⟩
      · rw [er, et, slice_add, eo, AVPacket.slice_payload0 pkt m _ _ eo.le,
          AVPacket.slice_payload1 pkt m _ _ le_rfl (by omega), Nat.sub_self, Nat.cast_zero,
          add_zero,
          emitted_cons, emitted_cons, emitted_nil, List.append_nil, bytes_memory, bytes_memory]
  · have h0' := not_lt.mp h0
    obtain rfl := h.2 h0' ho
    have ht1 : o - pkt.size0 + t ≤ pkt.size1 := by unfold AVPacket.size at ht; omega
    refine ⟨_, _, by rw [write_data1 hfit hd h0' ho rfl ht hl, hleft],
      ⟨fun hlt => by omega, fun _ _ => rfl⟩, inside_data1 pkt m _ t ht1, ?_⟩
    rw [AVPacket.slice_payload1 pkt m o t h0' ht]
    exact List.append_nil _

end

/-! ## the loop -/

/-- the write in front of the payload of a packet behind the first -/
def fragmentWrite (PID counter : Nat) (left : Int) : CacheWrite :=
  ⟨.buffer (fragmentHeader PID counter left).1, (fragmentHeader PID counter left).2⟩

/-- what is written in front of the payload of a packet behind the first: `n` bytes are left -/
def fragmentPrefix (PID counter n : Nat) : Bytes :=
  [0x47, UInt8.ofNat (PID >>> 8), UInt8.ofNat (PID &&& 0xff),
    UInt8.ofNat ((if n < 184 then 0x30 else 0x10) ||| counter)]
    ++ Transport.adaptationField (if n < 184 then some (Transport.stuffing (184 - n)) else none)

theorem fragmentHeader_size (PID counter n : Nat) :
    (fragmentHeader PID counter n).2 = (188 - min 184 n : Nat) := by
  unfold fragmentHeader
  dsimp only
  by_cases h : n < 184
  · rw [if_pos (by show (n : Int) < 184; omega)]
    show (188 - 4 - (n : Int)) + 4 = _
    omega
  · rw [if_neg (by show ¬ (n : Int) < 184; omega)]
    show (4 : Int) = _
    omega

theorem ofInt_natCast (n : Nat) : UInt8.ofInt n = UInt8.ofNat n := by
  apply UInt8.toNat_inj.mp
  rw [UInt8.ofInt, UInt8.toNat_ofNat', UInt8.toNat_ofNat']
  omega

theorem freshBuf_set5 (a b c d e f : UInt8) :
    (((((freshBuf.set 0 a).set 1 b).set 2 c).set 3 d).set 4 e).set 5 f
      = a :: b :: c :: d :: e :: f :: List.replicate 182 0xff := rfl

theorem fragmentWrite_bytes (PID counter n : Nat) (hn : 0 < n) :
    (fragmentWrite PID counter n).bytes = fragmentPrefix PID counter n := by
  rw [fragmentWrite, bytes_buffer, fragmentHeader_size, Int.toNat_natCast]
  unfold fragmentHeader fragmentPrefix
  dsimp only
  by_cases h : n < 184
  · have h' : (n : Int) < (tsPackageSz : Int) - 4 := by show (n : Int) < 184; omega
    have hpad : UInt8.ofInt ((tsPackageSz : Int) - 4 - n - 1)
        = UInt8.ofNat (Transport.stuffing (184 - n)).length := by
      rw [Transport.stuffing_length, ← ofInt_natCast]
      congr 1
      show (188 : Int) - 4 - n - 1 = _
      omega
    rw [if_pos h', if_pos h', if_pos h, if_pos h, hpad, Nat.min_eq_right h.le]
    by_cases h2 : n ≤ 182
    · have h2' : (tsPackageSz : Int) - 4 - n ≥ 2 := by show (188 : Int) - 4 - n ≥ 2; omega
      have hk : 188 - n = (182 - n) + 6 := by omega
      have hst : Transport.stuffing (184 - n) = 0 :: List.replicate (182 - n) 0xff := by
        rw [Transport.stuffing, if_neg (by omega), show 184 - n - 2 = 182 - n by omega]
      rw [if_pos h2', freshBuf_set5, hst, hk]
      simp only [List.take_succ_cons, List.take_replicate, Nat.min_eq_left (Nat.sub_le 182 n)]
      rfl
    · have h3 : n = 183 := by omega
      rw [h3]
      rfl
  · have h' : ¬ (n : Int) < (tsPackageSz : Int) - 4 := by show ¬ (n : Int) < 184; omega
    rw [if_neg h', if_neg h', if_neg h, if_neg h, Nat.min_eq_left (not_lt.mp h)]
    rfl

/-- the context after one more packet of the track -/
def bump (ctx : AVFormatContext) (ty : CodecType) : AVFormatContext :=
  { ctx with
    mTSContinuityCounter := Function.update ctx.mTSContinuityCounter ty
      (if ctx.mTSContinuityCounter ty ≥ 0x0f then 0 else ctx.mTSContinuityCounter ty + 1) }

theorem writeFragments_succ (m : Mem) (pkt : AVPacket) (ty : CodecType) (PID fuel : Nat)
    (ctx : AVFormatContext) {n : Nat} (hn : 0 < n) (ptr : Int) :
    writeFragments m pkt ty PID (fuel + 1) ctx n ptr
      = match writeAvTsPacket m pkt (min 184 n : Nat) n ptr with
        | none => none
        | some (ws, left, ptr) =>
          (writeFragments m pkt ty PID fuel (bump ctx ty) left ptr).map fun r =>
            (fragmentWrite PID (ctx.mTSContinuityCounter ty) n :: ws ++ r.1, r.2) := by
  have hroom : (tsPackageSz : Int) - (fragmentHeader PID (ctx.mTSContinuityCounter ty) n).2
      = (min 184 n : Nat) := by
    rw [fragmentHeader_size]
    show (188 : Int) - _ = _
    omega
  rw [writeFragments, if_neg (by omega)]
  dsimp only
  rw [hroom]
  rfl

theorem fragmentPrefix_length (PID counter : Nat) {n : Nat} (hn : 0 < n) :
    (fragmentPrefix PID counter n).length = 188 - min 184 n := by
  unfold fragmentPrefix
  by_cases h : n < 184
  · rw [if_pos h, if_pos h]
    simp only [List.length_append, Transport.adaptationField, List.length_cons, List.length_nil,
      Transport.stuffing_length]
    omega
  · rw [if_neg h, if_neg h, Nat.min_eq_left (not_lt.mp h)]
    rfl

theorem fragmentWrite_inside (pkt : AVPacket) (PID counter : Nat) {n : Nat} (hn : 0 < n) :
    Inside pkt [fragmentWrite PID counter n] := by
  intro w hw
  rw [List.mem_singleton] at hw
  rw [hw]
  refine ⟨?_, fun x hx => False.elim hx⟩
  rw [fragmentWrite_bytes _ _ _ hn, fragmentPrefix_length _ _ hn, fragmentWrite,
    fragmentHeader_size]

/-- **One round of the loop.** -/
theorem writeFragments_at {pkt : AVPacket} {m : Mem} {o : Nat} {ptr : Int} (hfit : pkt.Fits)
    (hd : pkt.Disjoint) (h : At pkt o ptr) (ho : o < pkt.size) (ty : CodecType) (PID fuel : Nat)
    (ctx : AVFormatContext) (hc : Clear pkt (o + min 184 (pkt.size - o))) :
    ∃ ws ptr', writeFragments m pkt ty PID (fuel + 1) ctx (pkt.size - o : Nat) ptr
        = (writeFragments m pkt ty PID fuel (bump ctx ty)
            (pkt.size - (o + min 184 (pkt.size - o)) : Nat) ptr').map (fun r => (ws ++ r.1, r.2)) ∧
      At pkt (o + min 184 (pkt.size - o)) ptr' ∧ Inside pkt ws ∧
      emitted ws = fragmentPrefix PID (ctx.mTSContinuityCounter ty) (pkt.size - o)
        ++ slice (pkt.payload m) o (min 184 (pkt.size - o)) := by
  have hpos : 0 < pkt.size - o := by omega
  obtain ⟨ws, ptr', hw, hat, hin, hem⟩ := writeAvTsPacket_at (m := m) (t := min 184 (pkt.size - o))
    hfit hd h ho (by omega) hc
  refine ⟨fragmentWrite PID (ctx.mTSContinuityCounter ty) (pkt.size - o : Nat) :: ws, ptr', ?_, hat,
    inside_append.mpr ⟨fragmentWrite_inside pkt PID _ hpos, hin⟩, ?_⟩
  · rw [writeFragments_succ m pkt ty PID fuel ctx hpos, hw]
  · rw [emitted_cons, hem, fragmentWrite_bytes _ _ _ hpos]

end Ts

end Pluto

import Pluto.Ts.Segments

/-!
# The bytes of an access unit

An access unit whose segments are never left between two packets (`AllClear`) comes out as
`unitBytes`: a function of the payload, not of where it lies.

* `carried`      the bytes of the packets behind the first;
* `unitBytes`    the first packet and those behind it;
* `writeAccessUnit_eq`   the source with the parts of its first packet named;
* `writeAccessUnit_bytes`   what it emits, and that it reads nothing else.
-/

namespace Pluto.Ts
open Octets

def nextCounter (c : Nat) : Nat := if c ≥ 0x0f then 0 else c + 1

/-- the packets that carry `body` behind the first packet -/
def carried (PID : Nat) (counter : Nat) (body : Bytes) : Bytes :=
  if body = [] then []
  else fragmentPrefix PID counter body.length ++ body.take 184
    ++ carried PID (nextCounter counter) (body.drop 184)
termination_by body.length
decreasing_by
  rw [List.length_drop]
  have := List.length_pos_of_ne_nil ‹_›
  omega

@[simp] theorem carried_nil (PID counter : Nat) : carried PID counter [] = [] := by
  rw [carried, if_pos rfl]

theorem carried_ne_nil (PID counter : Nat) {body : Bytes} (h : body ≠ []) :
    carried PID counter body = fragmentPrefix PID counter body.length ++ body.take 184
      ++ carried PID (nextCounter counter) (body.drop 184) := by
  rw [carried, if_neg h]

/-- the number of packets behind the first that carry `n` bytes -/
def rounds (n : Nat) : Nat := (n + 183) / 184

theorem rounds_pos {n : Nat} (h : 0 < n) : rounds n = rounds (n - min 184 n) + 1 := by
  unfold rounds
  omega

theorem bump_counter (ctx : AVFormatContext) (ty : CodecType) :
    (bump ctx ty).mTSContinuityCounter ty = nextCounter (ctx.mTSContinuityCounter ty) :=
  Function.update_self ..

theorem clear_end (pkt : AVPacket) : Clear pkt pkt.size := by
  intro h
  unfold AVPacket.size at h
  exact Or.inl (by omega)

/-- **The loop writes what is left of the payload.** -/
theorem writeFragments_bytes {pkt : AVPacket} {m : Mem} (hfit : pkt.Fits) (hd : pkt.Disjoint)
    (ty : CodecType) (PID fuel : Nat) (ctx : AVFormatContext) {o : Nat} {ptr : Int}
    (h : At pkt o ptr) (ho : o ≤ pkt.size) (hfuel : pkt.size - o < fuel)
    (hc : ∀ k, Clear pkt (o + 184 * (k + 1))) :
    ∃ ws, writeFragments m pkt ty PID fuel ctx (pkt.size - o : Nat) ptr
        = some (ws, (bump · ty)^[rounds (pkt.size - o)] ctx) ∧
      Inside pkt ws ∧
      emitted ws = carried PID (ctx.mTSContinuityCounter ty) ((pkt.payload m).drop o) := by
  induction fuel generalizing ctx o ptr with
  | zero => exact absurd hfuel (Nat.not_lt_zero _)
  | succ fuel ih =>
    rcases Nat.eq_or_lt_of_le ho with he | hlt
    · have h0 : pkt.size - o = 0 := by omega
      have hnil : (pkt.payload m).drop o = [] := List.drop_eq_nil_of_le (by
        rw [AVPacket.payload_length]; exact he.ge)
      refine ⟨[], ?_, fun w hw => absurd hw List.not_mem_nil, ?_⟩
      · rw [h0, Nat.cast_zero, writeFragments, if_pos rfl]
        rfl
      · rw [hnil, carried_nil, emitted_nil]
    · have hpos : 0 < pkt.size - o := by omega
      have hlen : ((pkt.payload m).drop o).length = pkt.size - o := by
        rw [List.length_drop, AVPacket.payload_length]; rfl
      have hne : (pkt.payload m).drop o ≠ [] := List.ne_nil_of_length_pos (by omega)
      have hc0 : Clear pkt (o + min 184 (pkt.size - o)) := by
        rcases Nat.le_total 184 (pkt.size - o) with hle | hle
        · rw [Nat.min_eq_left hle]
          exact hc 0
        · rw [Nat.min_eq_right hle, Nat.add_sub_cancel' hlt.le]
          exact clear_end pkt
      obtain ⟨ws, ptr', hw, hat, hin, hem⟩ :=
        writeFragments_at (m := m) hfit hd h hlt ty PID fuel ctx hc0
      have hc1 : ∀ k, Clear pkt (o + min 184 (pkt.size - o) + 184 * (k + 1)) := by
        intro k
        rcases Nat.le_total 184 (pkt.size - o) with hle | hle
        · rw [Nat.min_eq_left hle, show o + 184 + 184 * (k + 1) = o + 184 * (k + 1 + 1) by ring]
          exact hc (k + 1)
        · intro hk
          unfold AVPacket.size at hk hle hlt
          omega
      obtain ⟨vs, hv, hvin, hvem⟩ := ih (bump ctx ty) hat (by omega) (by omega) hc1
      have hleft : pkt.size - (o + min 184 (pkt.size - o))
          = pkt.size - o - min 184 (pkt.size - o) := by omega
      refine ⟨ws ++ vs, ?_, inside_append.mpr ⟨hin, hvin⟩, ?_⟩
      · rw [hw, hv, hleft, rounds_pos hpos]
        rfl
      · have htake : slice (pkt.payload m) o (min 184 (pkt.size - o))
            = ((pkt.payload m).drop o).take 184 := by
          rw [slice, ← hlen, ← List.take_take, List.take_length]
        have hdrop : (pkt.payload m).drop (o + min 184 (pkt.size - o))
            = ((pkt.payload m).drop o).drop 184 := by
          rw [← List.drop_drop]
          rcases Nat.le_total 184 (pkt.size - o) with hle | hle
          · rw [Nat.min_eq_left hle]
          · rw [Nat.min_eq_right hle, List.drop_eq_nil_of_le hlen.le,
              List.drop_eq_nil_of_le (by omega)]
        rw [emitted_append, hem, hvem, hdrop, htake, bump_counter, carried_ne_nil PID _ hne, hlen]

/-! ## the first packet -/

/-- a packet of track `ty` that an access unit can be made of: `hs` is what stands in front of the
payload -/
structure AccessUnit (ctx : AVFormatContext) (pkt : AVPacket) (ty : CodecType) (hs : List Bytes) :
    Prop where
  track : codecType pkt.stream_idx = some ty
  header : unitHeader ctx pkt ty = some hs
  room : hs.flatten.length ≤ 162
  fits : pkt.Fits

section
variable {ctx : AVFormatContext} {pkt : AVPacket} {ty : CodecType} {hs : List Bytes}

theorem unitHeader_bump (ctx : AVFormatContext) (pkt : AVPacket) (ty ty' : CodecType) :
    unitHeader (bump ctx ty') pkt ty = unitHeader ctx pkt ty := by
  cases ty <;> rfl

theorem AccessUnit.streamSize (h : AccessUnit ctx pkt ty hs) :
    streamSize ctx pkt ty = pkt.size + hs.flatten.length := by
  have hroom := h.room
  have hfit := h.fits
  have hh := h.header
  unfold AVPacket.Fits at hfit
  have hwrap : (pkt.size + hs.flatten.length) % 2 ^ 32 = pkt.size + hs.flatten.length :=
    Nat.mod_eq_of_lt (by omega)
  cases ty with
  | video =>
    obtain rfl := Option.some.inj hh
    by_cases hk : pkt.flags ≠ 0
    · rw [if_pos hk] at hwrap ⊢
      rw [Ts.streamSize, if_pos hk, ← hwrap]
      congr 1
      simp only [AVPacket.size, List.flatten_cons, List.flatten_nil, List.append_nil,
        List.length_append]
      omega
    · rw [if_neg hk] at hwrap ⊢
      rw [Ts.streamSize, if_neg hk, ← hwrap]
      rfl
  | audio =>
    unfold unitHeader at hh
    dsimp only at hh
    split at hh
    · obtain rfl := Option.some.inj hh
      exact hwrap
    · cases hh

/-- the CSDs that the access units of track `ty` need -/
structure CsdReady (ctx : AVFormatContext) (ty : CodecType) : Prop where
  video : (ctx.mTrackCSD .video).length ≤ 156
  audio : ty = .audio → 2 ≤ (ctx.mTrackCSD .audio).length

/-- the length of what stands between the PES header and the payload -/
def headSize (ctx : AVFormatContext) (pkt : AVPacket) : CodecType → Nat
  | .video => if pkt.flags ≠ 0 then 6 + (ctx.mTrackCSD .video).length else 6
  | .audio => 7

theorem unit_of_csd (hty : codecType pkt.stream_idx = some ty) (hcsd : CsdReady ctx ty)
    (hfit : pkt.Fits) :
    ∃ hs, AccessUnit ctx pkt ty hs ∧ hs.flatten.length = headSize ctx pkt ty := by
  cases ty with
  | video =>
    have hlen := hcsd.video
    by_cases hk : pkt.flags ≠ 0
    · have hsize : [nalAud, ctx.mTrackCSD .video].flatten.length
          = 6 + (ctx.mTrackCSD .video).length := by
        simp [nalAud]
        omega
      refine ⟨[nalAud, ctx.mTrackCSD .video], ⟨hty, ?_, by omega, hfit⟩, ?_⟩
      · rw [unitHeader, if_pos hk]
      · rw [hsize, headSize, if_pos hk]
    · refine ⟨[nalAud], ⟨hty, ?_, by decide, hfit⟩, ?_⟩
      · rw [unitHeader, if_neg hk]
      · rw [headSize, if_neg hk]
        rfl
  | audio =>
    have hlen := hcsd.audio rfl
    rcases hcase : ctx.mTrackCSD .audio with _ | ⟨csd0, _ | ⟨csd1, rest⟩⟩
    · rw [hcase] at hlen
      cases hlen
    · rw [hcase] at hlen
      exact absurd hlen (by simp)
    · refine ⟨[adtsHeader csd0 csd1 (Ts.streamSize ctx pkt .audio)], ⟨hty, ?_, ?_, hfit⟩, rfl⟩
      · rw [unitHeader, hcase]
      · show 7 ≤ 162
        omega

variable (pcr : Int → Int)

theorem paddingSize_small {n : Nat} (h : n < 162) : paddingSize n = 162 := if_pos h

theorem paddingSize_large {n : Nat} (h : 162 ≤ n) : paddingSize n = 0 := if_neg (not_lt.mpr h)

/-- what a large access unit leaves of its first packet -/
theorem room_large {n k : Nat} (hroom : k ≤ 162) (hn : 162 ≤ n) :
    (162 : Int) - paddingSize n - k = (162 - k : Nat) := by
  rw [paddingSize_large hn, Nat.cast_zero]
  omega

theorem unitPrefix_length (ctx : AVFormatContext) (pkt : AVPacket) (ty : CodecType) :
    (unitPrefix pcr ctx pkt ty).length = 26 + paddingSize (streamSize ctx pkt ty) := by
  rw [unitPrefix, List.length_append, List.length_append, List.length_replicate]
  show 12 + _ + 14 = _
  omega

/-- the source with its first packet in parts, however long `hs` is -/
theorem writeAccessUnit_parts (hty : codecType pkt.stream_idx = some ty)
    (hh : unitHeader ctx pkt ty = some hs) (m : Mem) :
    writeAccessUnit pcr ctx m pkt
      = match writeAvTsPacket m pkt (162 - paddingSize (streamSize ctx pkt ty) - hs.flatten.length)
          pkt.size pkt.data0 with
        | none => none
        | some (ws, left, ptr) =>
          (writeFragments m pkt ty (ctx.mTrackPid ty) (left.toNat + 2) (bump ctx ty) left ptr).map
            fun r => (CacheWrite.all (unitPrefix pcr ctx pkt ty) :: hs.map CacheWrite.all ++ ws
                ++ r.1, r.2) := by
  have hcounter : ∀ c : Nat, (if c + 1 ≥ 0x10 then 0 else c + 1) = if c ≥ 0x0f then
      0 else c + 1 := by
    intro c
    split <;> split <;> omega
  have hroom : (tsPackageSz : Int) - (unitPrefix pcr ctx pkt ty).length - hs.flatten.length
      = 162 - paddingSize (streamSize ctx pkt ty) - hs.flatten.length := by
    rw [unitPrefix_length]
    show (188 : Int) - _ - _ = _
    push_cast
    ring
  have hunit := unitHeader_bump ctx pkt ty ty
  rw [hh] at hunit
  unfold bump at hunit
  unfold writeAccessUnit
  rw [hty]
  dsimp only
  rw [hcounter, hunit]
  dsimp only
  rw [hroom, ← Nat.cast_add]
  rfl

theorem writeAccessUnit_eq (h : AccessUnit ctx pkt ty hs) (m : Mem) :
    writeAccessUnit pcr ctx m pkt
      = match writeAvTsPacket m pkt
        (162 - paddingSize (pkt.size + hs.flatten.length) - hs.flatten.length)
          pkt.size pkt.data0 with
        | none => none
        | some (ws, left, ptr) =>
          (writeFragments m pkt ty (ctx.mTrackPid ty) (left.toNat + 2) (bump ctx ty) left ptr).map
            fun r => (CacheWrite.all (unitPrefix pcr ctx pkt ty) :: hs.map CacheWrite.all ++ ws
                ++ r.1, r.2) := by
  rw [writeAccessUnit_parts pcr h.track h.header m, h.streamSize]

/-! ## an access unit that fills its first packet -/

def unitBytes (ctx : AVFormatContext) (pkt : AVPacket) (ty : CodecType) (hs : List Bytes)
    (payload : Bytes) : Bytes :=
  unitPrefix pcr ctx pkt ty ++ hs.flatten ++ payload.take (162 - hs.flatten.length)
    ++ carried (ctx.mTrackPid ty) (nextCounter (ctx.mTSContinuityCounter ty))
        (payload.drop (162 - hs.flatten.length))

/-- no packet of the access unit leaves the cursor between the segments: `data0` is not empty, and
ends behind no packet, unless `data1` follows it or is empty -/
def AllClear (pkt : AVPacket) (room : Nat) : Prop := Clear pkt 0 ∧ ∀ k, Clear pkt (room + 184 * k)

theorem at_start {pkt : AVPacket} (h : Clear pkt 0) : At pkt 0 pkt.data0 := by
  refine ⟨fun _ => by rw [Nat.cast_zero, add_zero], fun hle hlt => ?_⟩
  have h0 : pkt.size0 = 0 := Nat.le_zero.mp hle
  unfold AVPacket.size at hlt
  rcases h h0.symm with h1 | h1
  · omega
  · rw [h1, h0]
    simp

theorem emitted_all (bs : List Bytes) : emitted (bs.map CacheWrite.all) = bs.flatten := by
  induction bs with
  | nil => rfl
  | cons b bs ih => rw [List.map_cons, emitted_cons, CacheWrite.all_bytes, ih, List.flatten_cons]

/-- **What `write_access_unit` emits.** -/
theorem writeAccessUnit_bytes (h : AccessUnit ctx pkt ty hs) (m : Mem) (hpos : 0 < pkt.size)
    (h162 : 162 ≤ pkt.size + hs.flatten.length) (hd : pkt.Disjoint)
    (hc : AllClear pkt (162 - hs.flatten.length)) :
    ∃ ws, writeAccessUnit pcr ctx m pkt
        = some (ws, (bump · ty)^[rounds (pkt.size - (162 - hs.flatten.length)) + 1] ctx) ∧
      Inside pkt ws ∧ emitted ws = unitBytes pcr ctx pkt ty hs (pkt.payload m) := by
  have hroom := h.room
  have hpad := room_large hroom h162
  obtain ⟨ws, ptr', hw, hat, hin, hem⟩ := writeAvTsPacket_at (m := m) (t := 162 - hs.flatten.length)
    h.fits hd (at_start hc.1) hpos (by omega) (by simpa using hc.2 0)
  rw [Nat.zero_add] at hw hat
  obtain ⟨vs, hv, hvin, hvem⟩ := writeFragments_bytes (m := m) h.fits hd ty (ctx.mTrackPid ty)
    (pkt.size - (162 - hs.flatten.length) + 2) (bump ctx ty) hat (by omega) (by omega)
    fun k => hc.2 (k + 1)
  refine ⟨CacheWrite.all (unitPrefix pcr ctx pkt ty) :: hs.map CacheWrite.all ++ ws ++ vs, ?_, ?_,
    ?_⟩
  · rw [writeAccessUnit_eq pcr h m, hpad]
    rw [Nat.sub_zero] at hw
    rw [hw]
    dsimp only
    rw [Int.toNat_natCast, hv]
    rfl
  · exact inside_append.mpr
      ⟨inside_append.mpr ⟨inside_all pkt (unitPrefix pcr ctx pkt ty :: hs), hin⟩, hvin⟩
  · rw [emitted_append, emitted_append, hem, hvem, emitted_cons, CacheWrite.all_bytes, emitted_all,
      bump_counter]
    rfl

end

end Pluto.Ts

import Pluto.Ts.AccessUnit

/-!
# Where the payload lies

The bytes of an access unit depend on the payload alone exactly when no packet ends where a
non-empty `data0` ends, or `data1` follows it (`placement_free_iff`).  Otherwise the cursor is left
behind `data0`, in neither segment, and the next packet reads from there or an `assert` fails; with
an empty `data0` the cursor never leaves it.

* `loop_stuck`     a cursor left behind `data0`;
* `loop_covers`    an empty `data0`: every address from the cursor on is read.
-/

namespace Pluto
open Octets

/-- the same payload in `data0` alone -/
def AVPacket.joined (pkt : AVPacket) (data0 data1 : Int) : AVPacket :=
  { pkt with data0 := data0, size0 := pkt.size, data1 := data1, size1 := 0 }

theorem AVPacket.joined_size (pkt : AVPacket) (a d : Int) : (pkt.joined a d).size = pkt.size :=
  Nat.add_zero pkt.size

namespace Ts

section
variable {pkt : AVPacket} {m : Mem} {ty : CodecType} {PID : Nat}

/-! ## a cursor behind `data0` -/

theorem not_inside_of_reads {ws : List CacheWrite} {w : CacheWrite} (hw : w ∈ ws) {x : Int}
    (hx : w.reads x) (hout : ¬ pkt.InSegments x) : ¬ Inside pkt ws := fun h =>
  hout ((h w hw).2 x hx)

theorem end_outside (hd : pkt.Disjoint) (hc : ¬ pkt.Contiguous) (h0 : 0 < pkt.size0) :
    ¬ pkt.InSegments (pkt.data0 + pkt.size0) := by
  have hlast := hd (pkt.data0 + pkt.size0 - 1)
  have h1 : pkt.size1 ≠ 0 := fun h => hc (Or.inl h)
  have h2 : pkt.data1 ≠ pkt.data0 + pkt.size0 := fun h => hc (Or.inr h)
  intro h
  rcases h with h | h
  · omega
  · exact hlast ⟨by omega, by omega⟩

/-- from outside `data0` a packet is filled from one place -/
theorem write_outside {t left ptr l p : Int} {ws : List CacheWrite}
    (hout : ¬ (pkt.data0 ≤ ptr ∧ ptr < pkt.data0 + (pkt.size0 : Int)))
    (h : writeAvTsPacket m pkt t left ptr = some (ws, l, p)) :
    ws = [⟨.memory m ptr, t⟩] ∧ l = left - t ∧ p = ptr + t := by
  unfold writeAvTsPacket at h
  dsimp only at h
  rw [if_neg hout] at h
  split at h
  · split at h
    · cases h
      exact ⟨rfl, rfl, rfl⟩
    · cases h
  · cases h

/-- a packet that starts behind `data0` reads there -/
theorem write_behind {t : Nat} {left l p : Int} {ws : List CacheWrite} (ht : 0 < t)
    (h : writeAvTsPacket m pkt t left (pkt.data0 + pkt.size0) = some (ws, l, p)) :
    ∃ w ∈ ws, w.reads (pkt.data0 + pkt.size0) := by
  obtain ⟨rfl, -, -⟩ := write_outside (by omega) h
  refine ⟨_, List.mem_cons_self, le_rfl, ?_⟩
  dsimp only
  omega

theorem writeFragments_some {fuel n : Nat} {ctx c : AVFormatContext} {ptr : Int}
    {ws : List CacheWrite} (hn : 0 < n)
    (h : writeFragments m pkt ty PID (fuel + 1) ctx n ptr = some (ws, c)) :
    ∃ ws₁ left' ptr' ws₂, writeAvTsPacket m pkt (min 184 n : Nat) n ptr = some (ws₁, left', ptr') ∧
      writeFragments m pkt ty PID fuel (bump ctx ty) left' ptr' = some (ws₂, c) ∧
      ws = fragmentWrite PID (ctx.mTSContinuityCounter ty) n :: ws₁ ++ ws₂ := by
  rw [writeFragments_succ m pkt ty PID fuel ctx hn] at h
  split at h
  · cases h
  · next ws₁ left' ptr' hw =>
    obtain ⟨r, hr, he⟩ := Option.map_eq_some_iff.mp h
    cases he
    exact ⟨ws₁, left', ptr', r.1, hw, hr, rfl⟩

/-- the loop from a cursor in `data0` whose packets will end exactly at its end -/
theorem loop_stuck (hfit : pkt.Fits) (hd : pkt.Disjoint) (hc : ¬ pkt.Contiguous)
    (h0 : 0 < pkt.size0) (fuel : Nat) {ctx c : AVFormatContext} {o k : Nat}
    (hk : o + 184 * k = pkt.size0) {ws : List CacheWrite}
    (h : writeFragments m pkt ty PID fuel ctx (pkt.size - o : Nat) (pkt.data0 + o) = some (ws, c)) :
    ¬ Inside pkt ws := by
  have h1 : pkt.size1 ≠ 0 := fun h => hc (Or.inl h)
  have hsize : pkt.size = pkt.size0 + pkt.size1 := rfl
  induction fuel generalizing ctx o k ws with
  | zero => cases h
  | succ fuel ih =>
    obtain ⟨ws₁, left', ptr', ws₂, hw, hr, rfl⟩ := writeFragments_some (by omega) h
    cases k with
    | zero =>
      obtain rfl : o = pkt.size0 := by omega
      obtain ⟨w, hmem, hx⟩ := write_behind (by omega) hw
      refine not_inside_of_reads ?_ hx (end_outside hd hc h0)
      exact List.mem_append_left _ (List.mem_cons_of_mem _ hmem)
    | succ k =>
      have hmin : min 184 (pkt.size - o) = 184 := by omega
      rw [hmin, write_data0 hfit (by omega) (by omega) (by omega)] at hw
      cases hw
      have hleft : ((pkt.size - o : Nat) : Int) - (184 : Nat) = (pkt.size - (o + 184) : Nat) := by
        omega
      rw [hleft] at hr
      intro hin
      exact ih (show o + 184 + 184 * k = pkt.size0 by omega) hr (inside_append.mp hin).2

/-! ## an empty `data0` -/

theorem loop_covers (h0 : pkt.size0 = 0) (fuel : Nat) {ctx c : AVFormatContext} {n : Nat}
    {ptr : Int} {ws : List CacheWrite}
    (h : writeFragments m pkt ty PID fuel ctx n ptr = some (ws, c)) (x : Int) (hx : ptr ≤ x)
    (hx' : x < ptr + n) : ∃ w ∈ ws, w.reads x := by
  induction fuel generalizing ctx n ptr ws with
  | zero => cases h
  | succ fuel ih =>
    obtain ⟨ws₁, left', ptr', ws₂, hw, hr, rfl⟩ := writeFragments_some (by omega) h
    obtain ⟨rfl, rfl, rfl⟩ := write_outside (by omega) hw
    by_cases hxt : x < ptr + (min 184 n : Nat)
    · exact ⟨_, List.mem_append_left _ (List.mem_cons_of_mem _ List.mem_cons_self), hx, hxt⟩
    · have hleft : (n : Int) - (min 184 n : Nat) = (n - min 184 n : Nat) := by omega
      rw [hleft] at hr
      obtain ⟨w, hmem, hwx⟩ := ih hr (by omega) (by omega)
      exact ⟨w, List.mem_append_right _ hmem, hwx⟩

end

section
variable (pcr : Int → Int) {ctx : AVFormatContext} {pkt : AVPacket} {ty : CodecType}
  {hs : List Bytes} {m : Mem}

/-- the access unit comes out as from one segment, and nothing else is read -/
def PlacementFree (ctx : AVFormatContext) (m : Mem) (pkt : AVPacket) : Prop :=
  ∃ ws ctx', writeAccessUnit pcr ctx m pkt = some (ws, ctx') ∧ Inside pkt ws ∧
    ∀ (m' : Mem) (a d : Int), (pkt.joined a d).payload m' = pkt.payload m →
      ∃ ws', writeAccessUnit pcr ctx m' (pkt.joined a d) = some (ws', ctx') ∧
        emitted ws' = emitted ws

theorem streamSize_joined (ctx : AVFormatContext) (pkt : AVPacket) (a d : Int) (ty : CodecType) :
    streamSize ctx (pkt.joined a d) ty = streamSize ctx pkt ty := by
  cases ty <;> rfl

theorem AccessUnit.joined (h : AccessUnit ctx pkt ty hs) (a d : Int) :
    AccessUnit ctx (pkt.joined a d) ty hs := by
  refine ⟨h.track, ?_, h.room, ?_⟩
  · rw [← h.header]
    cases ty <;> rfl
  · have hfit := h.fits
    unfold AVPacket.Fits at hfit ⊢
    rwa [AVPacket.joined_size]

theorem placementFree_of_clear (h : AccessUnit ctx pkt ty hs) (hpos : 0 < pkt.size)
    (h162 : 162 ≤ pkt.size + hs.flatten.length) (hd : pkt.Disjoint)
    (hc : AllClear pkt (162 - hs.flatten.length)) : PlacementFree pcr ctx m pkt := by
  obtain ⟨ws, hw, hin, hem⟩ := writeAccessUnit_bytes pcr h m hpos h162 hd hc
  refine ⟨ws, _, hw, hin, fun m' a d hpay => ?_⟩
  have hcont : (pkt.joined a d).Contiguous := Or.inl rfl
  have hsz := AVPacket.joined_size pkt a d
  obtain ⟨ws', hw', -, hem'⟩ := writeAccessUnit_bytes pcr (h.joined a d) m' (by rwa [hsz])
    (by rwa [hsz]) hcont.disjoint ⟨fun _ => hcont, fun _ _ => hcont⟩
  rw [hsz] at hw'
  refine ⟨ws', hw', ?_⟩
  have hprefix : unitPrefix pcr ctx (pkt.joined a d) ty = unitPrefix pcr ctx pkt ty := by
    unfold unitPrefix
    rw [streamSize_joined]
    rfl
  rw [hem', hem, hpay, unitBytes, unitBytes, hprefix]

theorem allClear_of_inside (h : AccessUnit ctx pkt ty hs) (hpos : 0 < pkt.size)
    (h162 : 162 ≤ pkt.size + hs.flatten.length) (hd : pkt.Disjoint) {ws : List CacheWrite}
    {ctx' : AVFormatContext} (hw : writeAccessUnit pcr ctx m pkt = some (ws, ctx'))
    (hin : Inside pkt ws) : AllClear pkt (162 - hs.flatten.length) := by
  have hroom := h.room
  have hpad := room_large hroom h162
  rw [writeAccessUnit_eq pcr h m, hpad] at hw
  split at hw
  · cases hw
  next ws₁ left ptr hw₁ =>
  obtain ⟨⟨ws₂, c⟩, hw₂, he⟩ := Option.map_eq_some_iff.mp hw
  cases he
  have hin₁ := (inside_append.mp (inside_append.mp hin).1).2
  have hin₂ := (inside_append.mp hin).2
  have hsize : pkt.size = pkt.size0 + pkt.size1 := rfl
  by_cases h0 : pkt.size0 = 0
  · -- all of `size1` bytes were read from `data0` on: `data0` is `data1`
    obtain ⟨rfl, rfl, rfl⟩ := write_outside (by omega) hw₁
    have hleft : (pkt.size : Int) - (162 - hs.flatten.length : Nat)
        = (pkt.size - (162 - hs.flatten.length) : Nat) := by omega
    rw [hleft] at hw₂
    have hread : ∀ x, pkt.data0 ≤ x → x < pkt.data0 + pkt.size → pkt.InSegments x := by
      intro x hx hx'
      by_cases hxt : x < pkt.data0 + (162 - hs.flatten.length : Nat)
      · exact (hin₁ _ List.mem_cons_self).2 x ⟨hx, hxt⟩
      · obtain ⟨w, hmem, hwx⟩ := loop_covers h0 _ hw₂ x (by omega) (by omega)
        exact (hin₂ w hmem).2 x hwx
    have hfirst := hread pkt.data0 le_rfl (by omega)
    have hlast := hread (pkt.data0 + pkt.size - 1) (by omega) (by omega)
    have hcont : pkt.Contiguous := by
      rcases hfirst with h1 | h1
      · omega
      · rcases hlast with h2 | h2
        · omega
        · exact Or.inr (by omega)
    exact ⟨fun _ => hcont, fun _ _ => hcont⟩
  · refine ⟨fun h => absurd h.symm h0, fun k hk => ?_⟩
    by_contra hc
    rw [show pkt.data0 = pkt.data0 + (0 : Nat) by rw [Nat.cast_zero, add_zero],
      write_data0 h.fits (by omega) (by omega) (by omega)] at hw₁
    cases hw₁
    have hleft : (pkt.size : Int) - (162 - hs.flatten.length : Nat)
        = (pkt.size - (162 - hs.flatten.length) : Nat) := by omega
    rw [hleft, Nat.zero_add] at hw₂
    exact loop_stuck h.fits hd hc (by omega) _ hk hw₂ hin₂

/-- **Where the segments lie does not matter, except at a packet boundary.**  Two disjoint segments
come out as one, and nothing else is read, if and only if `data1` follows `data0`, or `data1` is
empty, or `data0` is not empty and ends behind no packet of the access unit. -/
theorem placement_free_iff (hty : codecType pkt.stream_idx = some ty) (hcsd : CsdReady ctx ty)
    (hfit : pkt.Fits) (hpos : 0 < pkt.size) (h162 : 162 ≤ streamSize ctx pkt ty)
    (hd : pkt.Disjoint) :
    PlacementFree pcr ctx m pkt ↔
      (pkt.Contiguous ∨
        (pkt.size0 ≠ 0 ∧ ∀ k, pkt.size0 ≠ 162 - headSize ctx pkt ty + 184 * k)) := by
  obtain ⟨hs, h, hlen⟩ := unit_of_csd hty hcsd hfit
  rw [h.streamSize] at h162
  have hiff : AllClear pkt (162 - hs.flatten.length) ↔ (pkt.Contiguous ∨
      (pkt.size0 ≠ 0 ∧ ∀ k, pkt.size0 ≠ 162 - headSize ctx pkt ty + 184 * k)) := by
    rw [hlen]
    constructor
    · intro hc
      by_cases hcont : pkt.Contiguous
      · exact Or.inl hcont
      · exact Or.inr ⟨fun h0 => hcont (hc.1 h0.symm), fun k hk => hcont (hc.2 k hk.symm)⟩
    · intro hc
      rcases hc with hcont | ⟨h0, hk⟩
      · exact ⟨fun _ => hcont, fun _ _ => hcont⟩
      · exact ⟨fun h => absurd h.symm h0, fun k h => absurd h.symm (hk k)⟩
  rw [← hiff]
  constructor
  · rintro ⟨ws, ctx', hw, hin, -⟩
    exact allClear_of_inside pcr h hpos h162 hd hw hin
  · exact placementFree_of_clear pcr h hpos h162 hd

end

/-- stereo AAC at 48 kHz beside a video track with a CSD of 8 bytes -/
def smallSession : AVFormatContext := session 2 48000 [0, 0, 0, 1, 0x67, 1, 2, 3] [0x11, 0x90]

/-- a frame of 200 bytes, `size0` of them at address `0` and the others at `1000` -/
def splitFrame (size0 : Nat) : AVPacket where
  pts := 40
  data0 := 0
  size0 := size0
  data1 := 1000
  size1 := 200 - size0
  stream_idx := 0
  flags := 0
  duration := 40

theorem splitFrame_disjoint {n : Nat} (hn : n ≤ 200) : (splitFrame n).Disjoint := by
  intro x hx
  simp only [splitFrame] at hx
  omega

theorem smallSession_csd : CsdReady smallSession .video := ⟨by decide, nofun⟩

/-- a split inside the second packet is not seen -/
theorem placement_free_iff_inside :
    PlacementFree (· * 27000) smallSession (fun x => UInt8.ofInt x) (splitFrame 160) :=
  (placement_free_iff (· * 27000) rfl smallSession_csd (by decide) (by decide) (by decide)
    (splitFrame_disjoint (by decide))).mpr (Or.inr ⟨by decide, fun k => by
      show 160 ≠ 156 + 184 * k
      omega⟩)

/-- a frame whose first segment fills the first packet exactly: `162 - 6` bytes -/
theorem boundary_split_seen :
    ¬ PlacementFree (· * 27000) smallSession (fun x => UInt8.ofInt x) (splitFrame 156) := by
  rintro ⟨ws, ctx', hw, hin, -⟩
  have hunit : AccessUnit smallSession (splitFrame 156) .video [nalAud] :=
    ⟨rfl, rfl, by decide, by decide⟩
  have hc := allClear_of_inside (· * 27000) hunit (by decide) (by decide)
    (splitFrame_disjoint (by decide)) hw hin
  rcases hc.2 0 rfl with h | h
  · exact absurd h (by decide)
  · exact absurd h (by decide)

end Ts

end Pluto

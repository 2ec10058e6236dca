import Pluto.Cache.Simple

/-!
# The write cache refines the stream

`c.Shows contents pos`: the file behind the cache, with the waiting bytes stored at the stream
position, is `contents`, and the position behind them is `pos`; the buffer has its full length
and is never full.

* `shows_write`, `shows_flush`, `shows_seek`, `shows_tell`, `shows_truncate`   one operation;
* `truncate_same_iff`   when a truncate leaves the same file at two streams that show the same one
                        and hold back different bytes of it;
* `cache_run_refines`   any sequence of operations: the cache and the bare stream are seen alike if
                        and only if each truncate of the run does that.
-/

namespace Pluto
open Octets

/-- the bytes that wait in the cache -/
def CacheSimpleContext.pending (c : CacheSimpleContext) : Bytes := c.mpCache.take c.mValidLen

/-- what every operation keeps while the writes succeed -/
structure CacheSimpleContext.Inv (c : CacheSimpleContext) : Prop where
  buffer : c.mpCache.length = c.mCacheSize
  room : c.mValidLen < c.mCacheSize
  full : c.mpStream.AlwaysFull

structure CacheSimpleContext.Shows (c : CacheSimpleContext) (contents : Bytes) (pos : Nat) : Prop
    extends c.Inv where
  file : overlay c.mpStream.contents c.mpStream.pos c.pending = contents
  at_pos : c.mpStream.pos + c.mValidLen = pos

theorem CacheSimpleContext.Inv.pending_length {c : CacheSimpleContext} (h : c.Inv) :
    c.pending.length = c.mValidLen := by
  rw [CacheSimpleContext.pending, List.length_take, h.buffer]
  exact Nat.min_eq_left h.room.le

/-! ## one write to the stream -/

theorem fileCacheWrite_full (s : MmStreamInfo) (h : s.AlwaysFull) (b : Bytes) :
    (fileCacheWrite s b).2.contents = overlay s.contents s.pos b ∧
      (fileCacheWrite s b).2.pos = s.pos + b.length ∧ (fileCacheWrite s b).2.AlwaysFull := by
  unfold fileCacheWrite
  rw [if_neg h.1, mmWriteStreamFile_full s h b]
  dsimp only
  rw [if_neg (not_not.mpr rfl)]
  exact ⟨fpCall_contents _ _ b, fpCall_pos _ _ b, h⟩

/-- what libc holds back behind it -/
theorem fileCacheWrite_held (s : MmStreamInfo) (h : s.AlwaysFull) (b : Bytes) :
    (fileCacheWrite s b).2.held.length = min (s.stdio (.fwrite b.length :: s.calls))
    (s.held.length + b.length) ∧
      (fileCacheWrite s b).2.stdio = s.stdio ∧
      (fileCacheWrite s b).2.calls = .fwrite b.length :: s.calls := by
  unfold fileCacheWrite
  rw [if_neg h.1, mmWriteStreamFile_full s h b]
  dsimp only
  rw [if_neg (not_not.mpr rfl)]
  exact ⟨fpCall_held _ _ b, rfl, rfl⟩

theorem memcpy_length (dst : Bytes) (off : Nat) (src : Bytes) (h : off + src.length ≤ dst.length) :
    (memcpy dst off src).length = dst.length := by
  rw [memcpy, List.length_append, List.length_append, List.length_take, List.length_drop]
  omega

theorem memcpy_take (dst : Bytes) (off : Nat) (src : Bytes) (h : off ≤ dst.length) :
    (memcpy dst off src).take (off + src.length) = dst.take off ++ src := by
  have hl : (dst.take off ++ src).length = off + src.length := by
    rw [List.length_append, List.length_take, Nat.min_eq_left h]
  rw [memcpy, ← hl, List.take_left]

/-! ## the operations -/

theorem shows_flush {c : CacheSimpleContext} {contents : Bytes} {pos : Nat}
    (h : c.Shows contents pos) :
    (fsCacheSimpleFlush c).Shows contents pos ∧ (fsCacheSimpleFlush c).mValidLen = 0 ∧
      (fsCacheSimpleFlush c).mpStream.contents = contents ∧
      (fsCacheSimpleFlush c).mpStream.pos = pos := by
  have hp := h.toInv.pending_length
  have hpos := h.at_pos
  unfold fsCacheSimpleFlush
  by_cases hv : c.mValidLen > 0
  · rw [if_pos hv]
    obtain ⟨h1, h2, h3⟩ := fileCacheWrite_full c.mpStream h.full c.pending
    refine ⟨⟨⟨h.buffer, lt_of_le_of_lt (Nat.zero_le _) h.room, h3⟩, ?_, ?_⟩, rfl, ?_, ?_⟩
    · show overlay (fileCacheWrite c.mpStream c.pending).2.contents _ [] = contents
      rw [overlay_nil, h1, h.file]
    · show (fileCacheWrite c.mpStream c.pending).2.pos + 0 = pos
      rw [h2, hp]; omega
    · show (fileCacheWrite c.mpStream c.pending).2.contents = contents
      rw [h1, h.file]
    · show (fileCacheWrite c.mpStream c.pending).2.pos = pos
      rw [h2, hp]; omega
  · have h0 : c.mValidLen = 0 := by omega
    have hnil : c.pending = [] := List.eq_nil_of_length_eq_zero (by rw [hp, h0])
    have hf := h.file
    rw [hnil, overlay_nil] at hf
    rw [if_neg hv]
    exact ⟨h, h0, hf, by omega⟩

/-- the tail of a write: the whole multiples go to the stream, the remainder into the cache -/
theorem shows_rest {c : CacheSimpleContext} (h : c.Inv) (h0 : c.mValidLen = 0) (buf : Bytes) :
    (fsCacheSimpleRest c buf).Shows (overlay c.mpStream.contents c.mpStream.pos buf)
      (c.mpStream.pos + buf.length) := by
  have hroom := h.room
  -- a remainder shorter than the cache, behind bytes `a` that are already in the stream
  have last : ∀ (s : MmStreamInfo) (a left : Bytes), s.AlwaysFull → buf = a ++ left →
      s.contents = overlay c.mpStream.contents c.mpStream.pos a →
      s.pos = c.mpStream.pos + a.length → left.length < c.mCacheSize →
      (if left.length > 0 then
        { c with mpStream := s, mpCache := memcpy c.mpCache 0 left, mValidLen := left.length }
      else { c with mpStream := s }).Shows (overlay c.mpStream.contents c.mpStream.pos buf)
        (c.mpStream.pos + buf.length) := by
    intro s a left hs hbuf hc hp hl
    have hb := h.buffer
    by_cases hl0 : left.length > 0
    · rw [if_pos hl0]
      have hpend : (memcpy c.mpCache 0 left).take left.length = left := by
        have := memcpy_take c.mpCache 0 left (Nat.zero_le _)
        rwa [Nat.zero_add, List.take_zero, List.nil_append] at this
      refine ⟨⟨?_, hl, hs⟩, ?_, ?_⟩
      · show (memcpy c.mpCache 0 left).length = c.mCacheSize
        rw [memcpy_length _ _ _ (by omega), hb]
      · show overlay s.contents s.pos ((memcpy c.mpCache 0 left).take left.length) = _
        rw [hpend, hc, hp, overlay_append, hbuf]
      · show s.pos + left.length = _
        rw [hp, hbuf, List.length_append]; omega
    · rw [if_neg hl0]
      have hnil : left = [] := List.eq_nil_of_length_eq_zero (by omega)
      rw [hnil, List.append_nil] at hbuf
      refine ⟨⟨hb, hroom, hs⟩, ?_, ?_⟩
      · show overlay s.contents s.pos (c.mpCache.take c.mValidLen) = _
        rw [h0, List.take_zero, overlay_nil, hc, hbuf]
      · show s.pos + c.mValidLen = _
        rw [hp, h0, hbuf]; rfl
  unfold fsCacheSimpleRest
  by_cases hge : buf.length ≥ c.mCacheSize
  · simp only [if_pos hge]
    have hle : buf.length / c.mCacheSize * c.mCacheSize ≤ buf.length := Nat.div_mul_le_self _ _
    have hlt : buf.length - buf.length / c.mCacheSize * c.mCacheSize < c.mCacheSize := by
      have h1 := Nat.div_add_mod' buf.length c.mCacheSize
      have h2 := Nat.mod_lt buf.length (by omega : c.mCacheSize > 0)
      omega
    obtain ⟨h1, h2, h3⟩ := fileCacheWrite_full c.mpStream h.full
      (buf.take (buf.length / c.mCacheSize * c.mCacheSize))
    exact last _ _ _ h3 (List.take_append_drop _ _).symm h1 h2 (by rw [List.length_drop]; exact hlt)
  · simp only [if_neg hge]
    exact last c.mpStream [] buf h.full rfl (overlay_nil _ _).symm rfl (by omega)

/-- bytes behind the waiting ones -/
theorem pending_append {c : CacheSimpleContext} {contents : Bytes} {pos : Nat}
    (h : c.Shows contents pos) {a : Bytes} (ha : c.mValidLen + a.length ≤ c.mCacheSize) :
    (memcpy c.mpCache c.mValidLen a).length = c.mCacheSize ∧
      (memcpy c.mpCache c.mValidLen a).take (c.mValidLen + a.length) = c.pending ++ a ∧
      overlay c.mpStream.contents c.mpStream.pos (c.pending ++ a) = overlay contents pos a := by
  have hb := h.buffer
  refine ⟨?_, memcpy_take _ _ _ (by omega), ?_⟩
  · rw [memcpy_length _ _ _ (by omega), hb]
  · rw [← overlay_append, h.file, h.toInv.pending_length, h.at_pos]

/-- the cache is filled up and written -/
theorem shows_filled {c : CacheSimpleContext} {contents : Bytes} {pos : Nat}
    (h : c.Shows contents pos) {a : Bytes} (ha : c.mValidLen + a.length = c.mCacheSize) :
    CacheSimpleContext.Shows { c with
      mpCache := memcpy c.mpCache c.mValidLen a
      mpStream := (fileCacheWrite c.mpStream ((memcpy c.mpCache c.mValidLen a).take c.mCacheSize)).2
      mValidLen := 0 } (overlay contents pos a) (pos + a.length) := by
  have hroom := h.room
  have hpos := h.at_pos
  obtain ⟨hlen, htake, hcat⟩ := pending_append h ha.le
  rw [ha] at htake
  obtain ⟨h1, h2, h3⟩ := fileCacheWrite_full c.mpStream h.full (c.pending ++ a)
  rw [htake]
  refine ⟨⟨hlen, by show 0 < c.mCacheSize; omega, h3⟩, ?_, ?_⟩
  · show overlay (fileCacheWrite c.mpStream (c.pending ++ a)).2.contents _ [] = _
    rw [overlay_nil, h1, hcat]
  · show (fileCacheWrite c.mpStream (c.pending ++ a)).2.pos + 0 = _
    rw [h2, List.length_append, h.toInv.pending_length]
    omega

/-- the rest of a write, from an empty cache -/
theorem shows_rest_of {c : CacheSimpleContext} {contents : Bytes} {pos : Nat}
    (h : c.Shows contents pos) (h0 : c.mValidLen = 0) (buf : Bytes) :
    (fsCacheSimpleRest c buf).Shows (overlay contents pos buf) (pos + buf.length) := by
  have hnil : c.pending = [] := List.eq_nil_of_length_eq_zero (by rw [h.toInv.pending_length, h0])
  have hfile := h.file
  rw [hnil, overlay_nil] at hfile
  have hpos := h.at_pos
  rw [h0, Nat.add_zero] at hpos
  rw [← hfile, ← hpos]
  exact shows_rest h.toInv h0 buf

theorem shows_write {c : CacheSimpleContext} {contents : Bytes} {pos : Nat}
    (h : c.Shows contents pos) (buf : Bytes) :
    (fsCacheSimpleWrite c buf).2.Shows (overlay contents pos buf) (pos + buf.length) := by
  have hroom := h.room
  have hpos := h.at_pos
  unfold fsCacheSimpleWrite
  by_cases hnil : buf.length = 0
  · have : buf = [] := List.eq_nil_of_length_eq_zero hnil
    rw [if_pos hnil, this, overlay_nil]
    exact h
  rw [if_neg hnil, if_neg (by omega)]
  by_cases hv : c.mValidLen > 0
  · rw [if_pos hv]
    by_cases hfit : c.mValidLen + buf.length ≤ c.mCacheSize
    · rw [if_pos hfit]
      by_cases hfull : c.mValidLen + buf.length = c.mCacheSize
      · simp only [if_pos hfull]
        exact shows_filled h hfull
      · -- the bytes are appended to the waiting ones
        simp only [if_neg hfull]
        obtain ⟨hlen, htake, hcat⟩ := pending_append h hfit
        refine ⟨⟨hlen, by show c.mValidLen + buf.length < c.mCacheSize; omega, h.full⟩, ?_, ?_⟩
        · show overlay c.mpStream.contents c.mpStream.pos
            ((memcpy c.mpCache c.mValidLen buf).take (c.mValidLen + buf.length)) = _
          rw [htake, hcat]
        · show c.mpStream.pos + (c.mValidLen + buf.length) = _
          omega
    · rw [if_neg hfit]
      -- the cache is filled up and written, the rest starts with an empty cache
      have hn : (buf.take (c.mCacheSize - c.mValidLen)).length = c.mCacheSize - c.mValidLen := by
        rw [List.length_take]
        omega
      have hsplit : overlay (overlay contents pos (buf.take (c.mCacheSize - c.mValidLen)))
          (pos + (buf.take (c.mCacheSize - c.mValidLen)).length)
            (buf.drop (c.mCacheSize - c.mValidLen))
            = overlay contents pos buf := by
        rw [overlay_append, List.take_append_drop]
      have hlen : pos + (buf.take (c.mCacheSize - c.mValidLen)).length
          + (buf.drop (c.mCacheSize - c.mValidLen)).length
          = pos + buf.length := by
        rw [hn, List.length_drop]
        omega
      rw [← hsplit, ← hlen]
      exact shows_rest_of (shows_filled h (by omega)) rfl (buf.drop (c.mCacheSize - c.mValidLen))
  · rw [if_neg hv]
    exact shows_rest_of h (by omega) buf

/-- the stream behind the cache moved to another position or length, with the cache empty -/
theorem shows_stream {c : CacheSimpleContext} (h : c.Inv) (h0 : c.mValidLen = 0)
    (s : MmStreamInfo) (hs : s.AlwaysFull) :
    CacheSimpleContext.Shows { c with mpStream := s } s.contents s.pos := by
  refine ⟨⟨h.buffer, h.room, hs⟩, ?_, ?_⟩
  · show overlay s.contents s.pos (c.mpCache.take c.mValidLen) = s.contents
    rw [h0, List.take_zero, overlay_nil]
  · show s.pos + c.mValidLen = s.pos
    rw [h0]; rfl

theorem MmStreamInfo.AlwaysFull.seek {s : MmStreamInfo} (h : s.AlwaysFull) (offset : Int)
    (w : Whence) :
    (mmSeekStreamFile s offset w).2.AlwaysFull := by
  unfold mmSeekStreamFile
  dsimp only
  split <;> exact h

theorem MmStreamInfo.AlwaysFull.truncate {s : MmStreamInfo} (h : s.AlwaysFull) (length : Int) :
    (mmTruncateStreamFile s length).2.AlwaysFull := by
  unfold mmTruncateStreamFile
  split <;> exact h

/-! ## truncates -/

/-- a truncate to `n` leaves the same file at two streams that show the same one: it is not in front
of their position, they hold back equally many bytes, or both hold some back and the bytes that only
one of them has written are zeros where the cut takes them away -/
def SameCut (t s : MmStreamInfo) (n : Nat) : Prop :=
  s.pos ≤ n ∨ t.held.length = s.held.length ∨ t.held ≠ [] ∧ s.held ≠ [] ∧
    ∀ i, n ≤ i → min t.fdPos s.fdPos ≤ i → i < max t.fdPos s.fdPos → s.contents.getD i 0 = 0

section
variable {s t : MmStreamInfo} {length : Int}

theorem truncated_length (h : 0 ≤ length) : (mmTruncateStreamFile s length).2.contents.length
    = if s.held.length = 0 then length.toNat else max length.toNat s.pos := by
  rw [mmTruncateStreamFile_contents s h]
  split_ifs with hheld
  · rw [List.eq_nil_of_length_eq_zero hheld, overlay_nil, resized_length]
  · rw [overlay_length _ _ (List.ne_nil_of_length_pos (Nat.pos_of_ne_zero hheld)), resized_length]
    rfl

/-- what is held back is not cut away -/
theorem truncated_getD (h : 0 ≤ length) (i : Nat) :
    (mmTruncateStreamFile s length).2.contents.getD i 0
    = if (s.fdPos ≤ i ∧ i < s.pos) ∨ i < length.toNat then s.contents.getD i 0 else 0 := by
  rw [mmTruncateStreamFile_contents s h, overlay_getD, resized_getD]
  by_cases hin : s.fdPos ≤ i ∧ i < s.pos
  · have hshown : s.contents.getD i 0 = s.held.getD (i - s.fdPos) 0 := by
      rw [MmStreamInfo.contents, overlay_getD]
      exact if_pos hin
    rw [if_pos (Or.inl hin), hshown]
    exact if_pos hin
  · simp only [hin, false_or]
    exact if_neg hin

theorem truncate_same_iff (hc : t.contents = s.contents) (hp : t.pos = s.pos) (h : 0 ≤ length) :
    (mmTruncateStreamFile t length).2.contents = (mmTruncateStreamFile s length).2.contents
      ↔ SameCut t s length.toNat := by
  have htpos : t.pos = t.fdPos + t.held.length := rfl
  have hspos : s.pos = s.fdPos + s.held.length := rfl
  constructor
  · intro heq
    have hlen := congrArg List.length heq
    rw [truncated_length h, truncated_length h, hp] at hlen
    by_cases hin : s.pos ≤ length.toNat
    · exact Or.inl hin
    by_cases hsame : t.held.length = s.held.length
    · exact Or.inr (Or.inl hsame)
    -- the lengths say that both hold something back
    have hboth : t.held.length ≠ 0 ∧ s.held.length ≠ 0 := by split_ifs at hlen <;> omega
    refine Or.inr (Or.inr ⟨?_, ?_, fun i hi hmin hmax => ?_⟩)
    · exact List.ne_nil_of_length_pos (Nat.pos_of_ne_zero hboth.1)
    · exact List.ne_nil_of_length_pos (Nat.pos_of_ne_zero hboth.2)
    have hbyte : (mmTruncateStreamFile t length).2.contents.getD i 0
        = (mmTruncateStreamFile s length).2.contents.getD i 0 := by rw [heq]
    rw [truncated_getD h, truncated_getD h, hc, hp] at hbyte
    -- one of them has written the byte, the other one holds it back
    rcases Nat.lt_or_gt_of_ne (show t.fdPos ≠ s.fdPos by omega) with hlt | hgt
    · rwa [if_pos (by omega), if_neg (by omega)] at hbyte
    · rw [if_neg (by omega), if_pos (by omega)] at hbyte
      exact hbyte.symm
  · intro hcut
    apply ext_getD
    · rw [truncated_length h, truncated_length h, hp]
      rcases hcut with hin | hsame | ⟨ht, hs, -⟩
      · split_ifs <;> omega
      · simp only [hsame]
      · rw [if_neg (List.length_pos_of_ne_nil ht).ne', if_neg (List.length_pos_of_ne_nil hs).ne']
    · intro i
      rw [truncated_getD h, truncated_getD h, hc, hp]
      by_cases hi : i < length.toNat
      · rw [if_pos (Or.inr hi), if_pos (Or.inr hi)]
      simp only [hi, or_false]
      rcases hcut with hin | hsame | ⟨-, -, hzero⟩
      · rw [if_neg (by omega), if_neg (by omega)]
      · rw [show t.fdPos = s.fdPos by omega]
      · have hbyte := hzero i (by omega)
        split_ifs with h1 h2 h2
        · rfl
        · exact hbyte (by omega) (by omega)
        · exact (hbyte (by omega) (by omega)).symm
        · rfl

end

/-! ## sequences of operations -/

/-- a cache and a bare stream that show the same file at the same position -/
structure Refines (c : CacheSimpleContext) (s : MmStreamInfo) : Prop where
  shows : c.Shows s.contents s.pos
  full : s.AlwaysFull

/-- an operation that is no truncate, or one that leaves the same file behind the cache and at the
bare stream -/
def CacheOp.CutsAlike (c : CacheSimpleContext) (s : MmStreamInfo) : CacheOp → Prop
  | .truncate length => 0 ≤ length → SameCut (fsCacheSimpleFlush c).mpStream s length.toNat
  | _ => True

/-- every operation of the run is one -/
def CutsAlike (c : CacheSimpleContext) (s : MmStreamInfo) : List CacheOp → Prop
  | [] => True
  | op :: ops => op.CutsAlike c s ∧ CutsAlike (c.apply op).2 (s.apply op).2 ops

theorem cutsAlike_of_no_truncate {ops : List CacheOp} (h : ∀ length, CacheOp.truncate length ∉ ops)
    (c : CacheSimpleContext) (s : MmStreamInfo) : CutsAlike c s ops := by
  induction ops generalizing c s with
  | nil => trivial
  | cons op ops ih =>
    refine ⟨?_, ih (fun length hmem => h length (List.mem_cons_of_mem op hmem)) _ _⟩
    cases op with
    | truncate length => exact absurd List.mem_cons_self (h length)
    | _ => trivial

section
variable {c : CacheSimpleContext} {s : MmStreamInfo}

theorem CutsAlike.take {ops : List CacheOp} (h : CutsAlike c s ops) (k : Nat) :
    CutsAlike c s (ops.take k) := by
  induction ops generalizing c s k with
  | nil =>
    rw [List.take_nil]
    trivial
  | cons op ops ih =>
    cases k with
    | zero => trivial
    | succ k => exact ⟨h.1, ih h.2 k⟩

theorem Refines.truncate (h : Refines c s) (length : Int) :
    ((c.apply (.truncate length)).1 = (s.apply (.truncate length)).1
        ↔ (CacheOp.truncate length).CutsAlike c s) ∧
      ((CacheOp.truncate length).CutsAlike c s →
        Refines (c.apply (.truncate length)).2 (s.apply (.truncate length)).2) := by
  obtain ⟨hf, hf0, hfc, hfp⟩ := shows_flush h.shows
  -- the bytes that both show behind the cut
  have hcontents : (mmTruncateStreamFile (fsCacheSimpleFlush c).mpStream length).2.contents
      = (mmTruncateStreamFile s length).2.contents ↔ (CacheOp.truncate length).CutsAlike c s := by
    by_cases hlen : 0 ≤ length
    · rw [truncate_same_iff hfc hfp hlen]
      exact ⟨fun hcut _ => hcut, fun hcut => hcut hlen⟩
    · rw [mmTruncateStreamFile, mmTruncateStreamFile, if_neg hlen, if_neg hlen]
      exact iff_of_true hfc fun hle => absurd hle hlen
  have hret : (mmTruncateStreamFile (fsCacheSimpleFlush c).mpStream length).1
      = (mmTruncateStreamFile s length).1 := by
    unfold mmTruncateStreamFile
    split <;> rfl
  constructor
  · rw [← hcontents]
    show Seen.result _ (mmTruncateStreamFile (fsCacheSimpleFlush c).mpStream length).2.contents
      = Seen.result _ _ ↔ _
    rw [show (fsCacheSimpleTruncate c length).1 = (mmTruncateStreamFile s length).1 from hret,
      Seen.result.injEq]
    exact and_iff_right rfl
  · intro hcut
    refine ⟨?_, h.full.truncate length⟩
    show CacheSimpleContext.Shows { fsCacheSimpleFlush c with
      mpStream := (mmTruncateStreamFile (fsCacheSimpleFlush c).mpStream length).2 } _ _
    have := shows_stream hf.toInv hf0 _ (hf.full.truncate length)
    rwa [hcontents.mpr hcut, mmTruncateStreamFile_pos, hfp,
      ← mmTruncateStreamFile_pos s length] at this

theorem Refines.apply (h : Refines c s) (op : CacheOp) :
    ((c.apply op).1 = (s.apply op).1 ↔ op.CutsAlike c s) ∧
      (op.CutsAlike c s → Refines (c.apply op).2 (s.apply op).2) := by
  obtain ⟨hf, hf0, hfc, hfp⟩ := shows_flush h.shows
  cases op with
  | write buf =>
    refine ⟨iff_of_true rfl trivial, fun _ => ?_⟩
    show Refines (fsCacheSimpleWrite c buf).2 (mmWriteStreamFile s buf).2.2
    rw [mmWriteStreamFile_full s h.full buf]
    refine ⟨?_, h.full⟩
    rw [fpCall_contents, fpCall_pos]
    exact shows_write h.shows buf
  | seek offset w =>
    obtain ⟨h1, h2, h3⟩ := mmSeekStreamFile_congr (fsCacheSimpleFlush c).mpStream s hfc hfp offset w
    refine ⟨iff_of_true ?_ trivial, fun _ => ⟨?_, h.full.seek offset w⟩⟩
    · show Seen.result (mmSeekStreamFile (fsCacheSimpleFlush c).mpStream offset w).1
        (mmSeekStreamFile (fsCacheSimpleFlush c).mpStream offset w).2.contents = Seen.result _ _
      rw [h1, h3]
    · show CacheSimpleContext.Shows { fsCacheSimpleFlush c with
        mpStream := (mmSeekStreamFile (fsCacheSimpleFlush c).mpStream offset w).2 } _ _
      have := shows_stream hf.toInv hf0 _ (hf.full.seek offset w)
      rwa [h2, h3] at this
  | tell =>
    refine ⟨iff_of_true ?_ trivial, fun _ => ⟨hf, h.full⟩⟩
    show Seen.result ((fsCacheSimpleFlush c).mpStream.pos : Int)
      (fsCacheSimpleFlush c).mpStream.contents = Seen.result (s.pos : Int) s.contents
    rw [hfc, hfp]
  | truncate length => exact h.truncate length
  | flush =>
    refine ⟨iff_of_true ?_ trivial, fun _ => ⟨hf, h.full⟩⟩
    show Seen.result 0 (fsCacheSimpleFlush c).mpStream.contents = Seen.result 0 s.contents
    rw [hfc]

theorem Refines.run (h : Refines c s) {ops : List CacheOp} (hops : CutsAlike c s ops) :
    (c.run ops).1 = (s.run ops).1 ∧ Refines (c.run ops).2 (s.run ops).2 := by
  induction ops generalizing c s with
  | nil => exact ⟨rfl, h⟩
  | cons op ops ih =>
    obtain ⟨h1, h2⟩ := h.apply op
    obtain ⟨h3, h4⟩ := ih (h2 hops.1) hops.2
    refine ⟨?_, h4⟩
    show (c.apply op).1 :: ((c.apply op).2.run ops).1 = (s.apply op).1 :: ((s.apply op).2.run ops).1
    rw [h1.mpr hops.1, h3]

/-- the first truncate that goes wrong is seen -/
theorem Refines.run_iff (h : Refines c s) (ops : List CacheOp) :
    (c.run ops).1 = (s.run ops).1 ↔ CutsAlike c s ops := by
  refine ⟨fun hseen => ?_, fun hops => (h.run hops).1⟩
  induction ops generalizing c s with
  | nil => trivial
  | cons op ops ih =>
    obtain ⟨h1, h2⟩ := h.apply op
    obtain ⟨hop, hrest⟩ := List.cons.inj hseen
    exact ⟨h1.mp hop, ih (h2 (h1.mp hop)) hrest⟩

end

theorem createCacheSimple_refines {s : MmStreamInfo} (hs : s.AlwaysFull) {mpCache : Bytes}
    {cacheSize : Int} (hlen : (mpCache.length : Int) = cacheSize) {c : CacheSimpleContext}
    (hc : createCacheSimple s mpCache cacheSize = some c) : Refines c s := by
  unfold createCacheSimple at hc
  by_cases hpos : cacheSize ≤ 0
  · rw [if_pos hpos] at hc; cases hc
  · rw [if_neg hpos] at hc
    cases hc
    refine ⟨⟨⟨?_, ?_, hs⟩, ?_, rfl⟩, hs⟩
    · show mpCache.length = cacheSize.toNat
      omega
    · show 0 < cacheSize.toNat
      omega
    · show overlay s.contents s.pos (mpCache.take 0) = s.contents
      rw [List.take_zero, overlay_nil]

/-- the file behind the cache, with the waiting bytes at the stream position, is the one of the bare
stream -/
def ShownAlike (c : CacheSimpleContext) (s : MmStreamInfo) : Prop :=
  overlay c.mpStream.contents c.mpStream.pos (c.mpCache.take c.mValidLen) = s.contents ∧
    c.mpStream.pos + c.mValidLen = s.pos

theorem CacheSimpleContext.Inv.apply {c : CacheSimpleContext} (h : c.Inv) (op : CacheOp) :
    (c.apply op).2.Inv := by
  have hshows : c.Shows (overlay c.mpStream.contents c.mpStream.pos c.pending)
      (c.mpStream.pos + c.mValidLen) :=
    ⟨h, rfl, rfl⟩
  obtain ⟨hf, hf0, -⟩ := shows_flush hshows
  cases op with
  | write buf => exact (shows_write hshows buf).toInv
  | seek offset w => exact (shows_stream hf.toInv hf0 _ (hf.full.seek offset w)).toInv
  | tell => exact hf.toInv
  | truncate length => exact (shows_stream hf.toInv hf0 _ (hf.full.truncate length)).toInv
  | flush => exact hf.toInv

theorem CacheSimpleContext.Inv.run {c : CacheSimpleContext} (h : c.Inv) (ops : List CacheOp) :
    (c.run ops).2.Inv := by
  induction ops generalizing c with
  | nil => exact h
  | cons op ops ih => exact ih (h.apply op)

/-- **The cache is seen at truncates only.**  A new cache of any size over a stream whose writes
succeed, whatever its `FILE` holds back, and any sequence of operations.  Every seek, tell and
truncate result and the file at each of them and at each flush are those of the bare stream, and
after every operation the file with the waiting bytes stored at the stream position is the uncached
file, if and only if each truncate of the run leaves the same file at the two streams. The cache is
never full. -/
theorem cache_run_refines (s : MmStreamInfo) (hs : s.AlwaysFull) (mpCache : Bytes) (cacheSize : Int)
    (hsize : 1 ≤ cacheSize) (hlen : (mpCache.length : Int) = cacheSize) (ops : List CacheOp) :
    ∃ c, createCacheSimple s mpCache cacheSize = some c ∧
      (((c.run ops).1 = (s.run ops).1 ∧
      ∀ k, ShownAlike (c.run (ops.take k)).2 (s.run (ops.take k)).2)
        ↔ CutsAlike c s ops) ∧
      ∀ k, (c.run (ops.take k)).2.mValidLen < (c.run (ops.take k)).2.mCacheSize := by
  have hc : createCacheSimple s mpCache cacheSize = some
      { mpStream := s, mpCache := mpCache, mCacheSize := cacheSize.toNat, mValidLen := 0 } :=
    if_neg (by omega)
  have h := createCacheSimple_refines hs hlen hc
  refine ⟨_, hc, ⟨fun halike => (h.run_iff ops).mp halike.1,
    fun hcuts => ⟨(h.run_iff ops).mpr hcuts, fun k => ?_⟩⟩,
    fun k => (h.shows.toInv.run (ops.take k)).room⟩
  obtain ⟨-, hrun⟩ := h.run (hcuts.take k)
  exact ⟨hrun.shows.file, hrun.shows.at_pos⟩

/-- a cache of 4 bytes over an empty file: a write larger than the cache, a seek back, an overwrite,
a cut behind it -/
theorem cache_run_refines_small :
    (1 : Int) ≤ 4 ∧ ∃ c, createCacheSimple newFile [9, 9, 9, 9] 4 = some c ∧
      (c.run [.write [1, 2, 3, 4, 5, 6], .seek 1 .seekSet, .write [7], .truncate 3, .tell]).1
        = [.nothing, .result 0 [1, 2, 3, 4, 5, 6], .nothing, .result 0 [1, 7, 3],
          .result 2 [1, 7, 3]] := by
  refine ⟨by decide, ?_⟩
  obtain ⟨c, hc, halike, -⟩ := cache_run_refines newFile newFile_full [9, 9, 9, 9] 4 (by decide) rfl
    [.write [1, 2, 3, 4, 5, 6], .seek 1 .seekSet, .write [7], .truncate 3, .tell]
  -- the position is in front of the cut
  have hcuts : CutsAlike c newFile [.write [1, 2, 3, 4, 5, 6], .seek 1 .seekSet, .write [7],
      .truncate 3, .tell] :=
    ⟨trivial, trivial, trivial, fun _ => Or.inl (by decide), trivial, trivial⟩
  exact ⟨c, hc, by rw [(halike.mpr hcuts).1]; decide⟩

/-- `tell` at the end of a file -/
theorem told_end (s : MmStreamInfo) (h : (s.contents.length : Int) ≤ int64Max) :
    (s.run [.seek 0 .seekEnd, .tell]).1.getLast? = some (.result s.contents.length s.contents) := by
  obtain ⟨hcontents, -, hpos⟩ := mmSeekStreamFile_eq s 0 .seekEnd
  have htarget : s.target 0 .seekEnd = s.contents.length := add_zero _
  rw [htarget, if_pos ⟨Int.natCast_nonneg _, h⟩, Int.toNat_natCast] at hpos
  show some (Seen.result ((mmSeekStreamFile s 0 .seekEnd).2.pos : Int)
    (mmSeekStreamFile s 0 .seekEnd).2.contents) = _
  rw [hpos, hcontents]

/-- a cache of 100 bytes -/
def cache100 : CacheSimpleContext :=
  { mpStream := newFile, mpCache := zeros 100, mCacheSize := 100, mValidLen := 0 }

/-- 4096 bytes through it: the first 4000 are held back when the flush writes the rest -/
theorem held_behind_cache {b : Bytes} (hb : b.length = 4096) :
    (fsCacheSimpleFlush (fsCacheSimpleWrite cache100 b).2).mpStream.held.length = 4096 := by
  have htake : (b.take 4000).length = 4000 := List.length_take_of_le (by omega)
  obtain ⟨hheld, hstdio, hcalls⟩ := fileCacheWrite_held newFile newFile_full (b.take 4000)
  have hrest : (fsCacheSimpleWrite cache100 b).2
      = { mpStream := (fileCacheWrite newFile (b.take 4000)).2
          mpCache := memcpy (zeros 100) 0 (b.drop 4000)
          mCacheSize := 100
          mValidLen := 96 } := by
    simp [fsCacheSimpleWrite, fsCacheSimpleRest, hb, cache100]
  have hnext : ((memcpy (zeros 100) 0 (b.drop 4000)).take 96).length = 96 := by
    rw [List.length_take, memcpy_length _ _ _ (by rw [List.length_drop, zeros_length]; omega),
      zeros_length]
    rfl
  rw [hrest, fsCacheSimpleFlush, if_pos (Nat.succ_pos 95)]
  dsimp only
  rw [(fileCacheWrite_held _ (fileCacheWrite_full newFile newFile_full _).2.2 _).1, hheld, hstdio,
    hcalls, htake, hnext]
  decide

/-- one write of them holds nothing back -/
theorem held_alone {b : Bytes} (hb : b.length = 4096) :
    (mmWriteStreamFile newFile b).2.2.held.length = 0 := by
  rw [mmWriteStreamFile_full newFile newFile_full, fpCall_held, hb]
  rfl

/-- what `cache_tell` returns behind them, a truncate to 10 bytes and a seek to the end: 4096, and
10 without a cache -/
theorem cache_run_cut : ∃ f g, createCacheSimple newFile (zeros 100) 100 = some cache100 ∧
    (cache100.run [.write (zeros 4096), .truncate 10, .seek 0 .seekEnd, .tell]).1.getLast?
      = some (.result 4096 f) ∧
      (newFile.run [.write (zeros 4096), .truncate 10, .seek 0 .seekEnd, .tell]).1.getLast?
        = some (.result 10 g) := by
  have hlen := zeros_length 4096
  generalize zeros 4096 = b at hlen ⊢
  have hcreate : createCacheSimple newFile (zeros 100) 100 = some cache100 := rfl
  have hrefines : Refines cache100 newFile :=
    createCacheSimple_refines newFile_full (by rw [zeros_length]; rfl) hcreate
  obtain ⟨hf, hf0, -, hfp⟩ := shows_flush ((hrefines.apply (.write b)).2 trivial).shows
  have hpos : (mmWriteStreamFile newFile b).2.2.pos = 4096 := by
    rw [mmWriteStreamFile_full newFile newFile_full, fpCall_pos, hlen]
    rfl
  have hcached : (mmTruncateStreamFile
      (fsCacheSimpleFlush (fsCacheSimpleWrite cache100 b).2).mpStream
      10).2.contents.length = 4096 := by
    rw [truncated_length (by decide), held_behind_cache hlen]
    exact congrArg (max 10) (hfp.trans hpos)
  have hbare : (mmTruncateStreamFile (mmWriteStreamFile newFile b).2.2 10).2.contents.length
      = 10 := by
    rw [truncated_length (by decide), if_pos (held_alone hlen)]
    rfl
  have hsmall : ((mmTruncateStreamFile
      (fsCacheSimpleFlush (fsCacheSimpleWrite cache100 b).2).mpStream 10).2.contents.length : Int)
      ≤ int64Max := by
    rw [hcached]
    decide
  have hsmall' :
      ((mmTruncateStreamFile (mmWriteStreamFile newFile b).2.2 10).2.contents.length : Int)
      ≤ int64Max := by
    rw [hbare]
    decide
  have htold := told_end _ hsmall
  have htold' := told_end _ hsmall'
  rw [hcached] at htold
  rw [hbare] at htold'
  -- behind the truncate the cache is empty, and shows what its stream does
  have hempty := shows_stream hf.toInv hf0 _ (hf.full.truncate 10)
  have hops : ∀ length, CacheOp.truncate length ∉ [.seek 0 .seekEnd, .tell] := by simp
  have hseen := (Refines.run ⟨hempty, hempty.full⟩ (cutsAlike_of_no_truncate hops _ _)).1
  exact ⟨_, _, hcreate, (congrArg List.getLast? hseen).trans htold, htold'⟩

end Pluto

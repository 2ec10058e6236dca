import Pluto.Cache.Refine
import Pluto.Cache.Errors

/-!
# The file behind a cache that is not flushed

A cache writes whole caches only.  When the stream is closed and the cache was not flushed, what was
written into a new file is there up to the last multiple of the cache size, and the rest is lost
with the cache.

* `Wrote`           the file and the waiting bytes are the bytes that were written;
* `Ahead`           the same behind a seek over the end of a file: the hole is not there before the
  first whole cache;
* `ahead_run`       any number of writes;
* `ahead_contents`  what is then in the file;
* `wrote_run`       any number of writes into a new file.
-/

namespace Pluto
open Octets

/-- the bytes `flat` were written: into the file, in whole caches, and then into the cache -/
structure CacheSimpleContext.Wrote (c : CacheSimpleContext) (flat : Bytes) :
    Prop extends c.Inv where
  bytes : c.mpStream.contents ++ c.pending = flat
  at_end : c.mpStream.pos = c.mpStream.contents.length
  whole : c.mCacheSize ∣ c.mpStream.contents.length

section
variable {c : CacheSimpleContext} {flat : Bytes}

theorem CacheSimpleContext.Wrote.length (h : c.Wrote flat) :
    c.mpStream.contents.length = c.mCacheSize * (flat.length / c.mCacheSize) := by
  obtain ⟨n, hn⟩ := h.whole
  have hroom := h.room
  rw [← h.bytes, List.length_append, h.toInv.pending_length, hn, Nat.mul_add_div (by omega),
    Nat.div_eq_of_lt hroom, Nat.add_zero]

/-- what is in the file -/
theorem CacheSimpleContext.Wrote.contents (h : c.Wrote flat) :
    c.mpStream.contents = flat.take (c.mCacheSize * (flat.length / c.mCacheSize)) := by
  rw [← h.length, ← h.bytes, List.take_left]

theorem CacheSimpleContext.Inv.buffered (h : c.Inv) : c.Buffered := ⟨h.buffer, h.room⟩

/-- blocks from the position of a file on -/
theorem writeAll_full {s : MmStreamInfo} (hfull : s.AlwaysFull) (blocks : List Bytes) :
    (s.writeAll blocks).AlwaysFull ∧
      (s.writeAll blocks).contents = overlay s.contents s.pos blocks.flatten ∧
      (s.writeAll blocks).pos = s.pos + blocks.flatten.length := by
  induction blocks generalizing s with
  | nil => exact ⟨hfull, (overlay_nil _ _).symm, rfl⟩
  | cons b blocks ih =>
    obtain ⟨hcontents, hpos, hfull'⟩ := fileCacheWrite_full s hfull b
    obtain ⟨h1, h2, h3⟩ := ih hfull'
    rw [hcontents, hpos, overlay_append] at h2
    rw [hpos, Nat.add_assoc, ← List.length_append] at h3
    exact ⟨h1, h2, h3⟩

/-- the blocks of a call are what waited and the new bytes, less what waits now -/
theorem blocks_whole {c' : CacheSimpleContext} {buf : Bytes} {blocks : List Bytes} (hc : c.Buffered)
    (h : Blocks c c' buf blocks)
    (hsizes : blocks.map List.length = writeSizes c.mCacheSize c.mValidLen buf.length) :
    c.mCacheSize ∣ blocks.flatten.length := by
  have hlen := congrArg List.length h.bytes
  rw [List.length_append, List.length_append, hc.pending_length, h.toBuffered.pending_length,
    h.waiting hc hsizes] at hlen
  have hmod := Nat.div_add_mod (c.mValidLen + buf.length) c.mCacheSize
  exact ⟨(c.mValidLen + buf.length) / c.mCacheSize, by omega⟩

/-! ## behind a seek -/

/-- writes from `base` on, behind a file of `front` bytes -/
structure CacheSimpleContext.Ahead (c : CacheSimpleContext) (front base : Nat) :
    Prop extends c.Inv where
  start : base ≤ c.mpStream.pos
  whole : c.mCacheSize ∣ c.mpStream.pos - base
  length : c.mpStream.contents.length = if c.mpStream.pos = base then front else c.mpStream.pos

section
variable {front base : Nat}

theorem CacheSimpleContext.Ahead.length_le (h : c.Ahead front base) (hfront : front ≤ base) :
    c.mpStream.contents.length ≤ c.mpStream.pos := by
  have hstart := h.start
  rw [h.length]
  split
  · omega
  · exact le_rfl

theorem ahead_write (h : c.Ahead front base) (hfront : front ≤ base) (buf : Bytes) :
    (fsCacheSimpleWrite c buf).2.Ahead front base ∧
      (fsCacheSimpleWrite c buf).2.mCacheSize = c.mCacheSize := by
  by_cases hnil : buf = []
  · have hskip : (fsCacheSimpleWrite c buf).2 = c := by
      rw [fsCacheSimpleWrite, if_pos (by rw [hnil]; rfl)]
    rw [hskip]
    exact ⟨h, rfl⟩
  obtain ⟨-, blocks, hblocks, hsizes⟩ := fsCacheSimpleWrite_blocks h.toInv.buffered hnil
  obtain ⟨hfull, hcontents, hpos⟩ := writeAll_full h.full blocks
  rw [← hblocks.stream] at hfull hcontents hpos
  have hstart := h.start
  refine ⟨⟨⟨hblocks.buffer, hblocks.room, hfull⟩, ?_, ?_, ?_⟩, hblocks.size⟩
  · rw [hpos]
    omega
  · rw [hblocks.size, hpos, Nat.sub_add_comm hstart]
    exact Nat.dvd_add h.whole (blocks_whole h.toInv.buffered hblocks hsizes)
  · by_cases hflat : blocks.flatten = []
    · rw [hcontents, hpos, hflat, overlay_nil, List.length_nil, Nat.add_zero]
      exact h.length
    · -- the file is as long as the place of its last block
      have hlong := List.length_pos_iff.mpr hflat
      have hle := h.length_le hfront
      rw [hcontents, overlay_length _ _ hflat, hpos, if_neg (by omega)]
      omega

theorem ahead_run (h : c.Ahead front base) (hfront : front ≤ base) (bs : List Bytes) :
    (c.run (bs.map .write)).2.Ahead front base ∧
      (c.run (bs.map .write)).2.mCacheSize = c.mCacheSize := by
  induction bs generalizing c with
  | nil => exact ⟨h, rfl⟩
  | cons b bs ih =>
    obtain ⟨hahead, hsize⟩ := ahead_write h hfront b
    obtain ⟨hahead', hsize'⟩ := ih hahead
    exact ⟨hahead', hsize'.trans hsize⟩

/-- what is in the file, from what would be in it behind a flush -/
theorem CacheSimpleContext.Ahead.contents (h : c.Ahead front base) (hfront : front ≤ base)
    {contents : Bytes} {pos : Nat} (hshows : c.Shows contents pos) :
    c.mpStream.contents = contents.take (if (pos - base) / c.mCacheSize = 0 then front
      else base + c.mCacheSize * ((pos - base) / c.mCacheSize)) := by
  obtain ⟨n, hn⟩ := h.whole
  have hroom := h.room
  have hstart := h.start
  have hle := h.length_le hfront
  have hdiv : (pos - base) / c.mCacheSize = n := by
    have hsum : pos - base = c.mCacheSize * n + c.mValidLen := by
      rw [← hshows.at_pos, ← hn]
      omega
    rw [hsum, Nat.mul_add_div (by omega), Nat.div_eq_of_lt hroom, Nat.add_zero]
  have hlength : c.mpStream.contents.length = if n = 0 then front else base + c.mCacheSize * n := by
    have hzero : c.mpStream.pos = base ↔ n = 0 := by
      have hmul : c.mCacheSize * n = 0 ↔ n = 0 := by
        rw [Nat.mul_eq_zero, or_iff_right (by omega)]
      rw [← hmul, ← hn]
      omega
    rw [h.length, if_congr hzero rfl rfl]
    split
    · rfl
    · omega
  rw [hdiv, ← hlength, ← hshows.file]
  by_cases hpending : c.pending = []
  · rw [hpending, overlay_nil, List.take_length]
  · rw [overlay_gap _ _ _ hle hpending, List.append_assoc, List.take_left]

theorem shows_run {contents : Bytes} {pos : Nat} (h : c.Shows contents pos) (bs : List Bytes) :
    (c.run (bs.map .write)).2.Shows (overlay contents pos bs.flatten)
    (pos + bs.flatten.length) := by
  induction bs generalizing c contents pos with
  | nil =>
    rw [List.flatten_nil, overlay_nil]
    exact h
  | cons b bs ih =>
    have hrest := ih (shows_write h b)
    rw [overlay_append, Nat.add_assoc, ← List.length_append, ← List.flatten_cons] at hrest
    exact hrest

/-- **A run of writes behind a seek.** -/
theorem ahead_contents {contents : Bytes} (h : c.Ahead contents.length base)
    (hfront : contents.length ≤ base) (hshows : c.Shows contents base) (bs : List Bytes) :
    (c.run (bs.map .write)).2.mpStream.contents = (overlay contents base bs.flatten).take
      (if bs.flatten.length / c.mCacheSize = 0 then contents.length
        else base + c.mCacheSize * (bs.flatten.length / c.mCacheSize)) := by
  obtain ⟨hahead, hsize⟩ := ahead_run h hfront bs
  have hcontents := hahead.contents hfront (shows_run hshows bs)
  rw [hsize, Nat.add_sub_cancel_left] at hcontents
  exact hcontents

end

/-! ## from the beginning of a file -/

theorem wrote_iff_ahead : c.Wrote flat ↔ c.Ahead 0 0 ∧ c.Shows flat flat.length := by
  constructor
  · intro h
    have hend := h.at_end
    refine ⟨⟨h.toInv, Nat.zero_le _, ?_, ?_⟩, ⟨h.toInv, ?_, ?_⟩⟩
    · rw [hend]
      exact h.whole
    · split
      · omega
      · exact hend.symm
    · rw [hend, overlay_end, h.bytes]
    · rw [← h.bytes, List.length_append, h.toInv.pending_length, hend]
  · rintro ⟨hahead, hshows⟩
    have hend : c.mpStream.pos = c.mpStream.contents.length := by
      rw [hahead.length]
      split
      · assumption
      · rfl
    have hfile := hshows.file
    rw [hend, overlay_end] at hfile
    refine ⟨hahead.toInv, hfile, hend, ?_⟩
    rw [← hend]
    exact hahead.whole

/-- **A run of writes.** -/
theorem wrote_run (h : c.Wrote flat) (bs : List Bytes) :
    (c.run (bs.map .write)).2.Wrote (flat ++ bs.flatten) ∧
      (c.run (bs.map .write)).2.mCacheSize = c.mCacheSize := by
  obtain ⟨hahead, hshows⟩ := wrote_iff_ahead.mp h
  obtain ⟨hahead', hsize⟩ := ahead_run hahead le_rfl bs
  have hshows' := shows_run hshows bs
  rw [overlay_end, ← List.length_append] at hshows'
  exact ⟨wrote_iff_ahead.mpr ⟨hahead', hshows'⟩, hsize⟩

/-- a new cache in front of an empty file -/
theorem wrote_new {s : MmStreamInfo} (hfull : s.AlwaysFull) (hempty : s.contents = [])
    (hpos : s.pos = 0) {mpCache : Bytes} {m : Nat} (hm : 0 < m) (hlen : mpCache.length = m) :
    CacheSimpleContext.Wrote { mpStream := s, mpCache := mpCache, mCacheSize := m, mValidLen := 0 }
      [] := by
  refine ⟨⟨hlen, hm, hfull⟩, ?_, ?_, ?_⟩
  · show s.contents ++ mpCache.take 0 = []
    rw [hempty, List.take_zero, List.append_nil]
  · show s.pos = s.contents.length
    rw [hpos, hempty, List.length_nil]
  · show m ∣ s.contents.length
    rw [hempty]
    exact Nat.dvd_zero m

end

end Pluto

import Pluto.Stream.Descriptor

/-!
# Reads and writes of an input stream over a descriptor, and the widths in between

Every position that `lseek64` returns has been an `int`, also the one that becomes `cur_offset`;
`mm_write_fd_file` compares it with `-1` as an `int`, and `mm_read_fd_file` narrows the number of
bytes to one.

* `mmWriteFdFile`       the write of the source;
* `Writes`, `Reads`     the transfer that was asked for takes place at the position of the stream;
* `fd_transfer_iff`     the positions and the sizes for which it does.
-/

namespace Pluto
open Octets

/-- An open file that is written to: `writeCount p n` is the number of bytes that a `write` of `n`
at `p` takes, or `none` where it fails. -/
structure WritableFile extends DiskFile where
  writeCount : Nat → Nat → Option Nat
  writeCount_le : ∀ p n k, writeCount p n = some k → k ≤ n ∧ p + k ≤ maxOffset

/-- `write` at the shared offset: its value, the contents of the file and the shared offset after
it -/
def WritableFile.write (f : WritableFile) (pos : Nat) (ptr : Bytes) (n : Nat) : Int × Bytes × Nat :=
  match f.writeCount pos n with
  | some k => (k, overlay f.contents pos (ptr.take k), pos + k)
  | none => (-1, f.contents, pos)

/-- The value with the contents of the file.  `none`: `size` is zero and the division has no
value. -/
def mmWriteFdFile (f : WritableFile) (pos : Nat) (stream : FdStreamInfo) (ptr : Bytes)
    (size nmemb : Nat) :
    Option ((Int × Bytes) × FdStreamInfo × Nat) :=
  let r := lseek64 f.toDiskFile pos stream.cur_offset SEEK_SET
  let result := toInt r.1
  if result = -1 then some ((-1, f.contents), stream, r.2)
  else
    let wr_sz := f.write r.2 ptr (size * nmemb % 2 ^ 64)
    let seek_ret := lseek64 f.toDiskFile wr_sz.2.2 0 SEEK_CUR
    if seek_ret.1 = -1 then some ((-1, wr_sz.2.1), stream, seek_ret.2)
    else
      let stream' := { stream with
        cur_offset := if seek_ret.1 < stream.offset then stream.offset else seek_ret.1 }
      if wr_sz.1 = -1 then some ((-1, wr_sz.2.1), stream', seek_ret.2)
      else if size = 0 then none
      else some ((wr_sz.1 / size, wr_sz.2.1), stream', seek_ret.2)

/-- The OS takes `k` bytes of a `write` of the elements at the position of the stream, wherever the
shared offset stands: they are in the file from there on, the value is the number of whole elements
among them, and the position is behind them. -/
def Writes (stream : FdStreamInfo) (ptr : Bytes) (size nmemb k : Nat) : Prop :=
  ∀ (f : WritableFile) (pos p : Nat), stream.cur_offset = p → p ≤ f.maxOffset →
    f.writeCount p (size * nmemb) = some k →
    mmWriteFdFile f pos stream ptr size nmemb
      = some ((((k / size : Nat) : Int), overlay f.contents p (ptr.take k)),
        { stream with cur_offset := p + k }, p + k)

/-- The OS gives `k` bytes to a `read` of the elements at the position of the stream: `ptr` has
these bytes, the value is the number of whole elements among them, and the position is behind
them. -/
def Reads (stream : FdStreamInfo) (size nmemb k : Nat) : Prop :=
  ∀ (f : DiskFile) (pos p : Nat), stream.cur_offset = p → p ≤ f.maxOffset →
    f.readCount p (size * nmemb) = some k →
    mmReadFdFile f pos stream size nmemb
      = some ((((k / size : Nat) : Int), slice f.contents p k), { stream with cur_offset := p + k },
        p + k)

section
variable {stream : FdStreamInfo} {ptr : Bytes} {size nmemb p k : Nat}

theorem lseek64_to (f : DiskFile) (hp : p ≤ f.maxOffset) (pos : Nat) :
    lseek64 f pos p SEEK_SET = (toInt p, p) := by
  refine lseek64_some f ?_
  unfold DiskFile.target DiskFile.position
  rw [if_pos rfl, if_pos ⟨Int.natCast_nonneg p, Int.ofNat_le.mpr hp⟩, Int.toNat_natCast]

/-- the positions that an `int` keeps -/
theorem toInt_eq_self {p : Nat} : toInt p = p ↔ p < 2 ^ 31 := by
  have hdef := Int.bmod_def (p : Int) (2 ^ 32)
  unfold toInt
  rw [hdef]
  split <;> omega

/-- the positions that look like a failure once they are an `int` -/
theorem toInt_eq_failure {p : Nat} : toInt p = -1 ↔ p % 2 ^ 32 = 2 ^ 32 - 1 := by
  have hdef := Int.bmod_def (p : Int) (2 ^ 32)
  unfold toInt
  rw [hdef]
  split <;> omega

theorem toInt_toInt (x : Int) : toInt (toInt x) = toInt x := Int.bmod_bmod

/-! ## a file that answers one request -/

/-- A file of the largest size there can be, whose OS gives `k` bytes to a transfer of `n` at `p`
and fails otherwise. -/
def onlyFor (p n k : Nat) (hk : k ≤ n) (hpk : p + k ≤ 2 ^ 63 - 1) : WritableFile where
  contents := zeros (p + k)
  maxOffset := 2 ^ 63 - 1
  length_le := by rwa [zeros_length]
  maxOffset_le := by decide
  otherSeek _ _ := none
  readCount q x := if q = p ∧ x = n then some k else none
  readCount_le q x j hj := by
    split at hj
    · next h =>
      cases hj
      rw [h.1, h.2, zeros_length]
      exact ⟨hk, le_max_right _ _⟩
    · cases hj
  writeCount q x := if q = p ∧ x = n then some k else none
  writeCount_le q x j hj := by
    split at hj
    · next h =>
      cases hj
      rw [h.1, h.2]
      exact ⟨hk, hpk⟩
    · cases hj

section
variable {n : Nat} {hk : k ≤ n} {hpk : p + k ≤ 2 ^ 63 - 1}

theorem onlyFor_max : p ≤ (onlyFor p n k hk hpk).maxOffset := le_trans (Nat.le_add_right p k) hpk

theorem onlyFor_writeCount (x : Nat) :
    (onlyFor p n k hk hpk).writeCount p x = if x = n then some k else none := by
  show (if p = p ∧ x = n then some k else none) = _
  simp

theorem onlyFor_readCount (x : Nat) :
    (onlyFor p n k hk hpk).readCount p x = if x = n then some k else none := by
  show (if p = p ∧ x = n then some k else none) = _
  simp

end

/-! ## the write -/

section
variable {f : WritableFile} (pos : Nat) (hp : stream.cur_offset = p) (hmax : p ≤ f.maxOffset)

include hp hmax

/-- at a position that looks like a failure nothing is written -/
theorem mmWriteFdFile_refused (h : toInt p = -1) :
    mmWriteFdFile f pos stream ptr size nmemb = some ((-1, f.contents), stream, p) := by
  unfold mmWriteFdFile
  rw [hp, lseek64_to f.toDiskFile hmax]
  dsimp only
  rw [toInt_toInt, if_pos h]

/-- behind the first seek: what the `write` leaves is what the second seek finds -/
theorem mmWriteFdFile_at (h : toInt p ≠ -1) (hsize : 1 ≤ size) {v : Int} {b : Bytes} {q : Nat}
    (hwrite : f.write p ptr (size * nmemb % 2 ^ 64) = (v, b, q)) (hq : q ≤ f.maxOffset) :
    mmWriteFdFile f pos stream ptr size nmemb
      = if toInt q = -1 then some ((-1, b), stream, q)
        else some ((if v = -1 then -1 else v / size, b),
          { stream with cur_offset := if toInt q < stream.offset then stream.offset else toInt q },
          q) := by
  unfold mmWriteFdFile
  rw [hp, lseek64_to f.toDiskFile hmax]
  dsimp only
  rw [toInt_toInt, if_neg h, hwrite]
  dsimp only
  rw [lseek64_here f.toDiskFile hq, if_neg (show ¬ size = 0 by omega)]
  dsimp only
  split_ifs <;> rfl

theorem mmWriteFdFile_failed (h : toInt p ≠ -1) (hsize : 1 ≤ size)
    (hk : f.writeCount p (size * nmemb % 2 ^ 64) = none) :
    (mmWriteFdFile f pos stream ptr size nmemb).map (fun r => r.1.1) = some (-1) := by
  have hwrite : f.write p ptr (size * nmemb % 2 ^ 64) = (-1, f.contents, p) := by
    unfold WritableFile.write
    rw [hk]
  rw [mmWriteFdFile_at pos hp hmax h hsize hwrite hmax, if_neg h, if_pos rfl]
  rfl

theorem mmWriteFdFile_done (h : toInt p ≠ -1) (hsize : 1 ≤ size)
    (hk : f.writeCount p (size * nmemb % 2 ^ 64) = some k) :
    mmWriteFdFile f pos stream ptr size nmemb
      = if toInt (p + k : Nat) = -1 then
        some ((-1, overlay f.contents p (ptr.take k)), stream, p + k)
        else some ((((k / size : Nat) : Int), overlay f.contents p (ptr.take k)),
          { stream with
            cur_offset :=
              if toInt (p + k : Nat) < stream.offset then stream.offset else toInt (p + k : Nat) },
          p + k) := by
  have hle := (f.writeCount_le p _ k hk).2
  have hwrite : f.write p ptr (size * nmemb % 2 ^ 64)
      = ((k : Int), overlay f.contents p (ptr.take k), p + k) := by
    unfold WritableFile.write
    rw [hk]
  rw [mmWriteFdFile_at pos hp hmax h hsize hwrite hle, if_neg (show ¬ (k : Int) = -1 by omega),
    Int.natCast_ediv]

end

/-- a stream with a window and a position of 64 bits, and bytes that end at such a position -/
structure Transfer (stream : FdStreamInfo) (n k : Nat) : Prop where
  offset_nonneg : 0 ≤ stream.offset
  offset_le : stream.offset ≤ stream.cur_offset
  some_of : k ≤ n
  end_le : stream.cur_offset + k ≤ int64Max

theorem Transfer.position {n : Nat} (h : Transfer stream n k) :
    ∃ p : Nat, stream.cur_offset = p ∧ p + k ≤ 2 ^ 63 - 1 := by
  have h0 := h.offset_nonneg
  have h1 := h.offset_le
  have h2 := h.end_le
  unfold int64Max at h2
  exact ⟨stream.cur_offset.toNat, by omega, by omega⟩

/-- a number of elements is no `-1` -/
theorem no_failure {j : Nat} (h : some (-1 : Int) = some (j : Int)) : False := by
  have := Option.some.inj h
  omega

theorem writes_iff (h : Transfer stream (size * nmemb) k) (hsize : 1 ≤ size) :
    Writes stream ptr size nmemb k ↔ size * nmemb < 2 ^ 64 ∧ (stream.cur_offset + k < 2 ^ 31 ∨
      k = 0 ∧ stream.cur_offset = stream.offset ∧ stream.cur_offset % 2 ^ 32 ≠ 2 ^ 32 - 1) := by
  obtain ⟨p, hp, hend⟩ := h.position
  have hoffset := h.offset_nonneg
  have hle := h.offset_le
  have hsome := h.some_of
  have hstart := toInt_eq_failure (p := p)
  have hself := toInt_eq_self (p := p + k)
  constructor
  · intro hw
    have hanswer : (onlyFor p (size * nmemb) k hsome hend).writeCount p (size * nmemb)
        = some k := by
      rw [onlyFor_writeCount, if_pos rfl]
    have hrun := hw (onlyFor p (size * nmemb) k hsome hend) 0 p hp onlyFor_max hanswer
    have hvalue : (mmWriteFdFile _ 0 stream ptr size nmemb).map (fun r => r.1.1)
        = some ((k / size : Nat) : Int) :=
      congrArg _ hrun
    have hseek : toInt p ≠ -1 := by
      intro hfail
      rw [mmWriteFdFile_refused 0 hp onlyFor_max hfail] at hvalue
      exact no_failure hvalue
    have hn : size * nmemb % 2 ^ 64 = size * nmemb := by
      by_contra hn
      have hother : (onlyFor p (size * nmemb) k hsome hend).writeCount p (size * nmemb % 2 ^ 64)
          = none := by
        rw [onlyFor_writeCount, if_neg hn]
      rw [mmWriteFdFile_failed 0 hp onlyFor_max hseek hsize hother] at hvalue
      exact no_failure hvalue
    refine ⟨by omega, ?_⟩
    -- the new position went through an `int`
    rw [mmWriteFdFile_done 0 hp onlyFor_max hseek hsize (by rw [hn]; exact hanswer)] at hrun hvalue
    by_cases hfail : toInt (p + k : Nat) = -1
    · rw [if_pos hfail] at hvalue
      exact (no_failure hvalue).elim
    rw [if_neg hfail] at hrun
    have hcur : (if toInt (p + k : Nat) < stream.offset then stream.offset else toInt (p + k : Nat))
        = (p : Int) + k :=
      congrArg (fun r => r.2.1.cur_offset) (Option.some.inj hrun)
    split_ifs at hcur <;> omega
  · rintro ⟨hn, hin⟩ f pos p' hp' hmax hk
    obtain rfl : p = p' := by omega
    have hseek : toInt p ≠ -1 := by omega
    rw [mmWriteFdFile_done pos hp hmax hseek hsize (by rw [Nat.mod_eq_of_lt hn]; exact hk)]
    have hback := toInt_le (p + k)
    have hzero : k = 0 → toInt (p + k : Nat) = toInt p := fun h0 => by rw [h0, Nat.add_zero]
    have hfail : toInt (p + k : Nat) ≠ -1 := by omega
    have hcur : (if toInt (p + k : Nat) < stream.offset then stream.offset else toInt (p + k : Nat))
        = p + k := by
      split_ifs <;> omega
    rw [if_neg hfail, hcur]

/-! ## the read -/

section
variable {f : DiskFile} (pos : Nat) (hp : stream.cur_offset = p) (hmax : p ≤ f.maxOffset)

include hp hmax

theorem mmReadFdFile_refused (h : toInt p = -1) :
    (mmReadFdFile f pos stream size nmemb).map (fun r => r.1.1) = some (-1) := by
  unfold mmReadFdFile
  rw [hp, lseek64_to f hmax]
  dsimp only
  rw [if_pos h]
  rfl

theorem mmReadFdFile_failed (h : toInt p ≠ -1) (hsize : 1 ≤ size)
    (hk : f.readCount p (readRequest size nmemb) = none) :
    (mmReadFdFile f pos stream size nmemb).map (fun r => r.1.1) ≠ some ((k : Nat) : Int) := by
  have hread : f.read p (readRequest size nmemb) = (-1, [], p) := by
    unfold DiskFile.read
    rw [hk]
  rw [mmReadFdFile_at f hp hmax h hsize hread hmax]
  split_ifs <;> simp
  omega

theorem mmReadFdFile_done (h : toInt p ≠ -1) (hsize : 1 ≤ size)
    (hk : f.readCount p (readRequest size nmemb) = some k) :
    mmReadFdFile f pos stream size nmemb
      = if stream.offset ≤ toInt (p + k : Nat) then
          some ((((k / size : Nat) : Int), slice f.contents p k),
            { stream with cur_offset := toInt (p + k : Nat) }, p + k)
        else none := by
  have hread : f.read p (readRequest size nmemb) = ((k : Int), slice f.contents p k, p + k) := by
    unfold DiskFile.read
    rw [hk]
  have hle : p + k ≤ f.maxOffset := by
    have := (f.readCount_le p _ k hk).2
    have := f.length_le
    omega
  rw [mmReadFdFile_at f hp hmax h hsize hread hle, if_neg (show ¬ (k : Int) = -1 by omega),
    Int.natCast_ediv]

end

/-- `int rd_sz` keeps the number of bytes where it is below `2^31`, or where the sign extension to
`size_t` makes up for the sign that it took on -/
theorem readRequest_eq_iff {size nmemb : Nat} :
    readRequest size nmemb = size * nmemb ↔
      size * nmemb < 2 ^ 31 ∨ 2 ^ 64 - 2 ^ 31 ≤ size * nmemb ∧ size * nmemb < 2 ^ 64 := by
  have hdef := Int.bmod_def ((size * nmemb : Nat) : Int) (2 ^ 32)
  unfold readRequest
  rw [hdef]
  generalize size * nmemb = n
  split <;> omega

theorem reads_iff (h : Transfer stream (size * nmemb) k) (hsize : 1 ≤ size) :
    Reads stream size nmemb k ↔ readRequest size nmemb = size * nmemb ∧
      stream.cur_offset + k < 2 ^ 31 := by
  obtain ⟨p, hp, hend⟩ := h.position
  have hoffset := h.offset_nonneg
  have hle := h.offset_le
  have hsome := h.some_of
  have hself := toInt_eq_self (p := p + k)
  constructor
  · intro hr
    have hanswer : (onlyFor p (size * nmemb) k hsome hend).readCount p (size * nmemb) = some k := by
      rw [onlyFor_readCount, if_pos rfl]
    have hrun := hr (onlyFor p (size * nmemb) k hsome hend).toDiskFile 0 p hp onlyFor_max hanswer
    have hvalue : (mmReadFdFile _ 0 stream size nmemb).map (fun r => r.1.1)
        = some ((k / size : Nat) : Int) :=
      congrArg _ hrun
    have hseek : toInt p ≠ -1 := by
      intro hfail
      rw [mmReadFdFile_refused 0 hp onlyFor_max hfail] at hvalue
      exact no_failure hvalue
    have hn : readRequest size nmemb = size * nmemb := by
      by_contra hn
      refine mmReadFdFile_failed (k := k / size) 0 hp onlyFor_max hseek hsize ?_ hvalue
      rw [onlyFor_readCount, if_neg hn]
    refine ⟨hn, ?_⟩
    rw [mmReadFdFile_done 0 hp onlyFor_max hseek hsize (by rw [hn]; exact hanswer)] at hrun
    generalize toInt (p + k : Nat) = q at hrun hself
    split_ifs at hrun
    have hcur : q = (p : Int) + k := congrArg (fun r => r.2.1.cur_offset) (Option.some.inj hrun)
    omega
  · rintro ⟨hn, hin⟩ f pos p' hp' hmax hk
    obtain rfl : p = p' := by omega
    have hseek : toInt p ≠ -1 := by
      have := toInt_eq_self (p := p)
      omega
    rw [mmReadFdFile_done pos hp hmax hseek hsize (by rw [hn]; exact hk), if_pos (by omega),
      hself.mpr (by omega), Nat.cast_add]

/-- **Which transfers take place as asked.**  At every position of every window, for every element
size and count, and for every number `k` of bytes that the OS transfers: the write takes place at
the position, and its value and the new position are those of the bytes that the OS took, if and
only if the number of bytes is a `size_t` and the new position is below `2^31`, or nothing is taken
at the start of the window, at a position that is not `2^32 - 1` modulo `2^32`; the read asks for
`size * nmemb` bytes, with the same value and position, if and only if the new position is below
`2^31` and this number is below `2^31`, or at least `2^64 - 2^31` and a `size_t`. -/
theorem fd_transfer_iff (stream : FdStreamInfo) (hoffset : 0 ≤ stream.offset)
    (hcur : stream.offset ≤ stream.cur_offset) (ptr : Bytes) {size : Nat} (hsize : 1 ≤ size)
    (nmemb : Nat) {k : Nat} (hk : k ≤ size * nmemb) (hend : stream.cur_offset + k ≤ int64Max) :
    (Writes stream ptr size nmemb k ↔ size * nmemb < 2 ^ 64 ∧ (stream.cur_offset + k < 2 ^ 31 ∨
        k = 0 ∧ stream.cur_offset = stream.offset ∧ stream.cur_offset % 2 ^ 32 ≠ 2 ^ 32 - 1)) ∧
      (Reads stream size nmemb k ↔
        (size * nmemb < 2 ^ 31 ∨ 2 ^ 64 - 2 ^ 31 ≤ size * nmemb ∧ size * nmemb < 2 ^ 64) ∧
          stream.cur_offset + k < 2 ^ 31) := by
  have h : Transfer stream (size * nmemb) k := ⟨hoffset, hcur, hk, hend⟩
  exact ⟨writes_iff h hsize, (reads_iff h hsize).trans (and_congr_left fun _ => readRequest_eq_iff)⟩

theorem fd_transfer_iff_five :
    Writes ⟨4, 5⟩ [1, 2, 3, 4, 5, 6] 2 3 5 ∧ Reads ⟨4, 5⟩ 2 3 5 := by
  obtain ⟨hw, hr⟩ :=
    fd_transfer_iff ⟨4, 5⟩ (by decide) (by decide) [1, 2, 3, 4, 5, 6] (show 1 ≤ 2 by decide) 3
      (show 5 ≤ 2 * 3 by decide) (by decide)
  exact ⟨hw.mpr (by decide), hr.mpr (by decide)⟩

/-- one byte at `2^32 - 1` and one at `2^31`, with an OS that takes them; `2^31` bytes to read; and
one byte at `2^32` -/
theorem fd_transfer_narrowed :
    ¬ Writes ⟨0, 2 ^ 32 - 1⟩ [7] 1 1 1 ∧ ¬ Writes ⟨0, 2 ^ 31⟩ [7] 1 1 1 ∧
      ¬ Reads ⟨0, 0⟩ 1 (2 ^ 31) 0 ∧
      ¬ Reads ⟨0, 2 ^ 32⟩ 1 1 1 := by
  rw [writes_iff ⟨by decide, by decide, by decide, by decide⟩ le_rfl,
    writes_iff ⟨by decide, by decide, by decide, by decide⟩ le_rfl,
    reads_iff ⟨by decide, by decide, by decide, by decide⟩ le_rfl, readRequest_eq_iff,
    reads_iff ⟨by decide, by decide, by decide, by decide⟩ le_rfl]
  decide

end

end Pluto

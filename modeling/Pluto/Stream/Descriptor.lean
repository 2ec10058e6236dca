import Mathlib.Tactic.Common
import Mathlib.Tactic.Linarith
import Pluto.Stream.File
import Pluto.Steps.Shared

/-!
# `mm_stream_file`: input streams over a descriptor

`dup` leaves every stream that is created from one descriptor with the same OS file offset.  `pos`
is this shared offset, and each stream keeps the position that it means in `cur_offset`.

* `DiskFile`, `lseek64`            the open file, and what the OS does with the shared offset;
* `mmSeekFdFile`, `mmTellFdFile`, `mmReadFdFile`, `mmGetFdSizeFile`, `createInstreamHandleFile`
                                   the functions of the source;
* `exec_isolated`                  no operation depends on where the shared offset stands;
* `streams_isolated`               an interleaving gives each stream what it would get alone, if and
                                   only if no read ends at a position whose `int` is in front of the
                                   window.
-/

namespace Pluto
open Octets

def SEEK_SET : Int := 0
def SEEK_CUR : Int := 1
def SEEK_END : Int := 2

/-- An open file as the OS answers for it.  No offset goes beyond `maxOffset`, which the file
system sets; `otherSeek whence offset` is the answer to the remaining values of whence (`SEEK_DATA`,
`SEEK_HOLE` and the invalid ones), and `readCount p n` the number of bytes that a `read` of `n` at
`p` gives, or `none` where it fails. -/
structure DiskFile where
  contents : Bytes
  maxOffset : Nat
  length_le : contents.length ≤ maxOffset
  maxOffset_le : (maxOffset : Int) ≤ int64Max
  otherSeek : Int → Int → Option Nat
  readCount : Nat → Nat → Option Nat
  readCount_le : ∀ p n k, readCount p n = some k → k ≤ n ∧ p + k ≤ max p contents.length

/-- the offset `p`, where there can be one -/
def DiskFile.position (f : DiskFile) (p : Int) : Option Nat :=
  if 0 ≤ p ∧ p ≤ f.maxOffset then some p.toNat else none

/-- where a seek goes from the shared offset `pos` -/
def DiskFile.target (f : DiskFile) (pos : Nat) (offset whence : Int) : Option Nat :=
  if whence = SEEK_SET then f.position offset
  else if whence = SEEK_CUR then f.position (pos + offset)
  else if whence = SEEK_END then f.position (f.contents.length + offset)
  else f.otherSeek whence offset

/-- what is left of a value in an `int` -/
def toInt (x : Int) : Int := x.bmod (2 ^ 32)

/-- The value of `lseek64` and the shared offset after it.  `_LARGEFILE64_SOURCE` is defined behind
the system headers, so `lseek64` has no declaration, and the compiler takes its value for an
`int`. -/
def lseek64 (f : DiskFile) (pos : Nat) (offset whence : Int) : Int × Nat :=
  match f.target pos offset whence with
  | some p => (toInt p, p)
  | none => (-1, pos)

/-- `mm_stream_info_t` as an input stream over a descriptor uses it; `long` has 64 bits -/
structure FdStreamInfo where
  offset : Int
  cur_offset : Int
deriving DecidableEq, Repr

/-- what `mm_seek_fd_file` makes of the value of its last `lseek64`: no position before the
window -/
def FdStreamInfo.sought (stream : FdStreamInfo) (seekResult : Int × Nat) :
    Int × FdStreamInfo × Nat :=
  if seekResult.1 = -1 then (-1, stream, seekResult.2)
  else
    (0, { stream with
      cur_offset := if seekResult.1 < stream.offset then stream.offset else seekResult.1 },
      seekResult.2)

/-- A sum `offset + stream->offset` beyond `int64_t` is beyond every offset of the file, and it is
negative once it wraps: `lseek64` refuses it either way. -/
def mmSeekFdFile (f : DiskFile) (pos : Nat) (stream : FdStreamInfo) (offset whence : Int) :
    Int × FdStreamInfo × Nat :=
  if whence = SEEK_SET then stream.sought (lseek64 f pos (offset + stream.offset) whence)
  else if whence = SEEK_CUR then
    let seekResult := lseek64 f pos stream.cur_offset SEEK_SET
    if seekResult.1 = -1 then (-1, stream, seekResult.2)
    else stream.sought (lseek64 f seekResult.2 offset whence)
  else stream.sought (lseek64 f pos offset whence)

def mmTellFdFile (stream : FdStreamInfo) : Int := stream.cur_offset - stream.offset

/-- what `read` is asked for: `int rd_sz = size * nmemb`, a `size_t` again in the call -/
def readRequest (size nmemb : Nat) : Nat :=
  (((size * nmemb : Nat) : Int).bmod (2 ^ 32) % 2 ^ 64).toNat

/-- `read` at the shared offset: its value, the bytes in `ptr` and the shared offset after it -/
def DiskFile.read (f : DiskFile) (pos n : Nat) : Int × Bytes × Nat :=
  match f.readCount pos n with
  | some k => (k, slice f.contents pos k, pos + k)
  | none => (-1, [], pos)

/-- The value with the bytes that `ptr` holds.  `none`: the assertion fails, or `size` is zero and
the division has no value. -/
def mmReadFdFile (f : DiskFile) (pos : Nat) (stream : FdStreamInfo) (size nmemb : Nat) :
    Option ((Int × Bytes) × FdStreamInfo × Nat) :=
  let r := lseek64 f pos stream.cur_offset SEEK_SET
  if r.1 = -1 then some ((-1, []), stream, r.2)
  else
    let result := f.read r.2 (readRequest size nmemb)
    let r' := lseek64 f result.2.2 0 SEEK_CUR
    if stream.offset ≤ r'.1 then
      let stream' := { stream with cur_offset := r'.1 }
      if result.1 = -1 then some ((-1, result.2.1), stream', r'.2)
      else if size = 0 then none
      else some ((result.1 / size, result.2.1), stream', r'.2)
    else none

/-- the value is computed from the first `lseek64` even where it failed -/
def mmGetFdSizeFile (f : DiskFile) (pos : Nat) (stream : FdStreamInfo) : Int × FdStreamInfo × Nat :=
  let fdSize := lseek64 f pos 0 SEEK_END
  let seekResult := lseek64 f fdSize.2 stream.cur_offset SEEK_SET
  (fdSize.1 - stream.offset, stream, seekResult.2)

/-- the branch of `MEDIA_SOURCETYPE_FD`: the window starts at `offset` -/
def createInstreamHandleFile (f : DiskFile) (pos : Nat) (offset : Int) : FdStreamInfo × Nat :=
  (mmSeekFdFile f pos ⟨offset, offset⟩ 0 SEEK_SET).2

/-- one whole operation on an input stream -/
inductive FdOp where
  | seek (offset whence : Int)
  | read (size nmemb : Nat)
  | tell
  | getSize
deriving DecidableEq, Repr

/-- a read has elements of at least one byte -/
def FdOp.Valid : FdOp → Prop
  | .read size _ => 1 ≤ size
  | _ => True

/-- A read whose seek succeeds ends at a position that is, as an `int`, not in front of the window:
what the OS gives it from `p` on does not take it so far. -/
def FdOp.EndsInside (f : DiskFile) (stream : FdStreamInfo) : FdOp → Prop
  | .read size nmemb => ∀ p : Nat, stream.cur_offset = p → p ≤ f.maxOffset → toInt p ≠ -1 →
      stream.offset ≤ toInt (f.read p (readRequest size nmemb)).2.2
  | _ => True

/-- the value of the operation with the bytes it read -/
def FdOp.exec (f : DiskFile) (pos : Nat) (stream : FdStreamInfo) :
    FdOp → Option ((Int × Bytes) × FdStreamInfo × Nat)
  | .seek offset whence =>
    let r := mmSeekFdFile f pos stream offset whence
    some ((r.1, []), r.2)
  | .read size nmemb => mmReadFdFile f pos stream size nmemb
  | .tell => some ((mmTellFdFile stream, []), stream, pos)
  | .getSize =>
    let r := mmGetFdSizeFile f pos stream
    some ((r.1, []), r.2)

/-- a seek that somebody else makes on the descriptor -/
def otherLseek (f : DiskFile) (pos : Nat) (e : Int × Int) : Nat := (lseek64 f pos e.1 e.2).2

theorem toInt_le (p : Nat) : toInt p ≤ p := by
  have hdef := Int.bmod_def (p : Int) (2 ^ 32)
  unfold toInt
  rw [hdef]
  split <;> omega

section
variable (f : DiskFile)

/-- from whence `SEEK_CUR` apart, no seek asks where the shared offset stands -/
lemma target_absolute {whence : Int} (h : whence ≠ SEEK_CUR) (pos pos' : Nat) (offset : Int) :
    f.target pos offset whence = f.target pos' offset whence := by
  unfold DiskFile.target
  rw [if_neg h, if_neg h]

lemma lseek64_some {pos p : Nat} {offset whence : Int} (h : f.target pos offset whence = some p) :
    lseek64 f pos offset whence = (toInt p, p) := by
  unfold lseek64
  rw [h]

lemma lseek64_none {pos : Nat} {offset whence : Int} (h : f.target pos offset whence = none) :
    lseek64 f pos offset whence = (-1, pos) := by
  unfold lseek64
  rw [h]

/-- the two cases of an absolute seek: it takes the shared offset to a place of its own, or it
fails -/
lemma lseek64_absolute {whence : Int} (h : whence ≠ SEEK_CUR) (offset : Int) :
    (∃ p : Nat, ∀ pos, lseek64 f pos offset whence = (toInt p, p)) ∨
      ∀ pos, lseek64 f pos offset whence = (-1, pos) := by
  cases ht : f.target 0 offset whence with
  | some p =>
    exact Or.inl ⟨p, fun pos => lseek64_some f ((target_absolute f h pos 0 offset).trans ht)⟩
  | none => exact Or.inr fun pos => lseek64_none f ((target_absolute f h pos 0 offset).trans ht)

lemma seek_set_ne_cur : SEEK_SET ≠ SEEK_CUR := by decide

/-- `SEEK_SET` goes where it is told to, which is a place that the file can have -/
lemma lseek64_set (offset : Int) :
    (∃ p : Nat, offset = p ∧ p ≤ f.maxOffset ∧
      ∀ pos, lseek64 f pos offset SEEK_SET = (toInt p, p)) ∨
      (¬ (0 ≤ offset ∧ offset ≤ f.maxOffset) ∧
        ∀ pos, lseek64 f pos offset SEEK_SET = (-1, pos)) := by
  by_cases hc : 0 ≤ offset ∧ offset ≤ f.maxOffset
  · refine Or.inl ⟨offset.toNat, by omega, by omega, fun pos => lseek64_some f ?_⟩
    unfold DiskFile.target DiskFile.position
    rw [if_pos rfl, if_pos hc]
  · refine Or.inr ⟨hc, fun pos => lseek64_none f ?_⟩
    unfold DiskFile.target DiskFile.position
    rw [if_pos rfl, if_neg hc]

/-- `lseek64(fd, 0, SEEK_CUR)` reads the shared offset -/
lemma lseek64_here {pos : Nat} (h : pos ≤ f.maxOffset) :
    lseek64 f pos 0 SEEK_CUR = (toInt pos, pos) := by
  refine lseek64_some f ?_
  unfold DiskFile.target DiskFile.position
  rw [if_neg seek_set_ne_cur.symm, if_pos rfl, add_zero, if_pos (by omega), Int.toNat_natCast]

lemma read_le {pos : Nat} (n : Nat) (h : pos ≤ f.maxOffset) :
    pos ≤ (f.read pos n).2.2 ∧ (f.read pos n).2.2 ≤ f.maxOffset := by
  have hlen := f.length_le
  unfold DiskFile.read
  cases hk : f.readCount pos n with
  | some k =>
    have hle := f.readCount_le pos n k hk
    dsimp only
    omega
  | none => exact ⟨le_refl _, h⟩

end

/-- what every operation keeps of a stream: its window, and a position inside it -/
structure InWindow (start : Int) (stream : FdStreamInfo) : Prop where
  offset_eq : stream.offset = start
  start_le : start ≤ stream.cur_offset

section
variable (f : DiskFile) {start : Int} {stream : FdStreamInfo}

lemma sought_kept (h : InWindow start stream) (seekResult : Int × Nat) :
    InWindow start (stream.sought seekResult).2.1 := by
  have hoff := h.offset_eq
  unfold FdStreamInfo.sought
  split
  · exact h
  · refine ⟨hoff, ?_⟩
    dsimp only
    split <;> omega

/-- an absolute seek ends the same way wherever the shared offset stands -/
lemma sought_absolute (h : InWindow start stream) {whence : Int} (hw : whence ≠ SEEK_CUR)
    (offset : Int) :
    ∃ r stream', InWindow start stream' ∧
      ∀ pos, ∃ pos', stream.sought (lseek64 f pos offset whence) = (r, stream', pos') := by
  rcases lseek64_absolute f hw offset with ⟨p, hp⟩ | hp
  · have hkept := sought_kept h (toInt p, p)
    rcases hs : stream.sought (toInt p, p) with ⟨r, stream', q⟩
    rw [hs] at hkept
    exact ⟨r, stream', hkept, fun pos => ⟨q, by rw [hp pos, hs]⟩⟩
  · refine ⟨-1, stream, h, fun pos => ⟨pos, ?_⟩⟩
    rw [hp pos]
    exact if_pos rfl

lemma mmSeekFdFile_isolated (h : InWindow start stream) (offset whence : Int) :
    ∃ r stream', InWindow start stream' ∧
      ∀ pos, ∃ pos', mmSeekFdFile f pos stream offset whence = (r, stream', pos') := by
  by_cases hset : whence = SEEK_SET
  · subst hset
    obtain ⟨r, stream', hkept, hs⟩ := sought_absolute f h seek_set_ne_cur (offset + stream.offset)
    refine ⟨r, stream', hkept, fun pos => ?_⟩
    unfold mmSeekFdFile
    rw [if_pos rfl]
    exact hs pos
  by_cases hcur : whence = SEEK_CUR
  · subst hcur
    -- the first seek goes to the private position; the relative one starts from there
    rcases lseek64_set f stream.cur_offset with ⟨p, -, -, hp⟩ | ⟨-, hp⟩
    · by_cases hfail : toInt p = -1
      · refine ⟨-1, stream, h, fun pos => ⟨p, ?_⟩⟩
        unfold mmSeekFdFile
        rw [if_neg hset, if_pos rfl, hp pos]
        dsimp only
        rw [if_pos hfail]
      · refine ⟨(stream.sought (lseek64 f p offset SEEK_CUR)).1,
          (stream.sought (lseek64 f p offset SEEK_CUR)).2.1, sought_kept h _,
          fun pos => ⟨(stream.sought (lseek64 f p offset SEEK_CUR)).2.2, ?_⟩⟩
        unfold mmSeekFdFile
        rw [if_neg hset, if_pos rfl, hp pos]
        dsimp only
        rw [if_neg hfail]
    · refine ⟨-1, stream, h, fun pos => ⟨pos, ?_⟩⟩
      unfold mmSeekFdFile
      rw [if_neg hset, if_pos rfl, hp pos]
      exact if_pos rfl
  · obtain ⟨r, stream', hkept, hs⟩ := sought_absolute f h hcur offset
    refine ⟨r, stream', hkept, fun pos => ?_⟩
    unfold mmSeekFdFile
    rw [if_neg hset, if_neg hcur]
    exact hs pos

/-- the read from a position that the file can have -/
lemma mmReadFdFile_at {p : Nat} (hp : stream.cur_offset = p) (hmax : p ≤ f.maxOffset)
    (hseek : toInt p ≠ -1) {size nmemb : Nat} (hsize : 1 ≤ size) {v : Int} {b : Bytes} {q : Nat}
    (hread : f.read p (readRequest size nmemb) = (v, b, q)) (hq : q ≤ f.maxOffset) (pos : Nat) :
    mmReadFdFile f pos stream size nmemb
      = if stream.offset ≤ toInt q then
          some ((if v = -1 then -1 else v / size, b), { stream with cur_offset := toInt q }, q)
        else none := by
  have hset : lseek64 f pos stream.cur_offset SEEK_SET = (toInt p, p) := by
    refine lseek64_some f ?_
    unfold DiskFile.target DiskFile.position
    rw [if_pos rfl, hp, if_pos ⟨Int.natCast_nonneg p, Int.ofNat_le.mpr hmax⟩, Int.toNat_natCast]
  unfold mmReadFdFile
  simp only [hset, if_neg hseek, hread, lseek64_here f hq, if_neg (show ¬ size = 0 by omega)]
  split_ifs <;> rfl

/-- The read starts at the private position, and the shared offset goes where the OS takes it from
there.  What is left of that in an `int` decides the assertion. -/
lemma mmReadFdFile_isolated (h : InWindow start stream) {size nmemb : Nat} (hsize : 1 ≤ size) :
    (FdOp.EndsInside f stream (.read size nmemb) → ∃ r stream', InWindow start stream' ∧
        ∀ pos, ∃ pos', mmReadFdFile f pos stream size nmemb = some (r, stream', pos')) ∧
      (¬ FdOp.EndsInside f stream (.read size nmemb) →
        ∀ pos, mmReadFdFile f pos stream size nmemb = none) := by
  have hrefused : (∀ pos, ∃ pos', lseek64 f pos stream.cur_offset SEEK_SET = (-1, pos')) →
      ∃ r stream', InWindow start stream' ∧
        ∀ pos, ∃ pos', mmReadFdFile f pos stream size nmemb = some (r, stream', pos') := by
    intro hp
    refine ⟨(-1, []), stream, h, fun pos => ?_⟩
    obtain ⟨pos', hpos'⟩ := hp pos
    refine ⟨pos', ?_⟩
    unfold mmReadFdFile
    rw [hpos']
    exact if_pos rfl
  rcases lseek64_set f stream.cur_offset with ⟨p, hpc, hpmax, hp⟩ | ⟨hno, hp⟩
  · by_cases hseek : toInt p = -1
    · refine ⟨fun _ => hrefused fun pos => ⟨p, by rw [hp pos, hseek]⟩, fun hends => absurd ?_ hends⟩
      intro q hq _ hne
      obtain rfl : p = q := by omega
      exact absurd hseek hne
    · obtain ⟨-, hmax⟩ := read_le f (readRequest size nmemb) hpmax
      rcases hread : f.read p (readRequest size nmemb) with ⟨v, b, q⟩
      rw [hread] at hmax
      have hrun := mmReadFdFile_at f hpc hpmax hseek hsize hread hmax
      constructor
      · intro hends
        have hassert := hends p hpc hpmax hseek
        rw [hread] at hassert
        dsimp only at hassert
        have hkept : InWindow start { stream with cur_offset := toInt q } := by
          refine ⟨h.offset_eq, ?_⟩
          dsimp only
          rwa [← h.offset_eq]
        exact ⟨_, _, hkept, fun pos => ⟨_, (hrun pos).trans (if_pos hassert)⟩⟩
      · intro hends pos
        refine (hrun pos).trans (if_neg fun hassert => hends fun p' hp' _ _ => ?_)
        obtain rfl : p = p' := by omega
        rwa [hread]
  · refine ⟨fun _ => hrefused fun pos => ⟨pos, hp pos⟩, fun hends => absurd ?_ hends⟩
    intro q hq hle _
    exact absurd ⟨by omega, by omega⟩ hno

lemma mmGetFdSizeFile_isolated (stream : FdStreamInfo) :
    ∃ r, ∀ pos, ∃ pos', mmGetFdSizeFile f pos stream = (r, stream, pos') := by
  rcases lseek64_absolute f (show SEEK_END ≠ SEEK_CUR by decide) 0 with ⟨p, hp⟩ | hp
  · refine ⟨toInt p - stream.offset, fun pos => ⟨(lseek64 f p stream.cur_offset SEEK_SET).2, ?_⟩⟩
    unfold mmGetFdSizeFile
    rw [hp pos]
  · refine ⟨-1 - stream.offset, fun pos => ⟨(lseek64 f pos stream.cur_offset SEEK_SET).2, ?_⟩⟩
    unfold mmGetFdSizeFile
    rw [hp pos]

/-- no operation depends on where the shared offset stands, and none that returns leaves the
window -/
theorem exec_isolated (start : Int) (op : FdOp) (hvalid : op.Valid) :
    Steps.Isolated (FdOp.exec f) (InWindow start) (FdOp.EndsInside f) op := by
  cases op with
  | seek offset whence =>
    refine ⟨fun stream h _ => ?_, fun stream _ hends => absurd trivial hends⟩
    obtain ⟨r, stream', h', hrun⟩ := mmSeekFdFile_isolated f h offset whence
    refine ⟨(r, []), stream', h', fun pos => ?_⟩
    obtain ⟨pos', hpos⟩ := hrun pos
    refine ⟨pos', ?_⟩
    simp only [FdOp.exec, hpos]
  | read size nmemb =>
    exact ⟨fun stream h => (mmReadFdFile_isolated f h hvalid).1,
      fun stream h => (mmReadFdFile_isolated f h hvalid).2⟩
  | tell =>
    exact ⟨fun stream h _ => ⟨(mmTellFdFile stream, []), stream, h, fun pos => ⟨pos, rfl⟩⟩,
      fun stream _ hends => absurd trivial hends⟩
  | getSize =>
    refine ⟨fun stream h _ => ?_, fun stream _ hends => absurd trivial hends⟩
    obtain ⟨r, hrun⟩ := mmGetFdSizeFile_isolated f stream
    refine ⟨(r, []), stream, h, fun pos => ?_⟩
    obtain ⟨pos', hpos⟩ := hrun pos
    refine ⟨pos', ?_⟩
    simp only [FdOp.exec, hpos]

/-- a new stream stands at the start of its window, wherever the shared offset stood -/
lemma createInstreamHandleFile_fst (pos : Nat) (offset : Int) :
    (createInstreamHandleFile f pos offset).1 = ⟨offset, offset⟩ := by
  unfold createInstreamHandleFile mmSeekFdFile FdStreamInfo.sought
  rw [if_pos rfl, zero_add]
  rcases lseek64_set f offset with ⟨p, hpo, -, hp⟩ | ⟨-, hp⟩
  · have hle := toInt_le p
    rw [hp pos]
    dsimp only
    split_ifs with hfail hlt
    · rfl
    · rfl
    · rw [show toInt p = offset by omega]
  · rw [hp pos, if_pos rfl]

end

/-- Streams created from one descriptor, each with the start of its own window, and any interleaving
of their operations with each other and with seeks of others on the descriptor: every operation
returns, no position falls below the start of its window, and each stream has the results and the
position that it gets from its own operations alone, wherever the shared offset stands at its
creation, if and only if each read of the run ends inside the window, by the `int` of its position.
A part of an interleaving from its start on is one too, so that this holds after every operation. -/
theorem streams_isolated {ι : Type} [DecidableEq ι] (f : DiskFile) (start : ι → Int) (pos : Nat)
    (created : ι → Nat) (acts : List (Steps.Act ι FdOp (Int × Int)))
    (hvalid : ∀ i op, Steps.Act.own i op ∈ acts → op.Valid) :
    (∃ out streams pos',
      Steps.runShared (FdOp.exec f) (otherLseek f) pos
        (fun i => (createInstreamHandleFile f (created i) (start i)).1) acts
          = some (out, streams, pos') ∧
      (∀ i, start i ≤ (streams i).cur_offset) ∧
      ∀ i p, ∃ p', Steps.runAlone (FdOp.exec f) (createInstreamHandleFile f p (start i)).2
        (createInstreamHandleFile f p (start i)).1 (Steps.opsOf i acts) =
          some (Steps.resultsOf i out, streams i, p')) ↔
      Steps.Throughout (FdOp.exec f) (otherLseek f) (FdOp.EndsInside f) pos
        (fun i => (createInstreamHandleFile f (created i) (start i)).1) acts := by
  have hnew : ∀ i q, (createInstreamHandleFile f q (start i)).1 = ⟨start i, start i⟩ := fun i q =>
    createInstreamHandleFile_fst f q (start i)
  have hiso : ∀ i op, Steps.Act.own i op ∈ acts →
      Steps.Isolated (FdOp.exec f) (InWindow (start i)) (FdOp.EndsInside f) op :=
    fun i op hop => exec_isolated f (start i) op (hvalid i op hop)
  have hstart : ∀ i, InWindow (start i) (createInstreamHandleFile f (created i) (start i)).1 := by
    intro i
    rw [hnew]
    exact ⟨rfl, le_refl _⟩
  constructor
  · rintro ⟨out, streams, pos', hrun, -⟩
    exact Steps.throughout_of_run hiso hstart (Option.isSome_of_eq_some hrun)
  · intro hok
    obtain ⟨out, streams, pos', hrun, hwin, halone⟩ := Steps.run_isolated hiso hstart hok
    refine ⟨out, streams, pos', hrun, fun i => (hwin i).start_le, fun i p => ?_⟩
    obtain ⟨p', hp'⟩ := halone i (createInstreamHandleFile f p (start i)).2
    refine ⟨p', ?_⟩
    rw [hnew i p, ← hnew i (created i)]
    exact hp'

/-- twelve bytes without a hole, on a file system of 16 TiB files; a read gives what there is -/
def twelveBytes : DiskFile where
  contents := [0, 1, 2, 3, 4, 5, 6, 7, 8, 9, 10, 11]
  maxOffset := 2 ^ 44 - 4096
  length_le := by decide
  maxOffset_le := by decide
  otherSeek whence offset :=
    if 0 ≤ offset ∧ offset < 12 then
      if whence = 3 then some offset.toNat else if whence = 4 then some 12 else none
    else none
  readCount p n := some (min n (12 - p))
  readCount_le p n k h := by
    cases h
    simp only [List.length_cons, List.length_nil]
    omega

/-- one stream seeks and reads between the seeks of the other and of somebody else -/
def twoStreams : List (Steps.Act Bool FdOp (Int × Int)) :=
  [.own true (.seek 2 SEEK_SET), .own false (.read 1 3), .others (9, SEEK_SET),
    .own true (.read 2 2), .own false .getSize, .own true (.seek (-1) SEEK_CUR), .own false .tell,
    .own true (.seek (-11) SEEK_END)]

def twoStarts (i : Bool) : Int := if i then 4 else 0

theorem streams_isolated_two : ∃ out streams pos',
    Steps.runShared (FdOp.exec twelveBytes) (otherLseek twelveBytes) 7
      (fun i => (createInstreamHandleFile twelveBytes 0 (twoStarts i)).1) twoStreams
        = some (out, streams, pos') ∧
    (∀ i, twoStarts i ≤ (streams i).cur_offset) ∧
    ∀ i p, ∃ p', Steps.runAlone (FdOp.exec twelveBytes)
      (createInstreamHandleFile twelveBytes p (twoStarts i)).2
      (createInstreamHandleFile twelveBytes p (twoStarts i)).1 (Steps.opsOf i twoStreams) =
        some (Steps.resultsOf i out, streams i, p') := by
  have hvalid : ∀ i op, Steps.Act.own i op ∈ twoStreams → op.Valid := by
    intro i op h
    simp only [twoStreams, List.mem_cons, Steps.Act.own.injEq, List.not_mem_nil, or_false,
      reduceCtorEq, false_or] at h
    rcases h with ⟨-, rfl⟩ | ⟨-, rfl⟩ | ⟨-, rfl⟩ | ⟨-, rfl⟩ | ⟨-, rfl⟩ | ⟨-, rfl⟩ | ⟨-, rfl⟩
      <;> simp [FdOp.Valid]
  refine (streams_isolated twelveBytes twoStarts 7 (fun _ => 0) twoStreams hvalid).mpr ?_
  refine Steps.throughout_of_run
    (fun i op h => exec_isolated twelveBytes (twoStarts i) op (hvalid i op h)) (fun i => ?_)
    (by decide)
  rw [createInstreamHandleFile_fst]
  exact ⟨rfl, le_refl _⟩

/-- a window that starts at `2^31`, and one read -/
theorem streams_narrowed :
    Steps.runShared (FdOp.exec twelveBytes) (otherLseek twelveBytes) 0
      (fun _ => (createInstreamHandleFile twelveBytes 0 (2 ^ 31)).1)
      ([.own true (.read 1 1)] : List (Steps.Act Bool FdOp (Int × Int))) = none := by
  decide

end Pluto

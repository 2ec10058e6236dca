import Pluto.Bytes.Octets

/-!
# `mm_stream_file`: an output stream over a `FILE *`

`MmStreamInfo` is `mm_stream_info_t` as an output stream uses it: the `FILE` behind `fp`, the
write-error state that `file_cache_write` keeps in it, and the registered callback with the number
of its calls.  A `FILE` is the file of its descriptor and a buffer: `fwrite` leaves bytes in the
buffer, and libc decides when they go to the descriptor.  Neither that (`stdio`) nor what the file
system answers to a write (`env k` for the `k`-th call) is decided here.

* `MmStreamInfo.contents`, `MmStreamInfo.pos`   the file as `fp` shows it, and `ftello`;
* `mmWriteStreamFile`, `mmSeekStreamFile`, `mmTellStreamFile`, `mmTruncateStreamFile`
  the functions of the source;
* `AlwaysFull`   a stream whose writes all succeed in full;
* `mmTruncateStreamFile_contents`   what a truncate leaves, with the bytes that are still held.
-/

namespace Pluto
open Octets

/-- `EIO` of `errno.h` -/
def EIO : Int := 5

/-- the largest `int64_t`: no seek goes further -/
def int64Max : Int := 2 ^ 63 - 1

/-- `SEEK_SET`, `SEEK_CUR`, `SEEK_END` -/
inductive Whence where
  | seekSet
  | seekCur
  | seekEnd
deriving DecidableEq, Repr

/-- what the file system does with one `write`: all bytes, fewer bytes, or `-1`; the last two
leave a value in `errno` -/
inductive WriteOutcome where
  | full
  | short (accepted : Nat) (errno : Int)
  | error (errno : Int)
deriving DecidableEq, Repr

/-- what libc was asked to do with one `FILE` -/
inductive FpCall where
  | fwrite (nmemb : Nat)
  | fseeko (offset : Int) (whence : Whence)
deriving DecidableEq, Repr

structure MmStreamInfo where
  /-- the file behind `fileno(fp)`, and the offset there -/
  file : Bytes
  fdPos : Nat
  /-- the bytes of `fwrite` that libc has not written yet -/
  held : Bytes
  /-- how many bytes libc holds back after the calls so far, the last one first -/
  stdio : List FpCall → Nat
  calls : List FpCall
  mWriteErrCnt : Int
  mWriteErrNO : Int
  /-- `mCB.cb != NULL && mCB.pComp != NULL` -/
  mCB : Bool
  cbCalls : Nat
  env : Nat → WriteOutcome
  writes : Nat

/-- the fields `memset` and `fopen` leave in a new output stream over an existing file -/
def createOutstreamHandleFile (contents : Bytes) (env : Nat → WriteOutcome)
    (stdio : List FpCall → Nat) : MmStreamInfo where
  file := contents
  fdPos := 0
  held := []
  stdio := stdio
  calls := []
  mWriteErrCnt := 0
  mWriteErrNO := 0
  mCB := false
  cbCalls := 0
  env := env
  writes := 0

/-- the held bytes and the free room of a fully buffered `FILE` with `size` bytes, after these
calls: the room is there from the first write on, and a write that does not fit sends all whole
blocks -/
def fullBuffer (size : Nat) : List FpCall → Nat × Nat
  | [] => (0, 0)
  | .fseeko _ _ :: _ => (0, 0)
  | .fwrite nmemb :: before =>
    let (held, room) := fullBuffer size before
    if nmemb ≤ room then (held + nmemb, room - nmemb)
    else ((nmemb - room) % size, size - (nmemb - room) % size)

/-- a `FILE` as libc opens it for a file -/
def fullyBuffered (size : Nat) (calls : List FpCall) : Nat := (fullBuffer size calls).1

/-- the file as `fp` shows it, and as `fclose` leaves it -/
def MmStreamInfo.contents (s : MmStreamInfo) : Bytes := overlay s.file s.fdPos s.held

/-- `ftello` -/
def MmStreamInfo.pos (s : MmStreamInfo) : Nat := s.fdPos + s.held.length

/-- a call that puts `b` into the buffer: libc writes the front of it, as far as it likes -/
def MmStreamInfo.fpCall (s : MmStreamInfo) (call : FpCall) (b : Bytes) : MmStreamInfo :=
  let buffer := s.held ++ b
  let out := buffer.length - s.stdio (call :: s.calls)
  { s with
    file := overlay s.file s.fdPos (buffer.take out)
    fdPos := s.fdPos + out
    held := buffer.drop out
    calls := call :: s.calls }

/-- `fwrite(ptr, 1, nmemb, fp)`: the value returned, `errno`, the stream after -/
def mmWriteStreamFile (s : MmStreamInfo) (buffer : Bytes) : Int × Int × MmStreamInfo :=
  let s' := { s with writes := s.writes + 1 }
  let call := FpCall.fwrite buffer.length
  match s.env s.writes with
  | .full => (buffer.length, 0, s'.fpCall call buffer)
  | .short n e => ((buffer.take n).length, e, s'.fpCall call (buffer.take n))
  | .error e => (-1, e, s'.fpCall call [])

/-- where a seek would go -/
def MmStreamInfo.target (s : MmStreamInfo) (offset : Int) : Whence → Int
  | .seekSet => offset
  | .seekCur => s.pos + offset
  | .seekEnd => s.contents.length + offset

/-- `fseeko`: one that succeeds has written what was held -/
def mmSeekStreamFile (s : MmStreamInfo) (offset : Int) (whence : Whence) : Int × MmStreamInfo :=
  let t := s.target offset whence
  let call := FpCall.fseeko offset whence
  if 0 ≤ t ∧ t ≤ int64Max then
    (0, { s with file := s.contents, fdPos := t.toNat, held := [], calls := call :: s.calls })
  else (-1, s.fpCall call [])

/-- `ftello` -/
def mmTellStreamFile (s : MmStreamInfo) : Int := s.pos

/-- `ftruncate(fileno(fp), length)`: the file of the descriptor is cut or padded with zeros; the
position and the buffer of `fp` stay -/
def mmTruncateStreamFile (s : MmStreamInfo) (length : Int) : Int × MmStreamInfo :=
  if 0 ≤ length then (0, { s with file := resized s.file length.toNat }) else (-1, s)

/-- every write succeeds in full, now and later, and none has failed before -/
def MmStreamInfo.AlwaysFull (s : MmStreamInfo) : Prop :=
  s.mWriteErrNO ≠ EIO ∧ ∀ k, s.env k = .full

/-- a new file on a disk with room -/
def newFile : MmStreamInfo := createOutstreamHandleFile [] (fun _ => .full) (fullyBuffered 4096)

theorem newFile_full : newFile.AlwaysFull := ⟨by decide, fun _ => rfl⟩

section
variable (s : MmStreamInfo)

@[simp] theorem fpCall_contents (call : FpCall) (b : Bytes) :
    (s.fpCall call b).contents = overlay s.contents s.pos b := by
  rw [MmStreamInfo.contents, MmStreamInfo.fpCall]
  dsimp only
  generalize hout : (s.held ++ b).length - s.stdio (call :: s.calls) = out
  have hle : ((s.held ++ b).take out).length = out := List.length_take_of_le (by omega)
  have hcat := overlay_append s.file ((s.held ++ b).take out) ((s.held ++ b).drop out) s.fdPos
  rw [hle, List.take_append_drop] at hcat
  rw [hcat]
  exact (overlay_append s.file s.held b s.fdPos).symm

@[simp] theorem fpCall_pos (call : FpCall) (b : Bytes) :
    (s.fpCall call b).pos = s.pos + b.length := by
  rw [MmStreamInfo.pos, MmStreamInfo.pos, MmStreamInfo.fpCall]
  dsimp only
  rw [List.length_drop, List.length_append]
  omega

@[simp] theorem fpCall_env (call : FpCall) (b : Bytes) : (s.fpCall call b).env = s.env := rfl
@[simp] theorem fpCall_writes (call : FpCall) (b : Bytes) : (s.fpCall call b).writes = s.writes :=
  rfl
@[simp] theorem fpCall_cbCalls (call : FpCall) (b : Bytes) :
    (s.fpCall call b).cbCalls = s.cbCalls := rfl

theorem fpCall_held (call : FpCall) (b : Bytes) :
    (s.fpCall call b).held.length = min (s.stdio (call :: s.calls)) (s.held.length + b.length) := by
  rw [MmStreamInfo.fpCall]
  dsimp only
  rw [List.length_drop, List.length_append]
  omega

theorem mmWriteStreamFile_full (h : s.AlwaysFull) (b : Bytes) :
    mmWriteStreamFile s b = ((b.length : Int), 0,
      { s with writes := s.writes + 1 }.fpCall (.fwrite b.length) b) := by
  unfold mmWriteStreamFile
  rw [h.2 s.writes]

/-- a seek shows no other file, and a failed one no other position -/
theorem mmSeekStreamFile_eq (offset : Int) (w : Whence) :
    (mmSeekStreamFile s offset w).2.contents = s.contents ∧
      (mmSeekStreamFile s offset w).1 =
        (if 0 ≤ s.target offset w ∧ s.target offset w ≤ int64Max then 0 else -1) ∧
      (mmSeekStreamFile s offset w).2.pos =
        (if 0 ≤ s.target offset w ∧ s.target offset w ≤ int64Max then (s.target offset w).toNat
        else s.pos) := by
  unfold mmSeekStreamFile
  dsimp only
  split_ifs
  · exact ⟨overlay_nil _ _, rfl, rfl⟩
  · exact ⟨(fpCall_contents s _ []).trans (overlay_nil _ _), rfl, fpCall_pos s _ []⟩

theorem mmSeekStreamFile_congr (t : MmStreamInfo) (hc : s.contents = t.contents)
    (hp : s.pos = t.pos) (offset : Int) (w : Whence) :
    (mmSeekStreamFile s offset w).1 = (mmSeekStreamFile t offset w).1 ∧
      (mmSeekStreamFile s offset w).2.pos = (mmSeekStreamFile t offset w).2.pos ∧
      (mmSeekStreamFile s offset w).2.contents = (mmSeekStreamFile t offset w).2.contents := by
  have ht : s.target offset w = t.target offset w := by
    cases w <;> simp [MmStreamInfo.target, hc, hp]
  obtain ⟨hsc, hsr, hsp⟩ := mmSeekStreamFile_eq s offset w
  obtain ⟨htc, htr, htp⟩ := mmSeekStreamFile_eq t offset w
  rw [hsc, hsr, hsp, htc, htr, htp, ht, hc, hp]
  exact ⟨rfl, rfl, rfl⟩

/-! ## truncates -/

/-- the bytes that are held come back behind the cut -/
theorem mmTruncateStreamFile_contents {length : Int} (h : 0 ≤ length) :
    (mmTruncateStreamFile s length).2.contents
      = overlay (resized s.contents length.toNat) s.fdPos s.held := by
  rw [mmTruncateStreamFile, if_pos h]
  exact (overlay_resized s.file s.held s.fdPos length.toNat).symm

theorem mmTruncateStreamFile_pos (length : Int) :
    (mmTruncateStreamFile s length).2.pos = s.pos := by
  unfold mmTruncateStreamFile
  split <;> rfl

end

end Pluto

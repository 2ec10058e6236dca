import Pluto.Cache.Simple

/-!
# `muxer_writer.h`: what a muxer is given

A packet names its payload by two addresses of the caller's memory, `data0` and `data1`.  What a
muxer passes to `cache_write` is kept as `CacheWrite`: where the bytes are read and the length as
the code computed it, which may be negative.

* `read`       the bytes of the memory from an address on;
* `AVPacket.seg0`, `seg1`, `payload`  what a packet holds;
* `emitted`    the bytes of a list of writes;
* `CacheWrite.reads`  the addresses of the caller's memory that a write reads.
-/

namespace Pluto
open Octets

/-- the memory of the caller during a call -/
abbrev Mem := Int → UInt8

def read (m : Mem) (a : Int) (n : Nat) : Bytes := (List.range n).map fun i : Nat => m (a + i)

@[simp] theorem read_length (m : Mem) (a : Int) (n : Nat) :
    (read m a n).length = n := by simp [read]

theorem read_add (m : Mem) (a : Int) (n k : Nat) :
    read m a (n + k) = read m a n ++ read m (a + n) k := by
  simp only [read, List.range_add, List.map_append, List.map_map]
  congr 1
  apply List.map_congr_left
  intro i _
  show m (a + (n + i : Nat)) = m (a + n + i)
  congr 1
  push_cast
  ring

theorem slice_read (m : Mem) (a : Int) (n p k : Nat) (h : p + k ≤ n) :
    slice (read m a n) p k = read m (a + p) k := by
  obtain ⟨r, rfl⟩ := Nat.exists_eq_add_of_le h
  have hp : (read m a p).length = p := read_length m a p
  rw [read_add, slice_append_left _ _ _ _ (by rw [read_length]), read_add,
    slice_append_right _ _ _ _ hp.le, hp, Nat.sub_self, slice, List.drop_zero,
    List.take_of_length_le (read_length m _ k).le]

/-! ## packets -/

/-- `CODEC_TYPE_VIDEO`, `CODEC_TYPE_AUDIO` -/
inductive CodecType where
  | video
  | audio
deriving DecidableEq, Repr

/-- a `stream_idx` read as a `CODEC_TYPE` -/
def codecType (stream_idx : Int) : Option CodecType :=
  if stream_idx = 0 then some .video else if stream_idx = 1 then some .audio else none

theorem codecType_video {stream_idx : Int} :
    codecType stream_idx = some .video ↔ stream_idx = 0 := by
  by_cases h : stream_idx = 0
  · simp [codecType, h]
  · by_cases h1 : stream_idx = 1 <;> simp [codecType, h1, h]

theorem codecType_audio {stream_idx : Int} :
    codecType stream_idx = some .audio ↔ stream_idx = 1 := by
  by_cases h : stream_idx = 0
  · simp [codecType, h]
  · by_cases h1 : stream_idx = 1 <;> simp [codecType, h1, h]

structure AVPacket where
  pts : Int
  data0 : Int
  size0 : Nat
  data1 : Int
  size1 : Nat
  stream_idx : Int
  flags : Int
  duration : Int
deriving DecidableEq, Repr

def AVPacket.seg0 (pkt : AVPacket) (m : Mem) : Bytes := read m pkt.data0 pkt.size0

def AVPacket.seg1 (pkt : AVPacket) (m : Mem) : Bytes := read m pkt.data1 pkt.size1

def AVPacket.payload (pkt : AVPacket) (m : Mem) : Bytes := pkt.seg0 m ++ pkt.seg1 m

@[simp] theorem AVPacket.payload_length (pkt : AVPacket) (m : Mem) :
    (pkt.payload m).length = pkt.size0 + pkt.size1 := by
  simp [AVPacket.payload, AVPacket.seg0, AVPacket.seg1]

/-! ## writes -/

inductive Source where
  | buffer (b : Bytes)
  | memory (m : Mem) (addr : Int)

/-- one `cache_write`, its length as it is passed -/
structure CacheWrite where
  src : Source
  size : Int

/-- a write of all of a buffer of the muxer -/
def CacheWrite.all (b : Bytes) : CacheWrite := ⟨.buffer b, b.length⟩

def CacheWrite.bytes (w : CacheWrite) : Bytes :=
  match w.src with
  | .buffer b => b.take w.size.toNat
  | .memory m a => read m a w.size.toNat

/-- the write reads this address of the caller's memory -/
def CacheWrite.reads (w : CacheWrite) (x : Int) : Prop :=
  match w.src with
  | .buffer _ => False
  | .memory _ a => a ≤ x ∧ x < a + w.size

def emitted (ws : List CacheWrite) : Bytes := ws.flatMap CacheWrite.bytes

@[simp] theorem CacheWrite.all_bytes (b : Bytes) : (CacheWrite.all b).bytes = b :=
  List.take_of_length_le (by simp [CacheWrite.all])

@[simp] theorem emitted_nil : emitted [] = [] := rfl

@[simp] theorem emitted_cons (w : CacheWrite) (ws : List CacheWrite) :
    emitted (w :: ws) = w.bytes ++ emitted ws := rfl

@[simp] theorem emitted_append (ws vs : List CacheWrite) :
    emitted (ws ++ vs) = emitted ws ++ emitted vs := List.flatMap_append

end Pluto

import Pluto.Bytes.Crc
import Pluto.Bytes.Transport

/-!
# Program tables

A transport stream says itself what it carries: a packet of PID 0 names the PID of the map table,
and the map table the PIDs of the elementary streams.  A table is a section with a checksum.

* `sectionOf`            the section in the payload of a packet, if its checksum is right;
* `patOf`, `pmtOf`       the programs, and the elementary streams, of a section;
* `receive`              what a receiver that knows the format only gets from a stream;
* `receive_stream`       it gets the units of the PIDs of the map table.
-/

namespace Transport
open Octets

/-! ## sections -/

/-- behind the pointer field, as long as its `section_length` says -/
def sectionOf (payload : Bytes) : Option Bytes :=
  let p := 1 + byteAt payload 0
  let s := slice payload p (3 + (byteAt payload (p + 1) % 16 * 256 + byteAt payload (p + 2)))
  if Crc.run 0x04C11DB7#32 0xFFFFFFFF#32 (Crc.bitsOf s) = 0 then some s else none

/-- program numbers and PIDs: four bytes each, between eight bytes in front and the checksum -/
def programsOf (s : Bytes) : List (Nat × Nat) :=
  (List.range ((s.length - 12) / 4)).map fun i =>
    (ofBe (slice s (8 + 4 * i) 2), ofBe (slice s (10 + 4 * i) 2) % 8192)

/-- a program association section -/
def patOf (payload : Bytes) : Option (List (Nat × Nat)) :=
  (sectionOf payload).bind fun s => if byteAt s 0 = 0 then some (programsOf s) else none

/-- stream types and PIDs, with the descriptors behind each left out -/
def streamsFrom : Nat → Bytes → List (Nat × Nat)
  | 0, _ => []
  | fuel + 1, s =>
    if s.length < 5 then []
    else (byteAt s 0, ofBe (slice s 1 2) % 8192)
      :: streamsFrom fuel (s.drop (5 + ofBe (slice s 3 2) % 4096))

/-- a program map section; each entry has bytes of its own, so that its length is enough fuel -/
def pmtOf (payload : Bytes) : Option (List (Nat × Nat)) :=
  (sectionOf payload).bind fun s =>
    if byteAt s 0 = 2 then
      some (streamsFrom s.length ((s.take (s.length - 4)).drop (12 + ofBe (slice s 10 2) % 4096)))
    else none

/-! ## a receiver -/

/-- the payload of the first packet of a PID in which something starts -/
def firstStart (s : Bytes) (pid : Nat) : Option Bytes :=
  ((cut s).find? fun b => startOf b && pidOf b == pid).map payloadOf

/-- stream types, and the units that were received of each stream -/
def receive (s : Bytes) : Option (List (Nat × List Bytes)) :=
  ((firstStart s 0).bind patOf).bind fun programs =>
    programs.head?.bind fun program =>
      ((firstStart s program.2).bind pmtOf).map fun streams => streams.map fun e =>
        (e.1, (elementary e.2 s).2)

theorem cut_stream_cons (cc : Counters) (p : Packet) (ps : List Packet) :
    cut (stream cc (p :: ps)) = p.encode (cc p.pid) :: cut (stream (cc.advance p) ps) := by
  rw [stream_cons, cut_append (p.encode_length _)]

/-- a stream without its first packets -/
theorem stream_drop (cc : Counters) (ps : List Packet) (n : Nat) :
    (stream cc ps).drop (188 * n) = stream (cc.after (ps.take n)) (ps.drop n) := by
  induction n generalizing cc ps with
  | zero => rfl
  | succ n ih =>
    cases ps with
    | nil => rfl
    | cons p ps =>
      have hlen : 188 * (n + 1) = (p.encode (cc p.pid)).length + 188 * n := by
        rw [p.encode_length]
        omega
      rw [stream_cons, hlen, ← List.drop_drop, List.drop_left, ih]
      rfl

/-- a table whose packets all carry the same is found where there is one -/
theorem firstStart_stream (cc : Counters) {ps : List Packet} {pid : Fin 8192} {b : Bytes}
    (hall : ∀ p ∈ ps, p.pid = pid → p.start = true ∧ p.payload = b) :
    firstStart (stream cc ps) pid = if ∃ p ∈ ps, p.pid = pid then some b else none := by
  induction ps generalizing cc with
  | nil =>
    have hnone : ¬ ∃ p ∈ ([] : List Packet), p.pid = pid := by simp
    rw [if_neg hnone, firstStart, stream_nil, cut_nil]
    rfl
  | cons p ps ih =>
    have hrest := ih (cc.advance p) fun q hq => hall q (List.mem_cons_of_mem p hq)
    unfold firstStart at hrest ⊢
    rw [cut_stream_cons]
    by_cases hp : p.pid = pid
    · obtain ⟨hstart, hpayload⟩ := hall p List.mem_cons_self hp
      have hyes : (startOf (p.encode (cc p.pid)) && pidOf (p.encode (cc p.pid)) == (pid : Nat))
          = true := by
        rw [startOf_encode, pidOf_encode, hstart, hp, Bool.true_and, beq_self_eq_true]
      rw [List.find?_cons, hyes, Option.map_some, payloadOf_encode, hpayload,
        if_pos ⟨p, List.mem_cons_self, hp⟩]
    · have hno : (startOf (p.encode (cc p.pid)) && pidOf (p.encode (cc p.pid)) == (pid : Nat))
          = false := by
        rw [pidOf_encode, beq_eq_false_iff_ne.mpr fun he => hp (Fin.ext he), Bool.and_false]
      rw [List.find?_cons, hno, hrest]
      have hiff : (∃ q ∈ p :: ps, q.pid = pid) ↔ ∃ q ∈ ps, q.pid = pid := by
        rw [List.exists_mem_cons_iff]
        exact or_iff_right hp
      simp only [hiff]

/-- **A receiver gets the units of the PIDs of the map table**, if both tables are there. -/
theorem receive_stream (cc : Counters) {ps : List Packet} {pat pmt : Packet} {number : Nat}
    {programs streams : List (Nat × Nat)}
    (hpat : patOf pat.payload = some ((number, (pmt.pid : Nat)) :: programs))
    (hpmt : pmtOf pmt.payload = some streams)
    (hpats : ∀ p ∈ ps, p.pid = 0 → p.start = true ∧ p.payload = pat.payload)
    (hpmts : ∀ p ∈ ps, p.pid = pmt.pid → p.start = true ∧ p.payload = pmt.payload) :
    receive (stream cc ps) = if (∃ p ∈ ps, p.pid = 0) ∧ ∃ p ∈ ps, p.pid = pmt.pid then
        some (streams.map fun e => (e.1, (elementary e.2 (stream cc ps)).2))
      else none := by
  have hfirst := firstStart_stream cc hpats
  have hsecond := firstStart_stream cc hpmts
  have hzero : ((0 : Fin 8192) : Nat) = 0 := rfl
  rw [hzero] at hfirst
  unfold receive
  rw [hfirst]
  by_cases h0 : ∃ p ∈ ps, p.pid = 0
  · rw [if_pos h0, Option.bind_some, hpat, Option.bind_some, List.head?_cons, Option.bind_some,
      hsecond]
    by_cases h1 : ∃ p ∈ ps, p.pid = pmt.pid
    · rw [if_pos h1, if_pos ⟨h0, h1⟩, Option.bind_some, hpmt]
      rfl
    · rw [if_neg h1, if_neg fun h => h1 h.2]
      rfl
  · rw [if_neg h0, if_neg fun h => h0 h.1]
    rfl

end Transport

import Pluto.Mp4.Context

/-!
# The video CSD: start codes, NAL units and the body of `avcC`

The CSD of the video track is either written as it is or, when it starts with the start code
`00 00 00 01`, split into NAL units; of these the last SPS and the last PPS are written.  The size
and the write function split it independently.

* `ffAvcFindStartcode`, `nalUnits`, `ffAvcParseNalUnits`   the splitting;
* `findSets`                     the SPS and the PPS in the buffer of the parser;
* `ffIsomGetAvccSize`, `ffIsomWriteAvcc`   the size of the body, and the body;
* `AvccWritable`                 the records fit the buffer of the parser, and there is an SPS.

The data is at an address that `malloc` returned, a multiple of four.  Every read stays inside the
data (`nalUnits_inside`), and the types are read inside the records (`findSets_records`).
-/

namespace Pluto.Mp4
open Octets Boxes

/-! ## start codes -/

/-- byte `i` of the data -/
def byteAt (s : Bytes) (i : Nat) : UInt8 := s.getD i 0

/-- `p[0] == 0 && p[1] == 0 && p[2] == 1` -/
def isStart (s : Bytes) (p : Nat) : Bool :=
  byteAt s p == 0 && byteAt s (p + 1) == 0 && byteAt s (p + 2) == 1

/-- `*(const uint32_t *)p` -/
def wordAt (s : Bytes) (p : Nat) : UInt32 := UInt32.ofNat (ofBe (slice s p 4).reverse)

/-- the byte loops: `n` positions from `p` on.  `error r` is a `return r`, `ok q` the `p` behind the
loop -/
def scanBytes (s : Bytes) : Nat → Nat → Except Nat Nat
  | 0, p => .ok p
  | n + 1, p => if isStart s p then .error p else scanBytes s n (p + 1)

/-- the body of the loop over words -/
def matchWord (s : Bytes) (p : Nat) : Option Nat :=
  let x := wordAt s p
  if (x - 0x01010101) &&& (~~~x) &&& 0x80808080 ≠ 0 then
    if byteAt s (p + 1) = 0 ∧ byteAt s p = 0 ∧ byteAt s (p + 2) = 1 then some (p - 1)
    else if byteAt s (p + 1) = 0 ∧ byteAt s (p + 2) = 0 ∧ byteAt s (p + 3) = 1 then some p
    else if byteAt s (p + 3) = 0 ∧ byteAt s (p + 2) = 0 ∧ byteAt s (p + 4) = 1 then some (p + 1)
    else if byteAt s (p + 3) = 0 ∧ byteAt s (p + 4) = 0 ∧ byteAt s (p + 5) = 1 then some (p + 2)
    else none
  else none

/-- the loop over words: `n` of them from `p` on -/
def scanWords (s : Bytes) : Nat → Nat → Except Nat Nat
  | 0, p => .ok p
  | n + 1, p =>
    match matchWord s p with
    | some r => .error r
    | none => scanWords s n (p + 4)

/-- `end` is the end of the data in every call -/
def ffAvcFindStartcode (s : Bytes) (p : Nat) : Nat :=
  let a := p + 4 - p % 4
  match scanBytes s (min a (s.length - 3) - p) p with
  | .error r => r
  | .ok p =>
    match scanWords s ((s.length - 6 - p + 3) / 4) p with
    | .error r => r
    | .ok p =>
      match scanBytes s (s.length - 3 - p) p with
      | .error r => r
      | .ok _ => s.length

/-! ## `ff_avc_parse_nal_units` -/

/-- `while (!*(nal_start++))`, with `n` bytes left -/
def skipZeros (s : Bytes) : Nat → Nat → Nat
  | 0, p => p
  | n + 1, p => if byteAt s p = 0 then skipZeros s n (p + 1) else p + 1

/-- the NAL units behind the start code at `nal_start`; a unit takes at least one byte, so as many
rounds as there are bytes are enough (`nalUnits_rounds`) -/
def nalUnits (s : Bytes) : Nat → Nat → List Bytes
  | 0, _ => []
  | n + 1, nal_start =>
    if nal_start < s.length then
      let nal_start := skipZeros s (s.length - nal_start) nal_start
      let nal_end := ffAvcFindStartcode s nal_start
      slice s nal_start (nal_end - nal_start) :: nalUnits s n nal_end
    else []

/-- a NAL unit behind its size -/
def nalRecord (u : Bytes) : Bytes := be 4 u.length ++ u

/-- what is written to the allocated buffer -/
def ffAvcParseNalUnits (s : Bytes) : Bytes :=
  (nalUnits s s.length (ffAvcFindStartcode s 0)).flatMap nalRecord

/-! ## the parameter sets -/

structure Sets where
  sps : Option Nat
  sps_size : Nat
  pps : Option Nat
  pps_size : Nat

/-- the branches on `nal_type`, for the record at offset `off` -/
def Sets.note (r : Sets) (nal_type : UInt8) (off size : Nat) : Sets :=
  if nal_type = 7 then { r with sps := some (off + 4), sps_size := size }
  else if nal_type = 8 then { r with pps := some (off + 4), pps_size := size }
  else r

/-- byte `i` of the buffer; behind the parsed bytes it holds whatever `malloc` returned -/
def bufAt (heap : Nat → UInt8) (buf : Bytes) (i : Nat) : UInt8 := buf.getD i (heap i)

/-- `while (buf < end)`, from offset `off` on; a record takes four bytes or more -/
def findSets (heap : Nat → UInt8) (buf : Bytes) : Nat → Nat → Sets → Sets
  | 0, _, r => r
  | n + 1, off, r =>
    if off < buf.length then
      let size := ofBe (slice buf off 4)
      findSets heap buf n (off + size + 4) (r.note (bufAt heap buf (off + 4) &&& 0x1f) off size)
    else r

def parameterSets (heap : Nat → UInt8) (buf : Bytes) : Sets :=
  findSets heap buf buf.length 0 ⟨none, 0, none, 0⟩

/-- `AV_RB32(data) == 0x00000001` -/
def hasStartCode (data : Bytes) : Prop := ofBe (data.take 4) = 1

instance (data : Bytes) : Decidable (hasStartCode data) := inferInstanceAs (Decidable (_ = _))

def ffIsomGetAvccSize (heap : Nat → UInt8) (data : Bytes) : Nat :=
  if data.length > 6 then
    if hasStartCode data then
      let r := parameterSets heap (ffAvcParseNalUnits data)
      6 + 2 + r.sps_size + 1 + 2 + r.pps_size
    else data.length
  else 0

/-- no result when the records overrun the buffer or `sps` is `NULL` -/
def ffIsomWriteAvcc (heap : Nat → UInt8) (data : Bytes) : Option (List CacheWrite) :=
  if data.length > 6 then
    if hasStartCode data then
      let buf := ffAvcParseNalUnits data
      let r := parameterSets heap buf
      if buf.length ≤ data.length + 256 then
        r.sps.map fun sps =>
          putByte 1 ++ putByte (bufAt heap buf (sps + 1)).toNat
            ++ putByte (bufAt heap buf (sps + 2)).toNat
            ++ putByte (bufAt heap buf (sps + 3)).toNat ++ putByte 0xff ++ putByte 0xe1
            ++ putBe16 r.sps_size ++ putBuffer (slice buf sps r.sps_size)
            ++ putByte 1 ++ putBe16 r.pps_size ++ putBuffer (slice buf (r.pps.getD 0) r.pps_size)
      else none
    else some (putBuffer data)
  else some []

/-- what the write function asks of the CSD -/
def AvccWritable (heap : Nat → UInt8) (data : Bytes) : Prop :=
  data.length > 6 → hasStartCode data →
    (ffAvcParseNalUnits data).length ≤ data.length + 256 ∧
      (parameterSets heap (ffAvcParseNalUnits data)).sps.isSome

instance (heap : Nat → UInt8) (data : Bytes) : Decidable (AvccWritable heap data) :=
  inferInstanceAs (Decidable (_ → _ → _ ∧ _))

/-! ## the search stays inside the data -/

/-- a byte other than zero, not the last one, at `r` or behind it: where the zeros of a start code
end -/
def Marked (s : Bytes) (r : Nat) : Prop := ∃ j, r ≤ j ∧ j + 1 < s.length ∧ byteAt s j ≠ 0

theorem scanBytes_error {s : Bytes} {n p r : Nat} (h : scanBytes s n p = .error r)
    (hn : p + n + 3 ≤ s.length) :
    p ≤ r ∧ r < p + n ∧ Marked s r := by
  induction n generalizing p with
  | zero => cases h
  | succ n ih =>
    rw [scanBytes] at h
    by_cases hs : isStart s p
    · rw [if_pos hs] at h
      have hr : p = r := Except.error.inj h
      unfold isStart at hs
      simp only [Bool.and_eq_true, beq_iff_eq] at hs
      refine ⟨by omega, by omega, p + 2, by omega, by omega, ?_⟩
      rw [hs.2]
      decide
    · rw [if_neg hs] at h
      obtain ⟨h1, h2, h3⟩ := ih h (by omega)
      exact ⟨by omega, by omega, h3⟩

theorem scanBytes_ok {s : Bytes} {n p q : Nat} (h : scanBytes s n p = .ok q) : q = p + n := by
  induction n generalizing p with
  | zero => cases h; rfl
  | succ n ih =>
    rw [scanBytes] at h
    by_cases hs : isStart s p
    · rw [if_pos hs] at h; cases h
    · rw [if_neg hs] at h
      rw [ih h]
      omega

theorem matchWord_some {s : Bytes} {p r : Nat} (h : matchWord s p = some r)
    (hp : p + 6 < s.length) :
    p - 1 ≤ r ∧ r ≤ p + 2 ∧ Marked s r := by
  have one : ∀ {i : Nat}, byteAt s i = 1 → byteAt s i ≠ 0 := fun h => by rw [h]; decide
  unfold matchWord at h
  dsimp only at h
  split at h
  · split at h
    · rename_i hc
      cases h
      exact ⟨le_rfl, by omega, p + 2, by omega, by omega, one hc.2.2⟩
    · split at h
      · rename_i hc
        cases h
        exact ⟨by omega, by omega, p + 3, by omega, by omega, one hc.2.2⟩
      · split at h
        · rename_i hc
          cases h
          exact ⟨by omega, by omega, p + 4, by omega, by omega, one hc.2.2⟩
        · split at h
          · rename_i hc
            cases h
            exact ⟨by omega, by omega, p + 5, by omega, by omega, one hc.2.2⟩
          · cases h
  · cases h

theorem scanWords_error {s : Bytes} {n p r : Nat} (h : scanWords s n p = .error r)
    (hn : p + 4 * n + 2 < s.length) :
    p - 1 ≤ r ∧ r < s.length ∧ Marked s r := by
  induction n generalizing p with
  | zero => cases h
  | succ n ih =>
    rw [scanWords] at h
    cases hm : matchWord s p with
    | some q =>
      rw [hm] at h
      cases h
      obtain ⟨h1, h2, h3⟩ := matchWord_some hm (by omega)
      exact ⟨h1, by omega, h3⟩
    | none =>
      rw [hm] at h
      obtain ⟨h1, h2, h3⟩ := ih h (by omega)
      exact ⟨by omega, h2, h3⟩

theorem scanWords_ok {s : Bytes} {n p q : Nat} (h : scanWords s n p = .ok q) : q = p + 4 * n := by
  induction n generalizing p with
  | zero => cases h; rfl
  | succ n ih =>
    rw [scanWords] at h
    cases hm : matchWord s p with
    | some r => rw [hm] at h; cases h
    | none =>
      rw [hm] at h
      rw [ih h]
      omega

/-- **The search.**  It does not go back; it ends at the end of the data or in front of a start code
with a byte behind it. -/
theorem ffAvcFindStartcode_spec {s : Bytes} {p : Nat} (hp : p ≤ s.length) :
    p ≤ ffAvcFindStartcode s p ∧
      (ffAvcFindStartcode s p = s.length ∨
        ffAvcFindStartcode s p < s.length ∧ Marked s (ffAvcFindStartcode s p)) := by
  have hmod : p % 4 < 4 := Nat.mod_lt p (by decide)
  unfold ffAvcFindStartcode
  dsimp only
  cases h1 : scanBytes s (min (p + 4 - p % 4) (s.length - 3) - p) p with
  | error r =>
    have hn : p + (min (p + 4 - p % 4) (s.length - 3) - p) + 3 ≤ s.length ∨
        min (p + 4 - p % 4) (s.length - 3) - p = 0 := by omega
    rcases hn with hn | hn
    · obtain ⟨a, b, c⟩ := scanBytes_error h1 hn
      exact ⟨a, Or.inr ⟨by dsimp only; omega, c⟩⟩
    · rw [hn] at h1
      cases h1
  | ok q =>
    have hq := scanBytes_ok h1
    dsimp only
    cases h2 : scanWords s ((s.length - 6 - q + 3) / 4) q with
    | error r =>
      by_cases hn : (s.length - 6 - q + 3) / 4 = 0
      · rw [hn] at h2
        cases h2
      · obtain ⟨a, b, c⟩ := scanWords_error h2 (by omega)
        exact ⟨by dsimp only; omega, Or.inr ⟨b, c⟩⟩
    | ok q' =>
      have hq' := scanWords_ok h2
      dsimp only
      cases h3 : scanBytes s (s.length - 3 - q') q' with
      | error r =>
        by_cases hn : s.length - 3 - q' = 0
        · rw [hn] at h3
          cases h3
        · obtain ⟨a, b, c⟩ := scanBytes_error h3 (by omega)
          exact ⟨by dsimp only; omega, Or.inr ⟨by dsimp only; omega, c⟩⟩
      | ok _ => exact ⟨hp, Or.inl rfl⟩

theorem skipZeros_inside {s : Bytes} {n p : Nat} (hn : p + n = s.length) (h : Marked s p) :
    p < skipZeros s n p ∧ skipZeros s n p < s.length := by
  induction n generalizing p with
  | zero =>
    obtain ⟨j, h1, h2, -⟩ := h
    omega
  | succ n ih =>
    obtain ⟨j, h1, h2, h3⟩ := h
    rw [skipZeros]
    by_cases hz : byteAt s p = 0
    · have hj : p ≠ j := fun he => h3 (he ▸ hz)
      obtain ⟨a, b⟩ := ih (p := p + 1) (by omega) ⟨j, by omega, h2, h3⟩
      rw [if_pos hz]
      exact ⟨by omega, b⟩
    · rw [if_neg hz]
      omega

/-- the units of the data behind a position, and how many rounds they take -/
theorem nalUnits_rounds {s : Bytes} {n p : Nat} (hp : p = s.length ∨ p < s.length ∧ Marked s p)
    (hn : s.length ≤ p + n) (k : Nat) : nalUnits s (n + k) p = nalUnits s n p := by
  induction n generalizing p with
  | zero =>
    have hend : ¬ p < s.length := by omega
    have h0 : nalUnits s 0 p = [] := rfl
    rw [h0, Nat.zero_add]
    cases k with
    | zero => rfl
    | succ k => rw [nalUnits, if_neg hend]
  | succ n ih =>
    rw [Nat.succ_add, nalUnits, nalUnits]
    by_cases hlt : p < s.length
    · rw [if_pos hlt, if_pos hlt]
      rcases hp with hp | ⟨-, hm⟩
      · omega
      · obtain ⟨a, b⟩ := skipZeros_inside (n := s.length - p) (by omega) hm
        obtain ⟨c, d⟩ := ffAvcFindStartcode_spec b.le
        dsimp only
        rw [ih d (by omega)]
    · rw [if_neg hlt, if_neg hlt]

/-- the splitting with any search -/
def nalUnitsBy (find : Nat → Nat) (s : Bytes) : Nat → Nat → List Bytes
  | 0, _ => []
  | n + 1, nal_start =>
    if nal_start < s.length then
      let nal_start := skipZeros s (s.length - nal_start) nal_start
      let nal_end := find nal_start
      slice s nal_start (nal_end - nal_start) :: nalUnitsBy find s n nal_end
    else []

theorem nalUnits_by (s : Bytes) (n p : Nat) :
    nalUnits s n p = nalUnitsBy (ffAvcFindStartcode s) s n p := by
  induction n generalizing p with
  | zero => rfl
  | succ n ih => simp only [nalUnits, nalUnitsBy, ih]

/-- a search that does not go back and ends at the end of the data or in front of a start code -/
def Searches (s : Bytes) (find : Nat → Nat) : Prop :=
  ∀ p ≤ s.length, p ≤ find p ∧ (find p = s.length ∨ find p < s.length ∧ Marked s (find p))

section
variable {s : Bytes} {find : Nat → Nat} (hfind : Searches s find)

include hfind

/-- one round: behind the zeros, up to where the search ends -/
theorem nalUnitsBy_round {p : Nat} (hlt : p < s.length)
    (hp : p = s.length ∨ p < s.length ∧ Marked s p) :
    ∃ q, p < q ∧ q ≤ find q ∧ (find q = s.length ∨ find q < s.length ∧ Marked s (find q)) ∧
      q < s.length ∧
      (slice s q (find q - q)).length = find q - q ∧
      ∀ n, nalUnitsBy find s (n + 1) p
        = slice s q (find q - q) :: nalUnitsBy find s n (find q) := by
  rcases hp with hp | ⟨-, hm⟩
  · omega
  obtain ⟨a, b⟩ := skipZeros_inside (n := s.length - p) (by omega) hm
  obtain ⟨c, d⟩ := hfind _ b.le
  exact ⟨_, a, c, d, b, slice_length s _ _ (by omega), fun n => by rw [nalUnitsBy, if_pos hlt]⟩

/-- **The units together are no longer than the data**, also with a byte for the start code of
each. -/
theorem nalUnitsBy_total (n : Nat) {p : Nat} (hp : p = s.length ∨ p < s.length ∧ Marked s p) :
    p + (((nalUnitsBy find s n p).map List.length).sum + (nalUnitsBy find s n p).length)
      ≤ s.length := by
  induction n generalizing p with
  | zero =>
    have hle : p ≤ s.length := by omega
    exact hle
  | succ n ih =>
    by_cases hlt : p < s.length
    · obtain ⟨q, a, c, d, b, hlen, hround⟩ := nalUnitsBy_round hfind hlt hp
      have hrest := ih d
      rw [hround, List.map_cons, List.sum_cons, List.length_cons, hlen]
      omega
    · rw [nalUnitsBy, if_neg hlt]
      show p ≤ s.length
      omega

/-- **The last unit is not empty.** -/
theorem nalUnitsBy_last (n : Nat) {p : Nat} (hp : p = s.length ∨ p < s.length ∧ Marked s p)
    (hn : s.length ≤ p + n) :
    ∀ u ∈ (nalUnitsBy find s n p).getLast?, u ≠ [] := by
  induction n generalizing p with
  | zero => exact nofun
  | succ n ih =>
    by_cases hlt : p < s.length
    · obtain ⟨q, a, c, d, b, hlen, hround⟩ := nalUnitsBy_round hfind hlt hp
      rw [hround]
      intro u hu
      rcases d with d | ⟨d, hm⟩
      · -- the last unit reaches the end of the data
        have hnil : nalUnitsBy find s n (find q) = [] := by
          cases n with
          | zero => rfl
          | succ n => rw [nalUnitsBy, if_neg (by omega)]
        rw [hnil, List.getLast?_singleton] at hu
        cases hu
        intro hempty
        rw [hempty] at hlen
        have : (0 : Nat) = find q - q := hlen
        omega
      · have hne : nalUnitsBy find s n (find q) ≠ [] := by
          cases n with
          | zero => omega
          | succ n => rw [nalUnitsBy, if_pos d]; exact List.cons_ne_nil _ _
        have hrest := ih (Or.inr ⟨d, hm⟩) (by omega)
        rw [List.getLast?_cons_of_ne_nil hne] at hu
        exact hrest u hu
    · rw [nalUnitsBy, if_neg hlt]
      exact nofun

end

/-- **Every unit is inside the data, and the last one is not empty.** -/
theorem nalUnits_inside {s : Bytes} (n : Nat) {p : Nat}
    (hp : p = s.length ∨ p < s.length ∧ Marked s p) (hn : s.length ≤ p + n) :
    (∀ u ∈ nalUnits s n p, u.length ≤ s.length) ∧
      ∀ u ∈ (nalUnits s n p).getLast?, u ≠ [] := by
  have hfind : Searches s (ffAvcFindStartcode s) := fun _ hq => ffAvcFindStartcode_spec hq
  have htotal := nalUnitsBy_total hfind n hp
  rw [nalUnits_by]
  refine ⟨fun u hu => ?_, nalUnitsBy_last hfind n hp hn⟩
  have hsum : u.length ≤ ((nalUnitsBy (ffAvcFindStartcode s) s n p).map List.length).sum :=
    List.le_sum_of_mem (List.mem_map_of_mem hu)
  omega

/-! ## the types are read inside the records -/

theorem parse_units (s : Bytes) :
    (∀ u ∈ nalUnits s s.length (ffAvcFindStartcode s 0), u.length ≤ s.length) ∧
      ∀ u ∈ (nalUnits s s.length (ffAvcFindStartcode s 0)).getLast?, u ≠ [] :=
  nalUnits_inside s.length (ffAvcFindStartcode_spec (Nat.zero_le _)).2 (Nat.le_add_left _ _)

/-- the walk over the records themselves -/
def scanSets (buf : Bytes) : List Bytes → Nat → Sets → Sets
  | [], _, r => r
  | u :: us, off, r =>
    scanSets buf us (off + u.length + 4) (r.note (byteAt buf (off + 4) &&& 0x1f) off u.length)

theorem nalRecord_length (u : Bytes) : (nalRecord u).length = u.length + 4 := by
  rw [nalRecord, List.length_append, be_length, Nat.add_comm]

/-- a record begins with its size, and a byte follows: of this record or of the next one -/
theorem record_head {buf a u : Bytes} {us : List Bytes}
    (hbuf : buf = a ++ (u :: us).flatMap nalRecord) (hu : u.length < 2 ^ 32)
    (hlast : ∀ v ∈ (u :: us).getLast?, v ≠ []) :
    ofBe (slice buf a.length 4) = u.length ∧ a.length + 4 < buf.length := by
  have hlen : buf.length = a.length + (u.length + 4) + (us.flatMap nalRecord).length := by
    rw [hbuf, List.flatMap_cons, List.length_append, List.length_append, nalRecord_length]
    omega
  constructor
  · have hs : buf = a ++ be 4 u.length ++ (u ++ us.flatMap nalRecord) := by
      rw [hbuf, List.flatMap_cons, nalRecord, List.append_assoc, List.append_assoc]
    have hsize := slice_mid a (be 4 u.length) (u ++ us.flatMap nalRecord)
    rw [be_length, ← hs] at hsize
    rw [hsize]
    exact ofBe_be 4 _ (by omega)
  · cases us with
    | nil =>
      have hne : u ≠ [] := hlast u rfl
      have := List.length_pos_iff.mpr hne
      omega
    | cons v vs =>
      rw [hlen, List.flatMap_cons, List.length_append, nalRecord_length]
      omega

theorem getLast?_tail {α : Type} {P : α → Prop} {x : α} {l : List α}
    (h : ∀ y ∈ (x :: l).getLast?, P y) :
    ∀ y ∈ l.getLast?, P y := by
  intro y hy
  apply h y
  cases l with
  | nil => cases hy
  | cons z l => rwa [List.getLast?_cons_of_ne_nil (List.cons_ne_nil z l)]


/-- **The walk over the buffer is the walk over the records**, whatever is behind them. -/
theorem findSets_records (heap : Nat → UInt8) {buf a : Bytes} {us : List Bytes} {n : Nat} (r : Sets)
    (hbuf : buf = a ++ us.flatMap nalRecord) (hu : ∀ u ∈ us, u.length < 2 ^ 32)
    (hlast : ∀ u ∈ us.getLast?, u ≠ []) (hn : us.length ≤ n) :
    findSets heap buf n a.length r = scanSets buf us a.length r := by
  induction us generalizing a n r with
  | nil =>
    have hend : ¬ a.length < buf.length := by
      rw [hbuf]
      simp
    cases n with
    | zero => rfl
    | succ n => rw [findSets, if_neg hend, scanSets]
  | cons u us ih =>
    cases n with
    | zero => cases hn
    | succ n =>
      obtain ⟨hsize, hbyte⟩ := record_head hbuf (hu u List.mem_cons_self) hlast
      have hsplit : buf = (a ++ nalRecord u) ++ us.flatMap nalRecord := by
        rw [hbuf, List.flatMap_cons, List.append_assoc]
      have htype : bufAt heap buf (a.length + 4) = byteAt buf (a.length + 4) := by
        unfold bufAt byteAt
        rw [List.getD_eq_getElem?_getD, List.getD_eq_getElem?_getD, List.getElem?_eq_getElem hbyte]
        rfl
      have hrest := ih (a := a ++ nalRecord u) (n := n)
        (r.note (byteAt buf (a.length + 4) &&& 0x1f) a.length u.length) hsplit
        (fun v hv => hu v (List.mem_cons_of_mem u hv))
        (getLast?_tail hlast)
        (Nat.le_of_succ_le_succ hn)
      rw [List.length_append, nalRecord_length] at hrest
      rw [findSets, if_pos (by omega)]
      dsimp only
      rw [hsize, htype, scanSets, Nat.add_assoc]
      exact hrest

/-- the bytes of both sets are in the buffer -/
structure Sets.Inside (buf : Bytes) (r : Sets) : Prop where
  sps : ∀ o, r.sps = some o → o + r.sps_size ≤ buf.length
  pps : r.pps.getD 0 + r.pps_size ≤ buf.length

theorem Sets.Inside.note {buf : Bytes} {r : Sets} (h : r.Inside buf) (ty : UInt8) {off size : Nat}
    (hin : off + 4 + size ≤ buf.length) : (r.note ty off size).Inside buf := by
  unfold Sets.note
  by_cases h7 : ty = 7
  · rw [if_pos h7]
    refine ⟨?_, h.pps⟩
    intro o ho
    cases ho
    exact hin
  · rw [if_neg h7]
    by_cases h8 : ty = 8
    · rw [if_pos h8]
      exact ⟨h.sps, hin⟩
    · rw [if_neg h8]
      exact h

theorem scanSets_inside {buf pre : Bytes} {us : List Bytes} {r : Sets}
    (hbuf : buf = pre ++ us.flatMap nalRecord) (hr : r.Inside buf) :
    (scanSets buf us pre.length r).Inside buf := by
  induction us generalizing pre r with
  | nil => exact hr
  | cons u us ih =>
    have hsplit : buf = (pre ++ nalRecord u) ++ us.flatMap nalRecord := by
      rw [hbuf, List.flatMap_cons, List.append_assoc]
    have hlen : pre.length + 4 + u.length ≤ buf.length := by
      rw [hsplit, List.length_append, List.length_append, nalRecord_length]
      omega
    have hrest := ih hsplit (hr.note (byteAt buf (pre.length + 4) &&& 0x1f) hlen)
    rw [List.length_append, nalRecord_length] at hrest
    rw [scanSets, Nat.add_assoc]
    exact hrest

/-- each record is an SPS, or a PPS, or neither: the sets together are no longer than the units -/
theorem Sets.note_total (r : Sets) (ty : UInt8) (off size : Nat) :
    (r.note ty off size).sps_size + (r.note ty off size).pps_size
      ≤ r.sps_size + r.pps_size + size := by
  unfold Sets.note
  by_cases h7 : ty = 7
  · rw [if_pos h7]
    dsimp only
    omega
  · rw [if_neg h7]
    split
    · dsimp only
      omega
    · omega

theorem scanSets_total (buf : Bytes) (us : List Bytes) (off : Nat) (r : Sets) :
    (scanSets buf us off r).sps_size + (scanSets buf us off r).pps_size
      ≤ r.sps_size + r.pps_size + (us.map List.length).sum := by
  induction us generalizing off r with
  | nil => exact le_rfl
  | cons u us ih =>
    have hnote := r.note_total (byteAt buf (off + 4) &&& 0x1f) off u.length
    have hrest := ih (off + u.length + 4) (r.note (byteAt buf (off + 4) &&& 0x1f) off u.length)
    rw [scanSets, List.map_cons, List.sum_cons]
    omega

/-- what stands behind the records does not matter -/
theorem parameterSets_units (heap : Nat → UInt8) {us : List Bytes}
    (hu : ∀ u ∈ us, u.length < 2 ^ 32) (hlast : ∀ u ∈ us.getLast?, u ≠ []) :
    parameterSets heap (us.flatMap nalRecord)
      = scanSets (us.flatMap nalRecord) us 0 ⟨none, 0, none, 0⟩ := by
  have hrounds : us.length ≤ (us.flatMap nalRecord).length := by
    clear hu hlast
    induction us with
    | nil => exact le_rfl
    | cons u us ih =>
      rw [List.flatMap_cons, List.length_append, List.length_cons, nalRecord_length]
      omega
  have hbuf : us.flatMap nalRecord = [] ++ us.flatMap nalRecord := rfl
  exact findSets_records heap ⟨none, 0, none, 0⟩ hbuf hu hlast hrounds

/-- the walk over the records of the data; both sets are inside them -/
theorem parameterSets_spec {data : Bytes} (hdata : data.length < 2 ^ 32) (heap : Nat → UInt8) :
    parameterSets heap (ffAvcParseNalUnits data)
        = scanSets (ffAvcParseNalUnits data) (nalUnits data data.length (ffAvcFindStartcode data 0))
          0
            ⟨none, 0, none, 0⟩ ∧
      (parameterSets heap (ffAvcParseNalUnits data)).Inside (ffAvcParseNalUnits data) := by
  obtain ⟨hin, hlast⟩ := parse_units data
  have hbuf : ffAvcParseNalUnits data
      = [] ++ (nalUnits data data.length (ffAvcFindStartcode data 0)).flatMap nalRecord := rfl
  have hwalk := parameterSets_units heap (fun u hu => lt_of_le_of_lt (hin u hu) hdata) hlast
  have hempty : Sets.Inside (ffAvcParseNalUnits data) ⟨none, 0, none, 0⟩ := ⟨nofun, Nat.zero_le _⟩
  have hscan := scanSets_inside hbuf hempty
  have hsame : parameterSets heap (ffAvcParseNalUnits data)
      = scanSets (ffAvcParseNalUnits data) (nalUnits data data.length (ffAvcFindStartcode data 0))
          ([] : Bytes).length ⟨none, 0, none, 0⟩ := hwalk
  rw [← hsame] at hscan
  exact ⟨hwalk, hscan⟩

/-! ## the body of `avcC` -/

theorem ffIsomWriteAvcc_isSome (heap : Nat → UInt8) (data : Bytes) :
    (ffIsomWriteAvcc heap data).isSome ↔ AvccWritable heap data := by
  unfold ffIsomWriteAvcc AvccWritable
  by_cases h6 : data.length > 6
  · rw [if_pos h6]
    by_cases hs : hasStartCode data
    · rw [if_pos hs]
      dsimp only
      by_cases hfit : (ffAvcParseNalUnits data).length ≤ data.length + 256
      · rw [if_pos hfit, Option.isSome_map]
        exact ⟨fun h _ _ => ⟨hfit, h⟩, fun h => (h h6 hs).2⟩
      · rw [if_neg hfit]
        exact ⟨nofun, fun h => absurd (h h6 hs).1 hfit⟩
    · rw [if_neg hs]
      exact ⟨fun _ _ h => absurd h hs, fun _ => rfl⟩
  · rw [if_neg h6]
    exact ⟨fun _ h _ => absurd h h6, fun _ => rfl⟩

/-- **The size function is right about the body.** -/
theorem ffIsomWriteAvcc_length {heap : Nat → UInt8} {data : Bytes} (hdata : data.length < 2 ^ 32)
    {ws : List CacheWrite} (h : ffIsomWriteAvcc heap data = some ws) :
    (emitted ws).length = ffIsomGetAvccSize heap data := by
  unfold ffIsomWriteAvcc at h
  unfold ffIsomGetAvccSize
  by_cases h6 : data.length > 6
  · rw [if_pos h6] at h ⊢
    by_cases hs : hasStartCode data
    · rw [if_pos hs] at h ⊢
      dsimp only at h ⊢
      by_cases hfit : (ffAvcParseNalUnits data).length ≤ data.length + 256
      · rw [if_pos hfit] at h
        have hin := (parameterSets_spec hdata heap).2
        generalize parameterSets heap (ffAvcParseNalUnits data) = r at h hin ⊢
        obtain ⟨sps, hsps, rfl⟩ := Option.map_eq_some_iff.mp h
        have h1 := slice_length _ _ _ (hin.sps sps hsps)
        have h2 := slice_length _ _ _ hin.pps
        simp only [emitted_append, emitted_putByte, emitted_putBe16, emitted_putBuffer,
          List.length_append, be_length, h1, h2]
      · rw [if_neg hfit] at h
        cases h
    · rw [if_neg hs] at h ⊢
      cases h
      rw [emitted_putBuffer]
  · rw [if_neg h6] at h ⊢
    cases h
    rfl

end Pluto.Mp4

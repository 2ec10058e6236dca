import Pluto.Mp4.StartCodes

/-!
# The reads and the rounds of the splitting

The functions once more, with what the C code takes for granted made explicit: every read outside
the data, and every loop that is not through after `fuel` rounds, leaves the result `none`.

* `Checked.ffAvcFindStartcode`, `Checked.ffAvcParseNalUnits`   the search and the splitting;
* `Checked.recordWalk`          the loop `while (buf < end)` of `FFIsomGetAvccSize`;
* `Checked.findStartcode_eq`, `Checked.parseNalUnits_eq` they have the results of the functions
  without checks;
* `parse_bounded`               every search ends where it may, the splitting ends, and so does the
  walk.
-/

namespace Pluto.Mp4
open Octets Boxes AnnexB

namespace Checked

/-! ## the functions -/

/-- `p[i] == b` -/
def readIs (s : Bytes) (i : Nat) (b : UInt8) : Option Bool := s[i]?.map (· == b)

/-- `x && y`: without `x`, `y` is not read -/
def andAlso (x y : Option Bool) : Option Bool := x.bind fun b => if b then y else some false

/-- `p[0] == 0 && p[1] == 0 && p[2] == 1` -/
def isStart (s : Bytes) (p : Nat) : Option Bool :=
  andAlso (readIs s p 0) (andAlso (readIs s (p + 1) 0) (readIs s (p + 2) 1))

/-- the byte loops, while `p < stop` -/
def scanBytes (s : Bytes) (stop : Int) : Nat → Nat → Option (Except Nat Nat)
  | 0, _ => none
  | fuel + 1, p =>
    if p < stop then (isStart s p).bind fun b => if b then
      some (.error p) else scanBytes s stop fuel (p + 1)
    else some (.ok p)

/-- `if (c) { if (t) return r; if (t') return r'; }` -/
def oneOfTwo (c t t' : Option Bool) (r r' : Nat) : Option (Option Nat) :=
  c.bind fun b =>
    if b then t.bind fun b => if b then some (some r) else t'.map fun b => if b then
      some r' else none
    else some none

/-- the body of the loop over words -/
def matchWord (s : Bytes) (p : Nat) : Option (Option Nat) :=
  if p + 4 ≤ s.length then
    let x := wordAt s p
    if (x - 0x01010101) &&& (~~~x) &&& 0x80808080 ≠ 0 then
      (oneOfTwo (readIs s (p + 1) 0) (andAlso (readIs s p 0) (readIs s (p + 2) 1))
          (andAlso (readIs s (p + 2) 0) (readIs s (p + 3) 1)) (p - 1) p).bind fun r =>
        match r with
        | some r => some (some r)
        | none =>
          oneOfTwo (readIs s (p + 3) 0) (andAlso (readIs s (p + 2) 0) (readIs s (p + 4) 1))
            (andAlso (readIs s (p + 4) 0) (readIs s (p + 5) 1)) (p + 1) (p + 2)
    else some none
  else none

/-- the loop over words, while `p < stop` -/
def scanWords (s : Bytes) (stop : Int) : Nat → Nat → Option (Except Nat Nat)
  | 0, _ => none
  | fuel + 1, p =>
    if p < stop then
      (matchWord s p).bind fun r =>
        match r with
        | some r => some (.error r)
        | none => scanWords s stop fuel (p + 4)
    else some (.ok p)

/-- each loop has `fuel` rounds -/
def ffAvcFindStartcode (fuel addr : Nat) (s : Bytes) (p : Nat) : Option Nat :=
  let a : Int := p + 4 - ((addr + p) % 4 : Nat)
  let stop : Int := s.length - 3
  (scanBytes s (min a stop) fuel p).bind fun r =>
    match r with
    | .error r => some r
    | .ok p =>
      (scanWords s (stop - 3) fuel p).bind fun r =>
        match r with
        | .error r => some r
        | .ok p =>
          (scanBytes s stop fuel p).map fun r =>
            match r with
            | .error r => r
            | .ok _ => s.length

/-- `while (!*(nal_start++))` -/
def skipZeros (s : Bytes) : Nat → Nat → Option Nat
  | 0, _ => none
  | fuel + 1, p => s[p]?.bind fun b => if b = 0 then skipZeros s fuel (p + 1) else some (p + 1)

/-- `while (nal_start < end)`; `nal_size` is an `unsigned int`, and `memcpy` reads so many bytes -/
def nalUnits (fuel addr : Nat) (s : Bytes) : Nat → Nat → Option (List Bytes)
  | 0, _ => none
  | rounds + 1, nal_start =>
    if nal_start < s.length then
      (skipZeros s fuel nal_start).bind fun nal_start =>
        (ffAvcFindStartcode fuel addr s nal_start).bind fun nal_end =>
          let nal_size := (((nal_end : Int) - nal_start) % 2 ^ 32).toNat
          if nal_start + nal_size ≤ s.length then
            (nalUnits fuel addr s rounds nal_end).map (slice s nal_start nal_size :: ·)
          else none
    else some []

/-- the units that are copied, each behind its size -/
def ffAvcParseNalUnits (fuel addr : Nat) (s : Bytes) : Option (List Bytes) :=
  (ffAvcFindStartcode fuel addr s 0).bind (nalUnits fuel addr s fuel)

/-- `*size = ptr_t - *buf`, an `int` -/
def parsedSize (out : Bytes) : Int := (out.length : Int).bmod (2 ^ 32)

/-- `while (buf < end)` over the records, with `len` bytes: where `buf` stands in the end.  Each
round reads the size and the byte behind it; `size + 4` is an `unsigned int`. -/
def recordWalk (buf : Bytes) (len : Int) : Nat → Nat → Option Nat
  | 0, _ => none
  | fuel + 1, off =>
    if off < len then
      if off + 5 ≤ buf.length then
        recordWalk buf len fuel (off + (ofBe (slice buf off 4) + 4) % 2 ^ 32)
      else none
    else some off

/-! ## the search -/

section
variable {s : Bytes}

theorem readIs_eq {i : Nat} (h : i < s.length) (b : UInt8) :
    readIs s i b = some (byteAt s i == b) := by
  unfold readIs byteAt
  rw [List.getElem?_eq_getElem h, List.getD_eq_getElem?_getD, List.getElem?_eq_getElem h]
  rfl

theorem andAlso_some (x y : Bool) : andAlso (some x) (some y) = some (x && y) := by
  cases x <;> rfl

theorem oneOfTwo_some (c t t' : Bool) (r r' : Nat) :
    oneOfTwo (some c) (some t) (some t') r r'
      = some (if c && t then some r else if c && t' then some r' else none) := by
  cases c <;> cases t <;> cases t' <;> rfl

theorem isStart_eq {p : Nat} (h : p + 2 < s.length) : isStart s p = some (Mp4.isStart s p) := by
  unfold isStart Mp4.isStart
  rw [readIs_eq (by omega), readIs_eq (by omega), readIs_eq h, andAlso_some, andAlso_some,
    Bool.and_assoc]

theorem matchWord_eq {p : Nat} (h : p + 5 < s.length) :
    matchWord s p = some (Mp4.matchWord s p) := by
  unfold matchWord Mp4.matchWord
  rw [if_pos (by omega), readIs_eq (by omega), readIs_eq (by omega), readIs_eq (by omega),
    readIs_eq (by omega), readIs_eq (by omega), readIs_eq (by omega), readIs_eq (by omega),
    readIs_eq (by omega), readIs_eq h]
  simp only [andAlso_some, oneOfTwo_some, Bool.and_eq_true, beq_iff_eq, Option.bind_some]
  by_cases hf : (wordAt s p - 0x01010101) &&& (~~~wordAt s p) &&& 0x80808080 ≠ 0
  · rw [if_pos hf, if_pos hf]
    by_cases h1 : byteAt s (p + 1) = 0 ∧ byteAt s p = 0 ∧ byteAt s (p + 2) = 1
    · rw [if_pos h1, if_pos h1]
    · rw [if_neg h1, if_neg h1]
      by_cases h2 : byteAt s (p + 1) = 0 ∧ byteAt s (p + 2) = 0 ∧ byteAt s (p + 3) = 1
      · rw [if_pos h2, if_pos h2]
      · rw [if_neg h2, if_neg h2]
  · rw [if_neg hf, if_neg hf]

/-- the rounds of a byte loop that stops inside the data -/
theorem scanBytes_eq {stop : Int} (hstop : stop + 2 ≤ s.length) {n fuel p : Nat}
    (hn : (stop - p).toNat = n) (hfuel : n < fuel) :
    scanBytes s stop fuel p = some (Mp4.scanBytes s n p) := by
  induction n generalizing fuel p with
  | zero =>
    obtain ⟨k, rfl⟩ := Nat.exists_eq_add_of_lt hfuel
    rw [scanBytes, if_neg (by omega)]
    rfl
  | succ n ih =>
    obtain ⟨k, rfl⟩ := Nat.exists_eq_succ_of_ne_zero (Nat.ne_of_gt (Nat.zero_lt_of_lt hfuel))
    have hrest : scanBytes s stop k (p + 1) = some (Mp4.scanBytes s n (p + 1)) :=
      ih (by omega) (by omega)
    rw [scanBytes, if_pos (by omega), isStart_eq (by omega), Option.bind_some, Mp4.scanBytes, hrest]
    split <;> rfl

theorem scanWords_eq {stop : Int} (hstop : stop + 5 ≤ s.length) {n fuel p : Nat}
    (hn : ((stop - p).toNat + 3) / 4 = n) (hfuel : n < fuel) :
    scanWords s stop fuel p = some (Mp4.scanWords s n p) := by
  induction n generalizing fuel p with
  | zero =>
    obtain ⟨k, rfl⟩ := Nat.exists_eq_add_of_lt hfuel
    rw [scanWords, if_neg (by omega)]
    rfl
  | succ n ih =>
    obtain ⟨k, rfl⟩ := Nat.exists_eq_succ_of_ne_zero (Nat.ne_of_gt (Nat.zero_lt_of_lt hfuel))
    have hrest : scanWords s stop k (p + 4) = some (Mp4.scanWords s n (p + 4)) :=
      ih (by omega) (by omega)
    rw [scanWords, if_pos (by omega), matchWord_eq (by omega), Option.bind_some, Mp4.scanWords,
      hrest]
    cases Mp4.matchWord s p <;> rfl

/-- **The search reads inside the data**, and no loop of it has more rounds than there are bytes. -/
theorem findStartcode_eq (addr : Nat) {fuel : Nat} (hfuel : s.length < fuel) (p : Nat) :
    ffAvcFindStartcode fuel addr s p = some (ffAvcFindStartcodeAt addr s p) := by
  have hmod : (addr + p) % 4 < 4 := Nat.mod_lt _ (by decide)
  have hfirst : scanBytes s (min (p + 4 - ((addr + p) % 4 : Nat)) (s.length - 3)) fuel p
      = some (Mp4.scanBytes s (min (p + 4 - (addr + p) % 4) (s.length - 3) - p) p) :=
    scanBytes_eq (by omega) (by omega) (by omega)
  unfold ffAvcFindStartcode ffAvcFindStartcodeAt
  dsimp only
  rw [hfirst, Option.bind_some]
  cases Mp4.scanBytes s (min (p + 4 - (addr + p) % 4) (s.length - 3) - p) p with
  | error r => rfl
  | ok q =>
    have hwords : scanWords s (s.length - 3 - 3) fuel q
        = some (Mp4.scanWords s ((s.length - 6 - q + 3) / 4) q) :=
      scanWords_eq (by omega) (by omega) (by omega)
    dsimp only
    rw [hwords, Option.bind_some]
    cases Mp4.scanWords s ((s.length - 6 - q + 3) / 4) q with
    | error r => rfl
    | ok q' =>
      have hlast : scanBytes s (s.length - 3) fuel q'
          = some (Mp4.scanBytes s (s.length - 3 - q') q') :=
        scanBytes_eq (by omega) (by omega) (by omega)
      dsimp only
      cases hr : Mp4.scanBytes s (s.length - 3 - q') q' <;> simp only [hlast, hr, Option.map_some]

/-! ## the splitting -/

/-- the zeros in front of a unit end inside the data -/
theorem skipZeros_eq {n fuel p : Nat} (hn : p + n = s.length) (h : Marked s p) (hfuel : n < fuel) :
    skipZeros s fuel p = some (Mp4.skipZeros s n p) := by
  induction n generalizing fuel p with
  | zero =>
    obtain ⟨j, h1, h2, -⟩ := h
    omega
  | succ n ih =>
    obtain ⟨k, rfl⟩ := Nat.exists_eq_succ_of_ne_zero (Nat.ne_of_gt (Nat.zero_lt_of_lt hfuel))
    obtain ⟨j, h1, h2, h3⟩ := h
    have hp : p < s.length := by omega
    have hbyte : byteAt s p = s[p] := by
      rw [byteAt, List.getD_eq_getElem?_getD, List.getElem?_eq_getElem hp]
      rfl
    rw [skipZeros, List.getElem?_eq_getElem hp, Option.bind_some, Mp4.skipZeros, hbyte]
    by_cases hz : s[p] = 0
    · have hj : p ≠ j := fun he => h3 (he ▸ hbyte.trans hz)
      rw [if_pos hz, if_pos hz]
      exact ih (by omega) ⟨j, by omega, h2, h3⟩ (by omega)
    · rw [if_neg hz, if_neg hz]

/-- one unit a round; a round takes a byte or more -/
theorem nalUnits_eq (addr : Nat) {fuel : Nat} (hs : s.length < 2 ^ 32) (hfuel : s.length < fuel)
    {n rounds p : Nat} (hp : p = s.length ∨ p < s.length ∧ Marked s p) (hn : s.length ≤ p + n)
    (hrounds : n < rounds) :
    nalUnits fuel addr s rounds p = some (nalUnitsAt addr s n p) := by
  induction n generalizing rounds p with
  | zero =>
    obtain ⟨k, rfl⟩ := Nat.exists_eq_add_of_lt hrounds
    rw [nalUnits, if_neg (by omega)]
    rfl
  | succ n ih =>
    obtain ⟨k, rfl⟩ := Nat.exists_eq_succ_of_ne_zero (Nat.ne_of_gt (Nat.zero_lt_of_lt hrounds))
    rw [nalUnits, nalUnitsAt]
    by_cases hlt : p < s.length
    · rcases hp with hp | ⟨-, hm⟩
      · omega
      obtain ⟨a, b⟩ := skipZeros_inside (n := s.length - p) (by omega) hm
      have hskip : skipZeros s fuel p = some (Mp4.skipZeros s (s.length - p) p) :=
        skipZeros_eq (by omega) hm (by omega)
      rw [if_pos hlt, if_pos hlt, hskip, Option.bind_some, findStartcode_eq addr hfuel,
        Option.bind_some]
      dsimp only
      generalize Mp4.skipZeros s (s.length - p) p = q at a b
      obtain ⟨c, d⟩ := ffAvcFindStartcodeAt_spec addr b.le
      generalize ffAvcFindStartcodeAt addr s q = e at c d
      have hsize : (((e : Int) - q) % 2 ^ 32).toNat = e - q := by omega
      rw [hsize, if_pos (by omega), ih d (by omega) (by omega)]
      rfl
    · rw [if_neg hlt, if_neg hlt]

/-- **The splitting ends and reads inside the data.** -/
theorem parseNalUnits_eq (addr : Nat) {fuel : Nat} (hs : s.length < 2 ^ 32)
    (hfuel : s.length < fuel) :
    ffAvcParseNalUnits fuel addr s
      = some (nalUnitsAt addr s s.length (ffAvcFindStartcodeAt addr s 0)) := by
  have hspec := ffAvcFindStartcodeAt_spec addr (Nat.zero_le s.length)
  rw [ffAvcParseNalUnits, findStartcode_eq addr hfuel, Option.bind_some]
  exact nalUnits_eq addr hs hfuel hspec.2 (Nat.le_add_left _ _) hfuel

end

/-! ## the walk over the records -/

theorem recordWalk_records {buf a : Bytes} {us : List Bytes} {fuel : Nat}
    (hbuf : buf = a ++ us.flatMap nalRecord) (hu : ∀ u ∈ us, u.length + 4 < 2 ^ 32)
    (hlast : ∀ u ∈ us.getLast?, u ≠ []) (hfuel : us.length < fuel) :
    recordWalk buf buf.length fuel a.length = some buf.length := by
  induction us generalizing a fuel with
  | nil =>
    have hend : buf.length = a.length := by rw [hbuf, List.flatMap_nil, List.append_nil]
    obtain ⟨k, rfl⟩ := Nat.exists_eq_add_of_lt hfuel
    rw [recordWalk, if_neg (by omega), hend]
  | cons u us ih =>
    obtain ⟨k, rfl⟩ := Nat.exists_eq_succ_of_ne_zero (Nat.ne_of_gt (Nat.zero_lt_of_lt hfuel))
    have hlen := hu u List.mem_cons_self
    obtain ⟨hsize, hbyte⟩ := record_head hbuf (by omega) hlast
    have hsplit : buf = (a ++ nalRecord u) ++ us.flatMap nalRecord := by
      rw [hbuf, List.flatMap_cons, List.append_assoc]
    have hrest := ih hsplit (fun v hv => hu v (List.mem_cons_of_mem u hv)) (getLast?_tail hlast)
      (Nat.lt_of_succ_lt_succ hfuel)
    rw [List.length_append, nalRecord_length] at hrest
    rw [recordWalk, if_pos (by omega), if_pos (by omega), hsize, Nat.mod_eq_of_lt hlen]
    exact hrest

end Checked

/-- **The splitting is bounded.**  For data of fewer than `2^28` bytes, whatever they are and
wherever they lie: every search reads inside the data and ends between its start and their end; the
splitting reads inside the data and ends with the units of the data, and what it copies is no longer
than the data; and the walk over its output reads inside the output and stops exactly at its end. -/
theorem parse_bounded (addr : Nat) {s : Bytes} (hs : s.length < 2 ^ 28) :
    (∀ p ≤ s.length, p ≤ ffAvcFindStartcodeAt addr s p ∧ ffAvcFindStartcodeAt addr s p ≤ s.length ∧
      ∀ fuel, s.length < fuel →
        Checked.ffAvcFindStartcode fuel addr s p = some (ffAvcFindStartcodeAt addr s p)) ∧
    ∃ us : List Bytes, us = nalUnitsAt addr s s.length (ffAvcFindStartcodeAt addr s 0) ∧
      (∀ fuel, s.length < fuel → Checked.ffAvcParseNalUnits fuel addr s = some us) ∧
      (us.map List.length).sum ≤ s.length ∧
      ∀ fuel, us.length < fuel →
        Checked.recordWalk (us.flatMap nalRecord) (Checked.parsedSize (us.flatMap nalRecord)) fuel 0
          = some (us.flatMap nalRecord).length := by
  have hspec := ffAvcFindStartcodeAt_spec addr (Nat.zero_le s.length)
  have htotal := nalUnitsAt_total addr s.length hspec.2
  have hlast := nalUnitsBy_last (searchesAt addr s) s.length hspec.2 (Nat.le_add_left _ _)
  rw [← nalUnitsAt_by] at hlast
  refine ⟨fun p hp => ?_, _, rfl, fun fuel hfuel => Checked.parseNalUnits_eq addr (by omega) hfuel,
    by omega, fun fuel hfuel => ?_⟩
  · obtain ⟨h1, h2⟩ := ffAvcFindStartcodeAt_spec addr hp
    exact ⟨h1, by omega, fun fuel hfuel => Checked.findStartcode_eq addr hfuel p⟩
  · generalize nalUnitsAt addr s s.length (ffAvcFindStartcodeAt addr s 0) = us at *
    have hout : (us.flatMap nalRecord).length = (us.map List.length).sum + 4 * us.length := by
      clear htotal hlast hfuel
      induction us with
      | nil => rfl
      | cons u us ih =>
        rw [List.flatMap_cons, List.length_append, nalRecord_length, ih, List.map_cons,
          List.sum_cons, List.length_cons]
        ring
    have hsize : Checked.parsedSize (us.flatMap nalRecord)
        = ((us.flatMap nalRecord).length : Int) := by
      unfold Checked.parsedSize
      exact Int.bmod_eq_of_le (by omega) (by omega)
    have hu : ∀ u ∈ us, u.length + 4 < 2 ^ 32 := by
      intro u hmem
      have hone : u.length ≤ (us.map List.length).sum :=
        List.le_sum_of_mem (List.mem_map_of_mem hmem)
      omega
    rw [hsize]
    exact Checked.recordWalk_records (a := []) rfl hu hlast hfuel

/-- two units behind start codes of four and of three bytes -/
theorem parse_bounded_two :
    (∀ fuel, 9 < fuel → Checked.ffAvcParseNalUnits fuel 1 [0, 0, 0, 1, 0x67, 0, 0, 1, 0x68]
      = some [[0x67], [0x68]]) ∧
    ∀ fuel, 2 < fuel → Checked.recordWalk [0, 0, 0, 1, 0x67, 0, 0, 0, 1, 0x68]
      (Checked.parsedSize [0, 0, 0, 1, 0x67, 0, 0, 0, 1, 0x68]) fuel 0 = some 10 := by
  obtain ⟨-, us, hus, hparse, -, hwalk⟩ :=
    parse_bounded 1 (s := [0, 0, 0, 1, 0x67, 0, 0, 1, 0x68]) (by decide)
  obtain rfl : us = [[0x67], [0x68]] := hus.trans (by decide)
  exact ⟨hparse, hwalk⟩

end Pluto.Mp4

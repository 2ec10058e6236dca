import Pluto.Bytes.AnnexB
import Pluto.Mp4.Avcc

/-!
# The start-code search at any address

The byte loops return a start code at its first zero.  The loop over words returns the byte in front
of that zero, whatever stands there.  Which loop meets a start code depends on the address of the
data, on where the search begins and on how far the end is (`ByWord`).

* `ffAvcFindStartcodeAt`    the search, the data at address `addr`;
* `nalUnitsAt`, `ffAvcParseNalUnitsAt`   the splitting and its buffer;
* `spans`, `growth`         the units and their price in the buffer, from the start codes alone;
* `nalUnitsAt_spans`        the splitting is `spans`;
* `parse_length`            the records take as many bytes as the data and `growth` more.
-/

namespace Pluto.Mp4
open Octets Boxes AnnexB

/-! ## the search -/

def ffAvcFindStartcodeAt (addr : Nat) (s : Bytes) (p : Nat) : Nat :=
  let a := p + 4 - (addr + p) % 4
  match scanBytes s (min a (s.length - 3) - p) p with
  | .error r => r
  | .ok p =>
    match scanWords s ((s.length - 6 - p + 3) / 4) p with
    | .error r => r
    | .ok p =>
      match scanBytes s (s.length - 3 - p) p with
      | .error r => r
      | .ok _ => s.length

def nalUnitsAt (addr : Nat) (s : Bytes) : Nat → Nat → List Bytes
  | 0, _ => []
  | n + 1, nal_start =>
    if nal_start < s.length then
      let nal_start := skipZeros s (s.length - nal_start) nal_start
      let nal_end := ffAvcFindStartcodeAt addr s nal_start
      slice s nal_start (nal_end - nal_start) :: nalUnitsAt addr s n nal_end
    else []

/-- no result when the records overrun the `*size + 256` bytes of the buffer -/
def ffAvcParseNalUnitsAt (addr : Nat) (s : Bytes) : Option Bytes :=
  let buf := (nalUnitsAt addr s s.length (ffAvcFindStartcodeAt addr s 0)).flatMap nalRecord
  if buf.length ≤ s.length + 256 then some buf else none

/-- data that `malloc` returned -/
theorem ffAvcFindStartcodeAt_zero (s : Bytes) (p : Nat) :
    ffAvcFindStartcodeAt 0 s p = ffAvcFindStartcode s p := by
  rw [ffAvcFindStartcodeAt, Nat.zero_add]
  rfl

theorem nalUnitsAt_zero (s : Bytes) (n p : Nat) : nalUnitsAt 0 s n p = nalUnits s n p := by
  induction n generalizing p with
  | zero => rfl
  | succ n ih => simp only [nalUnitsAt, nalUnits, ffAvcFindStartcodeAt_zero, ih]

theorem ffAvcParseNalUnitsAt_zero (s : Bytes) : ffAvcParseNalUnitsAt 0 s
    = if (ffAvcParseNalUnits s).length ≤ s.length + 256 then
      some (ffAvcParseNalUnits s) else none := by
  simp only [ffAvcParseNalUnitsAt, ffAvcParseNalUnits, ffAvcFindStartcodeAt_zero, nalUnitsAt_zero]
  rfl

/-! ## what a loop meets -/

theorem byteAt_iff {s : Bytes} {p : Nat} {b : UInt8} (hb : b ≠ 0 ∨ p < s.length) :
    byteAt s p = b ↔ s[p]? = some b := by
  rw [byteAt, List.getD_eq_getElem?_getD]
  cases h : s[p]? with
  | none =>
    have : s.length ≤ p := List.getElem?_eq_none_iff.mp h
    rcases hb with hb | hb
    · simp [hb.symm]
    · omega
  | some c => simp

theorem isStart_iff {s : Bytes} {p : Nat} : isStart s p = true ↔ CodeAt s p := by
  rw [isStart, codeAt_iff, Bool.and_eq_true, Bool.and_eq_true, beq_iff_eq, beq_iff_eq, beq_iff_eq,
    and_assoc, byteAt_iff (b := 1) (Or.inl (by decide))]
  constructor
  · rintro ⟨h0, h1, h2⟩
    have hlt : p + 2 < s.length := (List.getElem?_eq_some_iff.mp h2).1
    exact ⟨(byteAt_iff (Or.inr (by omega))).mp h0, (byteAt_iff (Or.inr (by omega))).mp h1, h2⟩
  · rintro ⟨h0, h1, h2⟩
    have hlt : p + 2 < s.length := (List.getElem?_eq_some_iff.mp h2).1
    exact ⟨(byteAt_iff (Or.inr (by omega))).mpr h0, (byteAt_iff (Or.inr (by omega))).mpr h1, h2⟩

theorem scanBytes_none {s : Bytes} {n p : Nat} (h : ∀ x, p ≤ x → x < p + n → ¬ CodeAt s x) :
    scanBytes s n p = .ok (p + n) := by
  induction n generalizing p with
  | zero => rfl
  | succ n ih =>
    have hp : ¬ isStart s p = true := fun hs => h p le_rfl (by omega) (isStart_iff.mp hs)
    rw [scanBytes, if_neg hp, ih (fun x h1 h2 => h x (by omega) (by omega)), Nat.add_assoc,
      Nat.add_comm 1]

theorem scanBytes_some {s : Bytes} {n p c : Nat} (hc : CodeAt s c) (h1 : p ≤ c) (h2 : c < p + n)
    (h : ∀ x, p ≤ x → x < c → ¬ CodeAt s x) : scanBytes s n p = .error c := by
  induction n generalizing p with
  | zero => omega
  | succ n ih =>
    rw [scanBytes]
    by_cases hp : p = c
    · rw [if_pos (isStart_iff.mpr (hp ▸ hc)), hp]
    · have hno : ¬ isStart s p = true := fun hs => h p le_rfl (by omega) (isStart_iff.mp hs)
      rw [if_neg hno]
      exact ih (by omega) (by omega) (fun x h3 h4 => h x (by omega) h4)

/-- the word at `p`, its first byte the lowest -/
theorem wordAt_toNat {s : Bytes} {p : Nat} (hp : p + 4 ≤ s.length) : (wordAt s p).toNat
    = (byteAt s p).toNat + 256 * ((byteAt s (p + 1)).toNat + 256 * ((byteAt s (p + 2)).toNat
      + 256 * (byteAt s (p + 3)).toNat)) := by
  have hget : ∀ i < 4, byteAt s (p + i) = byteAt (slice s p 4) i := by
    intro i hi
    simp [byteAt, slice, List.getD_eq_getElem?_getD, hi]
  have hlen := slice_length s p 4 hp
  have h0 := hget 0 (by decide)
  rw [Nat.add_zero] at h0
  obtain ⟨a, b, c, d, hs⟩ := List.length_eq_four.mp hlen
  rw [wordAt, h0, hget 1 (by decide), hget 2 (by decide), hget 3 (by decide), hs]
  have ha := a.toNat_lt
  have hb := b.toNat_lt
  have hc := c.toNat_lt
  have hd := d.toNat_lt
  simp only [byteAt, List.getD_cons_zero, List.getD_cons_succ, List.reverse_cons, List.reverse_nil,
    List.nil_append, List.cons_append, ofBe, List.foldl_cons, List.foldl_nil, UInt32.toNat_ofNat']
  omega

/-- the four branches of the loop over words, behind its filter -/
theorem matchWord_eq {s : Bytes} {p : Nat} (hp : p + 6 < s.length) : matchWord s p
    = if CodeAt s p then some (p - 1) else if CodeAt s (p + 1) then some p
      else if CodeAt s (p + 2) then some (p + 1) else if CodeAt s (p + 3) then
        some (p + 2) else none := by
  have hcode : ∀ q, CodeAt s q ↔ byteAt s q = 0 ∧ byteAt s (q + 1) = 0 ∧ byteAt s (q + 2) = 1 := by
    intro q
    rw [← isStart_iff, isStart, Bool.and_eq_true, Bool.and_eq_true, beq_iff_eq, beq_iff_eq,
      beq_iff_eq, and_assoc]
  have hfilter : byteAt s p = 0 ∨ byteAt s (p + 1) = 0 ∨ byteAt s (p + 2) = 0 ∨
      byteAt s (p + 3) = 0 →
      (wordAt s p - 0x01010101) &&& (~~~wordAt s p) &&& 0x80808080 ≠ 0 := by
    intro hz
    have hz' : (byteAt s p).toNat = 0 ∨ (byteAt s (p + 1)).toNat = 0 ∨
        (byteAt s (p + 2)).toNat = 0 ∨
        (byteAt s (p + 3)).toNat = 0 := by
      rcases hz with h | h | h | h <;> simp [h]
    exact zeroByte_filter (UInt8.toNat_lt _) (UInt8.toNat_lt _) (UInt8.toNat_lt _)
      (UInt8.toNat_lt _) hz'
      (wordAt_toNat (by omega))
  simp only [matchWord, hcode, Nat.add_assoc, Nat.reduceAdd]
  by_cases hf : (wordAt s p - 0x01010101) &&& (~~~wordAt s p) &&& 0x80808080 ≠ 0
  · rw [if_pos hf]
    congr 1
    · rw [and_left_comm]
    · congr 1
      congr 1
      rw [and_left_comm]
  · -- no byte of the word is zero
    rw [if_neg hf]
    have h0 : byteAt s p ≠ 0 := fun h => hf (hfilter (Or.inl h))
    have h1 : byteAt s (p + 1) ≠ 0 := fun h => hf (hfilter (Or.inr (Or.inl h)))
    have h2 : byteAt s (p + 2) ≠ 0 := fun h => hf (hfilter (Or.inr (Or.inr (Or.inl h))))
    have h3 : byteAt s (p + 3) ≠ 0 := fun h => hf (hfilter (Or.inr (Or.inr (Or.inr h))))
    simp [h0, h1, h2, h3]

theorem scanWords_none {s : Bytes} {n p : Nat} (hn : n = 0 ∨ p + 4 * n + 2 < s.length)
    (h : ∀ x, p ≤ x → x < p + 4 * n → ¬ CodeAt s x) : scanWords s n p = .ok (p + 4 * n) := by
  induction n generalizing p with
  | zero => rfl
  | succ n ih =>
    have hm : matchWord s p = none := by
      rw [matchWord_eq (by omega), if_neg (h p (by omega) (by omega)),
        if_neg (h (p + 1) (by omega) (by omega)), if_neg (h (p + 2) (by omega) (by omega)),
        if_neg (h (p + 3) (by omega) (by omega))]
    rw [scanWords, hm]
    show scanWords s n (p + 4) = _
    rw [ih (by omega) (fun x h1 h2 => h x (by omega) (by omega))]
    congr 1
    omega

/-- the byte in front of the start code is returned -/
theorem scanWords_some {s : Bytes} {n p c : Nat} (hn : p + 4 * n + 2 < s.length) (hc : CodeAt s c)
    (h1 : p ≤ c) (h2 : c < p + 4 * n) (h : ∀ x, p ≤ x → x < c → ¬ CodeAt s x) :
    scanWords s n p = .error (c - 1) := by
  induction n generalizing p with
  | zero => omega
  | succ n ih =>
    rw [scanWords, matchWord_eq (by omega)]
    by_cases hword : c < p + 4
    · rcases show c = p ∨ c = p + 1 ∨ c = p + 2 ∨ c = p + 3 by omega with rfl | rfl | rfl | rfl
      · rw [if_pos hc]
      · rw [if_neg (h p (by omega) (by omega)), if_pos hc]
        rfl
      · rw [if_neg (h p (by omega) (by omega)), if_neg (h (p + 1) (by omega) (by omega)), if_pos hc]
        rfl
      · rw [if_neg (h p (by omega) (by omega)), if_neg (h (p + 1) (by omega) (by omega)),
          if_neg (h (p + 2) (by omega) (by omega)), if_pos hc]
        rfl
    · rw [if_neg (h p (by omega) (by omega)), if_neg (h (p + 1) (by omega) (by omega)),
        if_neg (h (p + 2) (by omega) (by omega)), if_neg (h (p + 3) (by omega) (by omega))]
      exact ih (by omega) (by omega) (by omega) (fun x h3 h4 => h x (by omega) h4)

/-- the loop over words meets the start code at `c`, of a search from `p` on -/
def ByWord (addr len p c : Nat) : Prop := p + 4 - (addr + p) % 4 ≤ c ∧ c - (addr + c) % 4 + 6 < len

instance (addr len p c : Nat) : Decidable (ByWord addr len p c) :=
  inferInstanceAs (Decidable (_ ∧ _))

theorem ByWord.lt {addr len p c : Nat} (h : ByWord addr len p c) : p < c := by
  have := h.1
  omega

theorem ffAvcFindStartcodeAt_none (addr : Nat) {s : Bytes} {p : Nat}
    (h : ∀ x, p ≤ x → x + 3 < s.length → ¬ CodeAt s x) :
    ffAvcFindStartcodeAt addr s p = s.length := by
  rw [ffAvcFindStartcodeAt]
  rw [scanBytes_none (fun x h1 h2 => h x h1 (by omega))]
  dsimp only
  rw [scanWords_none (by omega) (fun x h1 h2 => h x (by omega) (by omega))]
  dsimp only
  rw [scanBytes_none (fun x h1 h2 => h x (by omega) (by omega))]

/-- **The search.**  A start code that a byte loop meets is returned, of the others the byte in
front. -/
theorem ffAvcFindStartcodeAt_some (addr : Nat) {s : Bytes} {p c : Nat} (hc : CodeAt s c)
    (hpc : p ≤ c) (hlt : c + 3 < s.length) (h : ∀ x, p ≤ x → x < c → ¬ CodeAt s x) :
    ffAvcFindStartcodeAt addr s p = if ByWord addr s.length p c then c - 1 else c := by
  rw [ffAvcFindStartcodeAt]
  by_cases h1 : c < p + 4 - (addr + p) % 4
  · rw [scanBytes_some hc hpc (by omega) h, if_neg (fun hw => by have := hw.1; omega)]
  · have ha : p + (min (p + 4 - (addr + p) % 4) (s.length - 3) - p) = p + 4 - (addr + p) % 4 := by
      omega
    rw [scanBytes_none (fun x h2 h3 => h x h2 (by omega)), ha]
    dsimp only
    generalize hq : p + 4 - (addr + p) % 4 = q at h1
    have halign : (addr + q) % 4 = 0 := by omega
    by_cases h2 : c < q + 4 * ((s.length - 6 - q + 3) / 4)
    · have hw : ByWord addr s.length p c := ⟨by omega, by omega⟩
      rw [scanWords_some (by omega) hc (by omega) h2 (fun x h3 h4 => h x (by omega) h4), if_pos hw]
    · have hw : ¬ ByWord addr s.length p c := fun hw => by have := hw.2; omega
      rw [scanWords_none (by omega) (fun x h3 h4 => h x (by omega) (by omega))]
      dsimp only
      rw [scanBytes_some hc (by omega) (by omega) (fun x h3 h4 => h x (by omega) h4), if_neg hw]

/-! ## the loop over words against the byte loops -/

/-- `ff_avc_find_startcode` with the loop over words removed -/
def plainFindStartcode (addr : Nat) (s : Bytes) (p : Nat) : Nat :=
  let a := p + 4 - (addr + p) % 4
  match scanBytes s (min a (s.length - 3) - p) p with
  | .error r => r
  | .ok p =>
    match scanBytes s (s.length - 3 - p) p with
    | .error r => r
    | .ok _ => s.length

/-- the byte loops return the first start code with a byte behind it, or the end -/
theorem plainFindStartcode_eq (addr : Nat) (s : Bytes) (p : Nat) :
    plainFindStartcode addr s p = (codes s p).head?.getD s.length := by
  have hmod : (addr + p) % 4 < 4 := Nat.mod_lt _ (by decide)
  unfold plainFindStartcode
  dsimp only
  rcases codes_cases s p with ⟨hnil, hnone⟩ | ⟨c, hpc, hlt, hc, hfirst, hcons⟩
  · rw [scanBytes_none (fun x h1 h2 => hnone x h1 (by omega)), hnil]
    dsimp only
    rw [scanBytes_none (fun x h1 h2 => hnone x (by omega) (by omega))]
    rfl
  · rw [hcons]
    by_cases h1 : c < p + 4 - (addr + p) % 4
    · rw [scanBytes_some hc hpc (by omega) hfirst]
      rfl
    · rw [scanBytes_none (fun x h2 h3 => hfirst x h2 (by omega))]
      dsimp only
      rw [scanBytes_some hc (by omega) (by omega) (fun x h2 h3 => hfirst x (by omega) h3)]
      rfl

/-- **Which searches the loop over words leaves alone.**  Without it the function returns the first
start code, or the end.  With it the function returns the same exactly when it does not meet the
first start code; and at two addresses it returns the same exactly when it meets the first start
code at both or at neither. -/
theorem find_startcode_iff (addr : Nat) (s : Bytes) (p : Nat) :
    plainFindStartcode addr s p = (codes s p).head?.getD s.length ∧
      (ffAvcFindStartcodeAt addr s p = plainFindStartcode addr s p
        ↔ ∀ c ∈ (codes s p).head?, ¬ ByWord addr s.length p c) ∧
      ∀ addr', ffAvcFindStartcodeAt addr s p = ffAvcFindStartcodeAt addr' s p
        ↔ ∀ c ∈ (codes s p).head?, (ByWord addr s.length p c ↔ ByWord addr' s.length p c) := by
  refine ⟨plainFindStartcode_eq addr s p, ?_⟩
  rw [plainFindStartcode_eq]
  rcases codes_cases s p with ⟨hnil, hnone⟩ | ⟨c, hpc, hlt, hc, hfirst, hcons⟩
  · rw [hnil]
    refine ⟨⟨fun _ => nofun, fun _ => ffAvcFindStartcodeAt_none addr hnone⟩,
      fun addr' => ⟨fun _ => nofun, fun _ => ?_⟩⟩
    rw [ffAvcFindStartcodeAt_none addr hnone, ffAvcFindStartcodeAt_none addr' hnone]
  · have hfind := fun a => ffAvcFindStartcodeAt_some a hc hpc hlt hfirst
    have hone : ∀ {P : Nat → Prop}, (∀ d ∈ some c, P d) ↔ P c := by
      intro P
      exact ⟨fun h => h c rfl, fun h d hd => Option.some.inj hd ▸ h⟩
    rw [hcons, List.head?_cons, Option.getD_some, hone, hfind addr]
    refine ⟨?_, fun addr' => ?_⟩
    · by_cases hw : ByWord addr s.length p c
      · have hpos := hw.lt
        rw [if_pos hw]
        exact ⟨fun h => by omega, fun h => absurd hw h⟩
      · rw [if_neg hw]
        exact ⟨fun _ => hw, fun _ => rfl⟩
    · rw [hone, hfind addr']
      by_cases hw : ByWord addr s.length p c
      · have hpos := hw.lt
        by_cases hw' : ByWord addr' s.length p c
        · rw [if_pos hw, if_pos hw']
          exact ⟨fun _ => ⟨fun _ => hw', fun _ => hw⟩, fun _ => rfl⟩
        · rw [if_pos hw, if_neg hw']
          exact ⟨fun h => by omega, fun h => absurd (h.mp hw) hw'⟩
      · by_cases hw' : ByWord addr' s.length p c
        · have hpos := hw'.lt
          rw [if_neg hw, if_pos hw']
          exact ⟨fun h => by omega, fun h => absurd (h.mpr hw') hw⟩
        · rw [if_neg hw, if_neg hw']
          exact ⟨fun _ => ⟨fun h => absurd h hw, fun h => absurd h hw'⟩, fun _ => rfl⟩

/-- a start code at 5 of 13 bytes, and one at 1: the loop over words returns the byte in front,
where it meets them -/
theorem find_startcode_early :
    ffAvcFindStartcodeAt 0 [1, 1, 1, 1, 1, 0, 0, 1, 1, 1, 1, 1, 1] 0 = 4 ∧
      plainFindStartcode 0 [1, 1, 1, 1, 1, 0, 0, 1, 1, 1, 1, 1, 1] 0 = 5 ∧
      ffAvcFindStartcodeAt 0 [1, 0, 0, 1, 1, 1, 1, 1] 0 = 1 ∧
      ffAvcFindStartcodeAt 3 [1, 0, 0, 1, 1, 1, 1, 1] 0 = 0 := by
  decide

/-! ## the search and the units are inside the data -/

/-- **The search at any address** does not go back; it ends at the end of the data or in front of a
start code with a byte behind it. -/
theorem ffAvcFindStartcodeAt_spec (addr : Nat) {s : Bytes} {p : Nat} (hp : p ≤ s.length) :
    p ≤ ffAvcFindStartcodeAt addr s p ∧
      (ffAvcFindStartcodeAt addr s p = s.length ∨
        ffAvcFindStartcodeAt addr s p < s.length ∧ Marked s (ffAvcFindStartcodeAt addr s p)) := by
  rcases codes_cases s p with ⟨-, hnone⟩ | ⟨c, h1, h2, hc, hfirst, -⟩
  · rw [ffAvcFindStartcodeAt_none addr hnone]
    exact ⟨hp, Or.inl rfl⟩
  · have hstart := isStart_iff.mpr hc
    rw [isStart, Bool.and_eq_true, beq_iff_eq] at hstart
    have hmark : byteAt s (c + 2) ≠ 0 := by
      rw [hstart.2]
      decide
    rw [ffAvcFindStartcodeAt_some addr hc h1 h2 hfirst]
    by_cases hw : ByWord addr s.length p c
    · have := hw.lt
      rw [if_pos hw]
      exact ⟨by omega, Or.inr ⟨by omega, c + 2, by omega, by omega, hmark⟩⟩
    · rw [if_neg hw]
      exact ⟨h1, Or.inr ⟨by omega, c + 2, by omega, by omega, hmark⟩⟩

theorem nalUnitsAt_by (addr : Nat) (s : Bytes) (n p : Nat) :
    nalUnitsAt addr s n p = nalUnitsBy (ffAvcFindStartcodeAt addr s) s n p := by
  induction n generalizing p with
  | zero => rfl
  | succ n ih => simp only [nalUnitsAt, nalUnitsBy, ih]

theorem searchesAt (addr : Nat) (s : Bytes) : Searches s (ffAvcFindStartcodeAt addr s) :=
  fun _ hp => ffAvcFindStartcodeAt_spec addr hp

/-- **The units together are no longer than the data**, also with a byte for the start code of
each. -/
theorem nalUnitsAt_total (addr : Nat) {s : Bytes} (n : Nat) {p : Nat}
    (hp : p = s.length ∨ p < s.length ∧ Marked s p) :
    p + (((nalUnitsAt addr s n p).map List.length).sum + (nalUnitsAt addr s n p).length)
      ≤ s.length := by
  rw [nalUnitsAt_by]
  exact nalUnitsBy_total (searchesAt addr s) n hp

/-! ## the units -/

/-- where the units are, behind the start code that ends at `q`.  A start code of three bytes that
the loop over words meets takes the last byte of its unit and leaves an empty one. -/
def spans (addr : Nat) (s : Bytes) : Nat → List Nat → List (Nat × Nat)
  | q, [] => [(q, s.length - q)]
  | q, c :: cs =>
    if ByWord addr s.length q c then
      if byteAt s (c - 1) = 0 then (q, c - 1 - q) :: spans addr s (c + 3) cs
      else (q, c - 1 - q) :: (c, 0) :: spans addr s (c + 3) cs
    else (q, c - q) :: spans addr s (c + 3) cs

/-- what the records take more than the data -/
def growth (addr : Nat) (s : Bytes) : Nat → List Nat → Nat
  | _, [] => 0
  | q, c :: cs =>
    (if ByWord addr s.length q c then if byteAt s (c - 1) = 0 then 0 else 4 else 1)
      + growth addr s (c + 3) cs

/-- the units of the data whose first start code ends at `q` -/
def unitsAt (addr : Nat) (s : Bytes) (q : Nat) : List Bytes :=
  (spans addr s q (codes s q)).map fun x => slice s x.1 x.2

theorem skipZeros_code {s : Bytes} {c f : Nat} (hc : CodeAt s c)
    (hf : f = c ∨ f + 1 = c ∧ byteAt s f = 0) (hlt : c + 3 < s.length) :
    skipZeros s (s.length - f) f = c + 3 := by
  have hstart := isStart_iff.mpr hc
  rw [isStart, Bool.and_eq_true, Bool.and_eq_true, beq_iff_eq, beq_iff_eq, beq_iff_eq] at hstart
  obtain ⟨⟨h0, h1⟩, h2⟩ := hstart
  have hcode : ∀ n, skipZeros s (n + 3) c = c + 3 := by
    intro n
    simp [skipZeros, h0, h1, h2]
  rcases hf with rfl | ⟨rfl, hz⟩
  · obtain ⟨n, hn⟩ := Nat.exists_eq_add_of_le' (show 3 ≤ s.length - f by omega)
    rw [hn, hcode]
  · obtain ⟨n, hn⟩ := Nat.exists_eq_add_of_le' (show 4 ≤ s.length - f by omega)
    rw [hn, skipZeros, if_pos hz, hcode]

/-- **The splitting goes from start code to start code.** -/
theorem nalUnitsAt_spans (addr : Nat) {s : Bytes} {n c f : Nat} (hc : CodeAt s c)
    (hlt : c + 3 < s.length) (hf : f = c ∨ f + 1 = c ∧ byteAt s f = 0) (hn : s.length ≤ f + n) :
    nalUnitsAt addr s n f = unitsAt addr s (c + 3) := by
  induction n using Nat.strong_induction_on generalizing c f with
  | _ n ih =>
    cases n with
    | zero => omega
    | succ n =>
      rw [nalUnitsAt, if_pos (by omega), unitsAt]
      dsimp only
      rw [skipZeros_code hc hf hlt]
      rcases codes_cases s (c + 3) with ⟨h0, hnone⟩ | ⟨d, h1, h2, hd, hfirst, hcs⟩
      · have hend : nalUnitsAt addr s n s.length = [] := by
          cases n with
          | zero => rfl
          | succ n => rw [nalUnitsAt, if_neg (lt_irrefl _)]
        rw [h0, ffAvcFindStartcodeAt_none addr hnone, hend]
        rfl
      · rw [hcs, ffAvcFindStartcodeAt_some addr hd h1 h2 hfirst, spans]
        by_cases hw : ByWord addr s.length (c + 3) d
        · rw [if_pos hw, if_pos hw]
          by_cases hz : byteAt s (d - 1) = 0
          · rw [if_pos hz, ih n (Nat.lt_succ_self n) hd h2 (Or.inr ⟨by omega, hz⟩) (by omega)]
            rfl
          · -- the search goes on inside the start code and finds it again
            obtain ⟨m, rfl⟩ : ∃ m, n = m + 1 := ⟨n - 1, by omega⟩
            have hskip : skipZeros s (s.length - (d - 1)) (d - 1) = d := by
              obtain ⟨k, hk⟩ := Nat.exists_eq_add_of_le' (show 1 ≤ s.length - (d - 1) by omega)
              rw [hk, skipZeros, if_neg hz]
              omega
            have hagain : ffAvcFindStartcodeAt addr s d = d := by
              rw [ffAvcFindStartcodeAt_some addr hd le_rfl h2 (fun x h3 h4 => by omega)]
              exact if_neg (fun hw' => absurd hw'.lt (lt_irrefl d))
            rw [if_neg hz, nalUnitsAt, if_pos (by omega)]
            dsimp only
            rw [hskip, hagain, ih m (by omega) hd h2 (Or.inl rfl) (by omega), Nat.sub_self]
            rfl
        · rw [if_neg hw, if_neg hw, ih n (Nat.lt_succ_self n) hd h2 (Or.inl rfl) (by omega)]
          rfl

/-- the splitting of data whose start code is at its first or its second byte -/
theorem nalUnitsAt_first (addr : Nat) {s : Bytes} {c : Nat} (hc : CodeAt s c)
    (hlt : c + 3 < s.length) (h : c = 0 ∨ c = 1 ∧ byteAt s 0 = 0) :
    nalUnitsAt addr s s.length (ffAvcFindStartcodeAt addr s 0) = unitsAt addr s (c + 3) := by
  have hfirst : ∀ x, 0 ≤ x → x < c → ¬ CodeAt s x := fun x _ hx hcode => by
    have := hcode.apart hc hx
    omega
  rw [ffAvcFindStartcodeAt_some addr hc (Nat.zero_le c) hlt hfirst]
  by_cases hw : ByWord addr s.length 0 c
  · rw [if_pos hw]
    have hc1 : c = 1 ∧ byteAt s 0 = 0 := by
      rcases h with h | h
      · exact absurd hw.lt (by omega)
      · exact h
    apply nalUnitsAt_spans addr hc hlt (Or.inr ?_) (by omega)
    rw [hc1.1]
    exact ⟨rfl, hc1.2⟩
  · rw [if_neg hw]
    exact nalUnitsAt_spans addr hc hlt (Or.inl rfl) (by omega)

/-! ## the size of the records -/

/-- the records of the units behind `q` -/
theorem unitsAt_length (addr : Nat) {s : Bytes} {q : Nat} (hq : q ≤ s.length) :
    ((unitsAt addr s q).flatMap nalRecord).length
      = s.length - q + 4 + growth addr s q (codes s q) := by
  rw [unitsAt]
  generalize hcs : codes s q = cs
  induction cs generalizing q with
  | nil =>
    have := slice_length s q (s.length - q) (by omega)
    simp [spans, growth, nalRecord_length, this]
  | cons c cs ih =>
    obtain ⟨h1, h2, -, -, hcs'⟩ := codes_eq_cons hcs
    have hrest := ih h2.le hcs'
    rw [spans, growth]
    by_cases hw : ByWord addr s.length q c
    · have hlt := hw.lt
      have hlen := slice_length s q (c - 1 - q) (by omega)
      by_cases hz : byteAt s (c - 1) = 0
      · simp only [if_pos hw, if_pos hz, List.map_cons, List.flatMap_cons, List.length_append,
          nalRecord_length, hlen, hrest]
        omega
      · have hempty : (slice s c 0).length = 0 := slice_length s c 0 (by omega)
        simp only [if_pos hw, if_neg hz, List.map_cons, List.flatMap_cons, List.length_append,
          nalRecord_length, hlen, hempty, hrest]
        omega
    · have hlen := slice_length s q (c - q) (by omega)
      simp only [if_neg hw, List.map_cons, List.flatMap_cons, List.length_append, nalRecord_length,
        hlen, hrest]
      omega

/-- **The buffer of the parser**: it holds the records when they do not outgrow the data by more
than 256 bytes. -/
theorem ffAvcParseNalUnitsAt_eq (addr : Nat) {s : Bytes} {c : Nat} (hc : CodeAt s c)
    (hlt : c + 3 < s.length) (h : c = 0 ∨ c = 1 ∧ byteAt s 0 = 0) :
    ffAvcParseNalUnitsAt addr s
      = if growth addr s (c + 3) (codes s (c + 3)) + 1 ≤ 256 + c then
        some ((unitsAt addr s (c + 3)).flatMap nalRecord)
        else none := by
  rw [ffAvcParseNalUnitsAt, nalUnitsAt_first addr hc hlt h]
  rw [unitsAt_length addr hlt.le]
  congr 1
  rw [eq_iff_iff]
  omega

end Pluto.Mp4

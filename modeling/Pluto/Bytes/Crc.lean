import Pluto.Bytes.Octets

/-!
# Cyclic redundancy checks

A register of `w` bits takes a message one bit at a time, the most significant bit of a byte first:
it moves up one place, and adds the polynomial where the bit that falls out differs from the bit
of the message.

* `run`             the register behind a string of bits;
* `run_eq_shifts`   a string that is no longer than the register is added to its top, and then
  shifted through;
* `run_byte`        a byte at a time, by what eight shifts make of the top byte;
* `run_self`        a register that is fed with its own bits is zero.
-/

namespace Crc
open Octets

/-! ## messages as bits -/

/-- the most significant bit first -/
def bits8 (b : UInt8) : List Bool := (List.range 8).map fun i => b.toNat.testBit (7 - i)

def bitsOf (s : Bytes) : List Bool := s.flatMap bits8

theorem bits8_length (b : UInt8) : (bits8 b).length = 8 := rfl

theorem bitsOf_cons (b : UInt8) (s : Bytes) : bitsOf (b :: s) = bits8 b ++ bitsOf s := rfl

theorem bitsOf_append (s t : Bytes) : bitsOf (s ++ t) = bitsOf s ++ bitsOf t := List.flatMap_append

theorem bits8_ofNat (v : Nat) :
    bits8 (UInt8.ofNat v) = (List.range 8).map fun i => v.testBit (7 - i) := by
  unfold bits8
  refine List.map_congr_left fun i _ => ?_
  rw [UInt8.toNat_ofNat', Nat.testBit_mod_two_pow, decide_eq_true (by omega : 7 - i < 8),
    Bool.true_and]

/-- the bits of a big-endian field are those of its value -/
theorem bitsOf_be (n v : Nat) :
    bitsOf (be n v) = (List.range (8 * n)).map fun i => v.testBit (8 * n - 1 - i) := by
  induction n generalizing v with
  | zero => rfl
  | succ n ih =>
    have hsplit : List.range (8 * (n + 1))
        = List.range (8 * n) ++ (List.range 8).map (8 * n + ·) := by
      rw [Nat.mul_succ, List.range_add]
    have hlast : bitsOf [UInt8.ofNat v] = bits8 (UInt8.ofNat v) := List.append_nil _
    rw [be, bitsOf_append, ih, hlast, bits8_ofNat, hsplit, List.map_append, List.map_map]
    congr 1
    · refine List.map_congr_left fun i hi => ?_
      have hi := List.mem_range.mp hi
      rw [show v / 256 = v / 2 ^ 8 from rfl, Nat.testBit_div_two_pow]
      congr 1
      omega
    · refine List.map_congr_left fun i hi => ?_
      have hi := List.mem_range.mp hi
      show v.testBit (7 - i) = v.testBit (8 * n + 8 - 1 - (8 * n + i))
      congr 1
      omega

/-! ## the register -/

section
variable {w : Nat} (poly : BitVec w)

/-- one bit of the message -/
def feed (c : BitVec w) (b : Bool) : BitVec w := (c <<< 1) ^^^ (if c.msb ^^ b then poly else 0#w)

def run (c : BitVec w) (s : List Bool) : BitVec w := s.foldl (feed poly) c

/-- a step without a message -/
def shift (c : BitVec w) : BitVec w := (c <<< 1) ^^^ (if c.msb then poly else 0#w)

theorem run_cons (c : BitVec w) (b : Bool) (s : List Bool) :
    run poly c (b :: s) = run poly (feed poly c b) s := rfl

theorem run_append (c : BitVec w) (s t : List Bool) :
    run poly c (s ++ t) = run poly (run poly c s) t :=
  List.foldl_append

/-! ## linearity -/

theorem ite_xor (a b : Bool) :
    (if a ^^ b then poly else 0#w) = (if a then poly else 0#w) ^^^ (if b then poly else 0#w) := by
  cases a <;> cases b <;> simp

theorem shift_xor (a b : BitVec w) : shift poly (a ^^^ b) = shift poly a ^^^ shift poly b := by
  unfold shift
  rw [BitVec.msb_xor, ite_xor, BitVec.shiftLeft_xor_distrib]
  ac_rfl

theorem shifts_xor (n : Nat) (a b : BitVec w) :
    (shift poly)^[n] (a ^^^ b) = (shift poly)^[n] a ^^^ (shift poly)^[n] b := by
  induction n generalizing a b with
  | zero => rfl
  | succ n ih => rw [Function.iterate_succ_apply, shift_xor, ih]; rfl

theorem shifts_zero (n : Nat) : (shift poly)^[n] 0#w = 0#w := by
  have h := shifts_xor poly n 0#w 0#w
  rwa [BitVec.xor_self, BitVec.xor_self] at h

/-! ## the message at the top of the register -/

/-- `w` bits of the string, from the top down -/
def top : List Bool → BitVec w
  | [] => 0#w
  | b :: s => (if b then BitVec.twoPow w (w - 1) else 0#w) ^^^ (top s >>> 1)

theorem getMsbD_top (s : List Bool) (i : Nat) (hi : i < w) :
    (top s : BitVec w).getMsbD i = s.getD i false := by
  induction s generalizing i with
  | nil => simp [top]
  | cons b s ih =>
    have hbit : ((if b then BitVec.twoPow w (w - 1) else 0#w) : BitVec w).getMsbD i
        = (b && decide (i = 0)) := by
      cases b with
      | false => simp
      | true =>
        rw [if_pos rfl, BitVec.getMsbD_eq_getLsbD, BitVec.getLsbD_twoPow, decide_eq_true hi,
          decide_eq_true (by omega : w - 1 < w)]
        simp only [Bool.true_and]
        exact decide_eq_decide.mpr (by omega)
    rw [top, BitVec.getMsbD_xor, hbit, BitVec.getMsbD_ushiftRight]
    cases i with
    | zero => simp
    | succ i =>
      rw [show i + 1 - 1 = i from rfl, ih i (by omega)]
      simp [hi]

/-- **A string is added to the top of the register, and shifted through.** -/
theorem run_eq_shifts (c : BitVec w) (s : List Bool) (h : s.length ≤ w) :
    run poly c s = (shift poly)^[s.length] (c ^^^ top s) := by
  induction s generalizing c with
  | nil => rw [top, BitVec.xor_zero]; rfl
  | cons b s ih =>
    rw [List.length_cons] at h
    -- the rest of the string stands one place lower, and comes up with the shift
    have hrest : shift poly (top s >>> 1) = top s := by
      have hmsb : (top s >>> 1 : BitVec w).msb = false := by
        rw [BitVec.msb_ushiftRight]
        simp
      have hup : (top s >>> 1 <<< 1 : BitVec w) = top s := by
        apply BitVec.eq_of_getMsbD_eq
        intro i hi
        rw [BitVec.getMsbD_shiftLeft, BitVec.getMsbD_ushiftRight]
        by_cases hlast : i + 1 < w
        · simp [hlast]
        · have hi' : s.length ≤ i := by omega
          rw [getMsbD_top s i hi, List.getD_eq_getElem?_getD, List.getElem?_eq_none hi']
          simp [hlast]
      rw [shift, hmsb, hup, if_neg Bool.false_ne_true, BitVec.xor_zero]
    have hbit : feed poly c b = shift poly (c ^^^ if b then BitVec.twoPow w (w - 1) else 0#w) := by
      have hmsb : (if b then BitVec.twoPow w (w - 1) else 0#w).msb = b := by
        cases b with
        | false => simp
        | true => simp [BitVec.msb_twoPow]; omega
      have hout : ((if b then BitVec.twoPow w (w - 1) else 0#w) <<< 1 : BitVec w) = 0#w := by
        cases b with
        | false => simp
        | true =>
          rw [if_pos rfl, BitVec.twoPow_eq, ← BitVec.shiftLeft_add]
          exact BitVec.shiftLeft_eq_zero (by omega)
      rw [feed, shift, BitVec.msb_xor, hmsb, BitVec.shiftLeft_xor_distrib, hout, BitVec.xor_zero]
    rw [run_cons, ih _ (by omega), List.length_cons, Function.iterate_succ_apply, top,
      ← BitVec.xor_assoc, shift_xor, ← hbit, hrest]

/-! ## a byte at a time -/

/-- bits that are not yet at the top only move up -/
theorem shifts_clear (n : Nat) (x : BitVec w) (h : ∀ i < n, x.getMsbD i = false) :
    (shift poly)^[n] x = x <<< n := by
  induction n generalizing x with
  | zero => rw [BitVec.shiftLeft_zero]; rfl
  | succ n ih =>
    have hmsb : x.msb = false := h 0 (Nat.succ_pos n)
    have hshift : shift poly x = x <<< 1 := by
      rw [shift, hmsb, if_neg Bool.false_ne_true, BitVec.xor_zero]
    rw [Function.iterate_succ_apply, hshift, ih, ← BitVec.shiftLeft_add, Nat.add_comm]
    intro i hi
    rw [BitVec.getMsbD_shiftLeft]
    exact h (i + 1) (by omega)

/-- what stands below the top `n` bits moves up, what stands in them goes through the register -/
theorem shifts_split (n : Nat) (h : n ≤ w) (x : BitVec w) :
    (shift poly)^[n] x = (x <<< n) ^^^ (shift poly)^[n] (x >>> (w - n) <<< (w - n)) := by
  have hhigh : (x >>> (w - n) <<< (w - n) : BitVec w) <<< n = 0#w := by
    rw [← BitVec.shiftLeft_add]
    exact BitVec.shiftLeft_eq_zero (by omega)
  have hlow : ∀ i < n, (x ^^^ (x >>> (w - n) <<< (w - n))).getMsbD i = false := by
    intro i hi
    rw [BitVec.getMsbD_xor, BitVec.getMsbD_shiftLeft, BitVec.getMsbD_ushiftRight]
    simp [show i + (w - n) < w by omega]
  calc (shift poly)^[n] x
      = (shift poly)^[n] ((x ^^^ (x >>> (w - n) <<< (w - n))) ^^^ (x >>> (w - n) <<< (w - n))) := by
        rw [BitVec.xor_assoc, BitVec.xor_self, BitVec.xor_zero]
    _ = ((x ^^^ (x >>> (w - n) <<< (w - n))) <<< n) ^^^ (shift poly)^[n]
        (x >>> (w - n) <<< (w - n)) := by
        rw [shifts_xor, shifts_clear poly n _ hlow]
    _ = (x <<< n) ^^^ (shift poly)^[n] (x >>> (w - n) <<< (w - n)) := by
        rw [BitVec.shiftLeft_xor_distrib, hhigh, BitVec.xor_zero]

theorem top_bits8 (h : 8 ≤ w) (b : UInt8) :
    top (bits8 b) = (BitVec.ofNat w b.toNat <<< (w - 8) : BitVec w) := by
  apply BitVec.eq_of_getMsbD_eq
  intro i hi
  rw [getMsbD_top _ i hi, BitVec.getMsbD_shiftLeft, BitVec.getMsbD_eq_getLsbD, BitVec.getLsbD_ofNat]
  by_cases h8 : i < 8
  · have hbit : (bits8 b).getD i false = b.toNat.testBit (7 - i) := by
      rw [bits8, List.getD_eq_getElem?_getD, List.getElem?_map, List.getElem?_range h8]
      rfl
    rw [hbit, show w - 1 - (i + (w - 8)) = 7 - i by omega,
      decide_eq_true (by omega : i + (w - 8) < w), decide_eq_true (by omega : 7 - i < w),
      Bool.true_and, Bool.true_and]
  · rw [List.getD_eq_getElem?_getD, List.getElem?_eq_none (by rw [bits8_length]; omega)]
    simp [show ¬ i + (w - 8) < w by omega]

/-- **A byte of the message**: what the register holds below its top byte moves up, and its top byte
enters with that of the message. -/
theorem run_byte (h : 8 ≤ w) (c : BitVec w) (b : UInt8) :
    run poly c (bits8 b)
      = (c <<< 8) ^^^ (shift poly)^[8]
        (((c >>> (w - 8)) ^^^ BitVec.ofNat w b.toNat) <<< (w - 8)) := by
  have hb : (BitVec.ofNat w b.toNat <<< (w - 8) : BitVec w) <<< 8 = 0#w := by
    rw [← BitVec.shiftLeft_add]
    exact BitVec.shiftLeft_eq_zero (by omega)
  have hback : (BitVec.ofNat w b.toNat <<< (w - 8) : BitVec w) >>> (w - 8)
      = BitVec.ofNat w b.toNat := by
    apply BitVec.eq_of_getLsbD_eq
    intro i hi
    rw [BitVec.getLsbD_ushiftRight, BitVec.getLsbD_shiftLeft, BitVec.getLsbD_ofNat,
      BitVec.getLsbD_ofNat, Nat.add_sub_cancel_left]
    by_cases h8 : i < 8
    · simp [hi, show w - 8 + i < w by omega]
    · have hb : b.toNat.testBit i = false :=
        Nat.testBit_lt_two_pow (b.toNat_lt.trans_le (Nat.pow_le_pow_right (by norm_num) (by omega)))
      simp [hb]
  rw [run_eq_shifts poly c _ (by rw [bits8_length]; exact h), bits8_length, top_bits8 h,
    shifts_split poly 8 h, BitVec.shiftLeft_xor_distrib, hb, BitVec.xor_zero,
    BitVec.ushiftRight_xor_distrib,
    hback]

/-! ## the register behind its own bits -/

/-- **A register that is fed with its own bits is zero.** -/
theorem run_self (c : BitVec w) : run poly c ((List.range w).map fun i => c.getMsbD i) = 0#w := by
  have hlen : ((List.range w).map fun i => c.getMsbD i).length = w := by
    rw [List.length_map, List.length_range]
  have htop : top ((List.range w).map fun i => c.getMsbD i) = c := by
    apply BitVec.eq_of_getMsbD_eq
    intro i hi
    rw [getMsbD_top _ i hi, List.getD_eq_getElem?_getD, List.getElem?_map, List.getElem?_range hi]
    rfl
  rw [run_eq_shifts poly c _ hlen.le, htop, BitVec.xor_self, shifts_zero]

/-- a message with its check value behind it, in big-endian order, leaves the register at zero -/
theorem run_check (n : Nat) (poly c : BitVec (8 * n)) (s : Bytes) :
    run poly c (bitsOf (s ++ be n (run poly c (bitsOf s)).toNat)) = 0#(8 * n) := by
  have hbits : bitsOf (be n (run poly c (bitsOf s)).toNat)
      = (List.range (8 * n)).map fun i => (run poly c (bitsOf s)).getMsbD i := by
    rw [bitsOf_be]
    refine List.map_congr_left fun i hi => ?_
    have hi := List.mem_range.mp hi
    rw [BitVec.getMsbD_eq_getLsbD, decide_eq_true hi, Bool.true_and]
    rfl
  rw [bitsOf_append, run_append, hbits, run_self]

end

end Crc

import Mathlib.Data.List.GetD
import Mathlib.Tactic

/-!
# Octet strings

Byte strings as lists, and the two operations on them that a format or a file is made of:

* `be n v`          the `n`-byte big-endian field of `v`, read back by `ofBe` (`ofBe_be`);
* `slice s p n`     the `n` bytes of `s` at offset `p`;
* `overlay s p b`   `s` after the bytes `b` were stored at offset `p`: a gap is filled with
                    zeros, an empty store changes nothing.

Two stores one after the other are one store of the concatenation (`overlay_append`); a store
into the middle of a string whose parts are known is `overlay_mid`.
-/

namespace Octets

abbrev Bytes := List UInt8

/-! ## big-endian fields -/

/-- the `n`-byte big-endian field of `v` (its low `8 * n` bits) -/
def be : Nat → Nat → Bytes
  | 0, _ => []
  | n + 1, v => be n (v / 256) ++ [UInt8.ofNat v]

/-- the value of a big-endian field -/
def ofBe (s : Bytes) : Nat := s.foldl (fun acc b => acc * 256 + b.toNat) 0

@[simp] theorem be_length (n v : Nat) : (be n v).length = n := by
  induction n generalizing v with
  | zero => rfl
  | succ n ih => rw [be, List.length_append, ih]; rfl

theorem ofBe_append_singleton (s : Bytes) (b : UInt8) :
    ofBe (s ++ [b]) = ofBe s * 256 + b.toNat := by
  simp [ofBe, List.foldl_append]

theorem ofBe_be (n v : Nat) (h : v < 256 ^ n) : ofBe (be n v) = v := by
  induction n generalizing v with
  | zero =>
    have hv : v = 0 := by simpa using h
    rw [hv]; rfl
  | succ n ih =>
    have hq : v / 256 < 256 ^ n := by
      rw [Nat.div_lt_iff_lt_mul (by norm_num), ← pow_succ]; exact h
    rw [be, ofBe_append_singleton, ih _ hq, UInt8.toNat_ofNat']
    omega

/-- only the low bits of the value are stored -/
theorem be_mod (n v : Nat) : be n (v % 256 ^ n) = be n v := by
  induction n generalizing v with
  | zero => rfl
  | succ n ih =>
    have hq : v % 256 ^ (n + 1) / 256 = v / 256 % 256 ^ n := by
      rw [pow_succ, mul_comm, Nat.mod_mul_right_div_self]
    have hr : UInt8.ofNat (v % 256 ^ (n + 1)) = UInt8.ofNat v := by
      apply UInt8.toNat_inj.mp
      rw [UInt8.toNat_ofNat', UInt8.toNat_ofNat', Nat.mod_mod_of_dvd]
      exact Dvd.intro_left (256 ^ n) (pow_succ 256 n).symm
    rw [be, be, hq, ih, hr]

/-! ## slices -/

/-- the `n` bytes of `s` at offset `p` -/
def slice (s : Bytes) (p n : Nat) : Bytes := (s.drop p).take n

theorem slice_append_left (s t : Bytes) (p n : Nat) (h : p + n ≤ s.length) :
    slice (s ++ t) p n = slice s p n := by
  unfold slice
  rw [List.drop_append_of_le_length (by omega), List.take_append_of_le_length]
  rw [List.length_drop]
  omega

theorem slice_append_right (s t : Bytes) (p n : Nat) (h : s.length ≤ p) :
    slice (s ++ t) p n = slice t (p - s.length) n := by
  unfold slice
  rw [List.drop_append, List.drop_eq_nil_of_le h, List.nil_append]

theorem slice_length (s : Bytes) (p n : Nat) (h : p + n ≤ s.length) : (slice s p n).length = n := by
  rw [slice, List.length_take, List.length_drop]
  omega

theorem slice_mid (s b t : Bytes) : slice (s ++ b ++ t) s.length b.length = b := by
  rw [slice, List.append_assoc, List.drop_left, List.take_left]

theorem slice_slice (s : Bytes) (p n q m : Nat) (h : q + m ≤ n) :
    slice (slice s p n) q m = slice s (p + q) m := by
  unfold slice
  rw [List.drop_take, List.take_take, List.drop_drop]
  congr 1
  omega

theorem slice_add (s : Bytes) (p n k : Nat) :
    slice s p (n + k) = slice s p n ++ slice s (p + n) k := by
  unfold slice
  rw [List.take_add, List.drop_drop]

/-! ## stores -/

def zeros (n : Nat) : Bytes := List.replicate n 0

@[simp] theorem zeros_length (n : Nat) : (zeros n).length = n := List.length_replicate

@[simp] theorem zeros_zero : zeros 0 = [] := rfl

theorem ofBe_zeros (n : Nat) : ofBe (zeros n) = 0 := by
  induction n with
  | zero => rfl
  | succ n ih =>
    show ofBe (List.replicate (n + 1) 0) = 0
    rw [List.replicate_succ', ofBe_append_singleton]
    show ofBe (zeros n) * 256 + 0 = 0
    rw [ih]

/-- `s` after the bytes `b` were stored at offset `p` -/
def overlay (s : Bytes) (p : Nat) (b : Bytes) : Bytes :=
  if b = [] then s
  else (s ++ zeros (p - s.length)).take p ++ b ++ s.drop (p + b.length)

@[simp] theorem overlay_nil (s : Bytes) (p : Nat) : overlay s p [] = s := if_pos rfl

theorem overlay_ne_nil (s : Bytes) (p : Nat) {b : Bytes} (h : b ≠ []) :
    overlay s p b = (s ++ zeros (p - s.length)).take p ++ b ++ s.drop (p + b.length) := if_neg h

theorem overlay_head_length (s : Bytes) (p : Nat) :
    ((s ++ zeros (p - s.length)).take p).length = p := by
  rw [List.length_take, List.length_append, zeros_length]
  omega

theorem overlay_length (s : Bytes) (p : Nat) {b : Bytes} (h : b ≠ []) :
    (overlay s p b).length = max s.length (p + b.length) := by
  rw [overlay_ne_nil s p h, List.length_append, List.length_append, overlay_head_length,
    List.length_drop]
  omega

/-- a store past the end, the gap filled with zeros -/
theorem overlay_gap (s b : Bytes) (p : Nat) (h : s.length ≤ p) (hb : b ≠ []) :
    overlay s p b = s ++ zeros (p - s.length) ++ b := by
  have h1 : (s ++ zeros (p - s.length)).take p = s ++ zeros (p - s.length) := by
    apply List.take_of_length_le
    rw [List.length_append, zeros_length]
    omega
  rw [overlay_ne_nil s p hb, h1, List.drop_eq_nil_of_le (by omega), List.append_nil]

/-- a store at the end -/
theorem overlay_end (s b : Bytes) : overlay s s.length b = s ++ b := by
  by_cases hb : b = []
  · rw [hb, overlay_nil, List.append_nil]
  · rw [overlay_gap s b _ le_rfl hb, Nat.sub_self, zeros_zero, List.append_nil]

/-- a store into the middle -/
theorem overlay_mid (s m t b : Bytes) (h : m.length = b.length) :
    overlay (s ++ m ++ t) s.length b = s ++ b ++ t := by
  by_cases hb : b = []
  · have hm : m = [] := List.eq_nil_of_length_eq_zero (by rw [h, hb]; rfl)
    rw [hb, overlay_nil, hm]
  · rw [overlay_ne_nil _ _ hb]
    have h0 : s.length - (s ++ m ++ t).length = 0 := by
      rw [List.length_append, List.length_append]; omega
    have h1 : (s ++ m ++ t).take s.length = s := by rw [List.append_assoc, List.take_left]
    have h2 : (s ++ m ++ t).drop (s.length + b.length) = t := by
      rw [← h, ← List.length_append, List.drop_left]
    rw [h0, zeros_zero, List.append_nil, h1, h2]

/-- two stores one after the other are one store -/
theorem overlay_append (s a b : Bytes) (p : Nat) :
    overlay (overlay s p a) (p + a.length) b = overlay s p (a ++ b) := by
  by_cases ha : a = []
  · rw [ha, overlay_nil, List.length_nil, Nat.add_zero, List.nil_append]
  by_cases hb : b = []
  · rw [hb, overlay_nil, List.append_nil]
  have hab : a ++ b ≠ [] := fun h => ha (List.append_eq_nil_iff.mp h).1
  have hx : ((s ++ zeros (p - s.length)).take p ++ a).length = p + a.length := by
    rw [List.length_append, overlay_head_length]
  -- the second store starts right behind the bytes of the first one
  have hz : p + a.length - (overlay s p a).length = 0 := by
    rw [overlay_length s p ha]; omega
  have hhead : (overlay s p a).take (p + a.length) = (s ++ zeros (p - s.length)).take p ++ a := by
    rw [overlay_ne_nil s p ha, ← hx, List.take_left]
  have htail : (overlay s p a).drop (p + a.length + b.length) = s.drop (p + (a ++ b).length) := by
    rw [overlay_ne_nil s p ha, ← List.drop_drop, ← hx, List.drop_left, List.drop_drop, hx,
      List.length_append, Nat.add_assoc]
  rw [overlay_ne_nil _ _ hb, hz, zeros_zero, List.append_nil, hhead, htail,
    overlay_ne_nil s p hab, List.append_assoc, List.append_assoc, List.append_assoc,
    List.append_assoc]

/-! ## other lengths -/

/-- `s` cut at `n`, or padded with zeros up to there -/
def resized (s : Bytes) (n : Nat) : Bytes := (s ++ zeros (n - s.length)).take n

@[simp] theorem resized_length (s : Bytes) (n : Nat) : (resized s n).length = n :=
  overlay_head_length s n

/-- two strings with one length and the same bytes -/
theorem ext_getD {s t : Bytes} (hlen : s.length = t.length) (h : ∀ i, s.getD i 0 = t.getD i 0) :
    s = t := by
  apply List.ext_getElem hlen
  intro i hs ht
  have hi := h i
  rwa [List.getD_eq_getElem _ _ hs, List.getD_eq_getElem _ _ ht] at hi

theorem zeros_getD (n i : Nat) : (zeros n).getD i 0 = 0 := by
  rw [zeros, List.getD_eq_getElem?_getD, List.getElem?_getD_replicate_default_eq]

/-- behind its end a string has only zeros -/
theorem padded_getD (s : Bytes) (n i : Nat) : (s ++ zeros n).getD i 0 = s.getD i 0 := by
  by_cases hi : i < s.length
  · exact List.getD_append _ _ _ _ hi
  · rw [List.getD_append_right _ _ _ _ (by omega), zeros_getD, List.getD_eq_default _ _ (by omega)]

theorem take_getD (s : Bytes) (n i : Nat) :
    (s.take n).getD i 0 = if i < n then s.getD i 0 else 0 := by
  rw [List.getD_eq_getElem?_getD, List.getD_eq_getElem?_getD, List.getElem?_take]
  split <;> rfl

theorem resized_getD (s : Bytes) (n i : Nat) :
    (resized s n).getD i 0 = if i < n then s.getD i 0 else 0 := by
  rw [resized, take_getD, padded_getD]

theorem overlay_getD (s b : Bytes) (p i : Nat) :
    (overlay s p b).getD i 0 = if p ≤ i ∧ i < p + b.length then
      b.getD (i - p) 0 else s.getD i 0 := by
  by_cases hb : b = []
  · rw [hb, overlay_nil, if_neg (by rw [List.length_nil]; omega)]
  have hhead := overlay_head_length s p
  rw [overlay_ne_nil s p hb, List.append_assoc]
  by_cases hi : i < p
  · rw [List.getD_append _ _ _ _ (by omega), take_getD, padded_getD, if_pos hi, if_neg (by omega)]
  rw [List.getD_append_right _ _ _ _ (by omega), hhead]
  by_cases hin : i < p + b.length
  · rw [List.getD_append _ _ _ _ (by omega), if_pos (by omega)]
  · rw [List.getD_append_right _ _ _ _ (by omega), if_neg (by omega), List.getD_eq_getElem?_getD,
      List.getElem?_drop, ← List.getD_eq_getElem?_getD]
    congr 1
    omega

/-- a store behind a cut does not see whether it was there before -/
theorem overlay_resized (s b : Bytes) (p n : Nat) :
    overlay (resized (overlay s p b) n) p b = overlay (resized s n) p b := by
  by_cases hb : b = []
  · rw [hb, overlay_nil]
    exact (overlay_nil _ _).symm
  apply ext_getD
  · rw [overlay_length _ _ hb, overlay_length _ _ hb, resized_length, resized_length]
  · intro i
    rw [overlay_getD, overlay_getD, resized_getD, resized_getD, overlay_getD]
    split_ifs <;> rfl

/-- the bytes in front of a store stay -/
theorem slice_overlay_before (s b : Bytes) (p q n : Nat) (h : q + n ≤ p) (hs : q + n ≤ s.length) :
    slice (overlay s p b) q n = slice s q n := by
  by_cases hb : b = []
  · rw [hb, overlay_nil]
  · have hhead := overlay_head_length s p
    rw [overlay_ne_nil s p hb, List.append_assoc, slice_append_left _ _ _ _ (by omega), slice,
      slice, List.drop_take, List.take_take, Nat.min_eq_left (by omega),
      List.drop_append_of_le_length (by omega),
      List.take_append_of_le_length (by rw [List.length_drop]; omega)]

/-- the bytes behind a store stay -/
theorem slice_overlay_behind (s b : Bytes) (p q n : Nat) (h : p + b.length ≤ q) :
    slice (overlay s p b) q n = slice s q n := by
  by_cases hb : b = []
  · rw [hb, overlay_nil]
  · have hhead := overlay_head_length s p
    have hlen : ((s ++ zeros (p - s.length)).take p ++ b).length = p + b.length := by
      rw [List.length_append, hhead]
    rw [overlay_ne_nil s p hb, slice_append_right _ _ _ _ (by omega), hlen, slice, slice,
      List.drop_drop, Nat.add_sub_cancel' h]

/-- the bytes of a store are there -/
theorem slice_overlay_inside (s b : Bytes) (p q n : Nat) (h : q + n ≤ b.length) :
    slice (overlay s p b) (p + q) n = slice b q n := by
  by_cases hb : b = []
  · have h0 : q + n = 0 := by simpa [hb] using h
    have hn : n = 0 := by omega
    rw [hn, slice, slice, List.take_zero, List.take_zero]
  · have hhead := overlay_head_length s p
    rw [overlay_ne_nil s p hb, List.append_assoc, slice_append_right _ _ _ _ (by omega), hhead,
      Nat.add_sub_cancel_left, slice_append_left _ _ _ _ h]

end Octets

import Pluto.Bytes.Octets

/-!
# Byte streams with start codes

A byte stream is a list of payloads, each behind a start code of three or of four bytes.

* `CodeAt s p`     the three bytes `00 00 01` at `p`;
* `codes s q`      the start codes from `q` on that have a byte behind them (`codes_cons`,
  `codes_nil`);
* `stream l`       the payloads of `l` behind their start codes;
* `Payload u`      `u` can stand in a stream: the next start code is the one behind it
  (`payload_codes`).

A reader that goes through the stream by words asks first whether a word has a zero byte
(`zeroByte_filter`).
-/

namespace AnnexB
open Octets

/-! ## start codes -/

def CodeAt (s : Bytes) (p : Nat) : Prop := slice s p 3 = [0, 0, 1]

instance (s : Bytes) (p : Nat) : Decidable (CodeAt s p) := inferInstanceAs (Decidable (_ = _))

/-- the start codes from `q` on with a byte behind them -/
def codes (s : Bytes) (q : Nat) : List Nat := (List.range' q (s.length - 3 - q)).filter (CodeAt s ·)

theorem codeAt_iff {s : Bytes} {p : Nat} :
    CodeAt s p ↔ s[p]? = some 0 ∧ s[p + 1]? = some 0 ∧ s[p + 2]? = some 1 := by
  have h0 : s[p]? = (s.drop p)[0]? := by simp
  have h1 : s[p + 1]? = (s.drop p)[1]? := by simp
  have h2 : s[p + 2]? = (s.drop p)[2]? := by simp
  rw [CodeAt, slice, h0, h1, h2]
  generalize s.drop p = t
  rcases t with _ | ⟨a, _ | ⟨b, _ | ⟨c, t⟩⟩⟩
  · simp
  · simp
  · simp
  · simp

/-- two start codes do not share a byte -/
theorem CodeAt.apart {s : Bytes} {c d : Nat} (hc : CodeAt s c) (hd : CodeAt s d) (h : c < d) :
    c + 3 ≤ d := by
  obtain ⟨-, -, h2⟩ := codeAt_iff.mp hc
  obtain ⟨h3, h4, -⟩ := codeAt_iff.mp hd
  by_contra hn
  rcases show d = c + 1 ∨ d = c + 2 by omega with rfl | rfl
  · rw [Nat.add_assoc, h2] at h4
    exact absurd h4 (by decide)
  · rw [h2] at h3
    exact absurd h3 (by decide)

theorem codes_nil {s : Bytes} {q : Nat} (h : ∀ x, q ≤ x → x + 3 < s.length → ¬ CodeAt s x) :
    codes s q = [] := by
  rw [codes, List.filter_eq_nil_iff]
  intro x hx
  rw [List.mem_range'_1] at hx
  simpa using h x hx.1 (by omega)

/-- behind the first start code the list goes on with the next byte but two -/
theorem codes_cons {s : Bytes} {q c : Nat} (hc : CodeAt s c) (hqc : q ≤ c) (hlt : c + 3 < s.length)
    (h : ∀ x, q ≤ x → x < c → ¬ CodeAt s x) : codes s q = c :: codes s (c + 3) := by
  have hn : s.length - 3 - q
      = (c - q) + (1 + (min 2 (s.length - 4 - c) + (s.length - 3 - (c + 3)))) := by omega
  have hfront : (List.range' q (c - q)).filter (CodeAt s ·) = [] := by
    rw [List.filter_eq_nil_iff]
    intro x hx
    rw [List.mem_range'_1] at hx
    simpa using h x hx.1 (by omega)
  have hinside : (List.range' (c + 1) (min 2 (s.length - 4 - c))).filter (CodeAt s ·) = [] := by
    rw [List.filter_eq_nil_iff]
    intro x hx
    rw [List.mem_range'_1] at hx
    have hx' : ¬ CodeAt s x := fun hd => by have := hc.apart hd (by omega); omega
    simpa using hx'
  have hrest : List.range' (c + 1 + min 2 (s.length - 4 - c)) (s.length - 3 - (c + 3))
      = List.range' (c + 3) (s.length - 3 - (c + 3)) := by
    by_cases h2 : s.length - 3 - (c + 3) = 0
    · rw [h2]; rfl
    · congr 1; omega
  rw [codes, hn, ← List.range'_append_1, List.filter_append, hfront, List.nil_append,
    Nat.add_sub_cancel' hqc, ← List.range'_append_1, List.filter_append, ← List.range'_append_1,
    List.filter_append, hinside, hrest]
  simp [codes, hc]

/-- there is a next start code or there is none -/
theorem codes_cases (s : Bytes) (q : Nat) :
    (codes s q = [] ∧ ∀ x, q ≤ x → x + 3 < s.length → ¬ CodeAt s x) ∨
      ∃ c, q ≤ c ∧ c + 3 < s.length ∧ CodeAt s c ∧ (∀ x, q ≤ x → x < c → ¬ CodeAt s x) ∧
        codes s q = c :: codes s (c + 3) := by
  by_cases h : ∃ x, q ≤ x ∧ x + 3 < s.length ∧ CodeAt s x
  · right
    obtain ⟨h1, h2, h3⟩ := Nat.find_spec h
    have hfirst : ∀ x, q ≤ x → x < Nat.find h → ¬ CodeAt s x := by
      intro x hx hlt hcode
      exact Nat.find_min h hlt ⟨hx, by omega, hcode⟩
    exact ⟨Nat.find h, h1, h2, h3, hfirst, codes_cons h3 h1 h2 hfirst⟩
  · left
    have hnone : ∀ x, q ≤ x → x + 3 < s.length → ¬ CodeAt s x := fun x h1 h2 h3 => h ⟨x, h1, h2, h3⟩
    exact ⟨codes_nil hnone, hnone⟩

/-- the head of the list is the first start code, the tail is the list behind it -/
theorem codes_eq_cons {s : Bytes} {q c : Nat} {cs : List Nat} (h : codes s q = c :: cs) :
    q ≤ c ∧ c + 3 < s.length ∧ CodeAt s c ∧ (∀ x, q ≤ x → x < c → ¬ CodeAt s x) ∧
      codes s (c + 3) = cs := by
  rcases codes_cases s q with ⟨h0, -⟩ | ⟨d, h1, h2, h3, h4, h5⟩
  · rw [h0] at h
    cases h
  · rw [h5] at h
    obtain ⟨rfl, hcs⟩ := List.cons.inj h
    exact ⟨h1, h2, h3, h4, hcs⟩

/-! ## streams -/

def startCode : Bool → Bytes
  | true => [0, 0, 0, 1]
  | false => [0, 0, 1]

theorem startCode_length (long : Bool) :
    (startCode long).length = 3 + long.toNat := by cases long <;> rfl

/-- payloads behind their start codes; `true` is a start code of four bytes -/
def stream (l : List (Bool × Bytes)) : Bytes := l.flatMap fun x => startCode x.1 ++ x.2

theorem stream_cons (x : Bool × Bytes) (l : List (Bool × Bytes)) :
    stream (x :: l) = startCode x.1 ++ (x.2 ++ stream l) := by
  rw [stream, List.flatMap_cons, List.append_assoc]
  rfl

structure Payload (u : Bytes) : Prop where
  ne_nil : u ≠ []
  no_code : ∀ p, ¬ CodeAt u p
  last : u.getLast? ≠ some 0

theorem payload_iff {u : Bytes} :
    Payload u ↔ u ≠ [] ∧ (∀ p < u.length, ¬ CodeAt u p) ∧ u.getLast? ≠ some 0 := by
  constructor
  · intro h
    exact ⟨h.ne_nil, fun p _ => h.no_code p, h.last⟩
  · rintro ⟨h1, h2, h3⟩
    refine ⟨h1, fun p hc => ?_, h3⟩
    exact h2 p (List.getElem?_eq_some_iff.mp (codeAt_iff.mp hc).1).1 hc

instance (u : Bytes) : Decidable (Payload u) := decidable_of_iff' _ payload_iff

/-- a start code that begins in a payload is in it -/
theorem Payload.not_across {a u t : Bytes} (hu : Payload u) {x : Nat} (h1 : a.length ≤ x)
    (h2 : x < a.length + u.length) : ¬ CodeAt (a ++ (u ++ t)) x := by
  intro hc
  by_cases hin : x + 3 ≤ a.length + u.length
  · apply hu.no_code (x - a.length)
    rwa [CodeAt, slice_append_right _ _ _ _ h1, slice_append_left _ _ _ _ (by omega)] at hc
  · -- one of its zeros is the last byte of the payload
    obtain ⟨h3, h4, -⟩ := codeAt_iff.mp hc
    have hlast : (a ++ (u ++ t))[a.length + u.length - 1]? = some 0 := by
      rcases show a.length + u.length - 1 = x ∨ a.length + u.length - 1 = x + 1 by omega with h | h
      · rw [h]; exact h3
      · rw [h]; exact h4
    have hpos := List.length_pos_iff.mpr hu.ne_nil
    rw [List.getElem?_append_right (by omega), List.getElem?_append_left (by omega)] at hlast
    apply hu.last
    rw [List.getLast?_eq_getElem?, ← hlast]
    congr 1
    omega

/-- the start code is where the stream says -/
theorem codeAt_stream (a t : Bytes) (long : Bool) :
    CodeAt (a ++ (startCode long ++ t)) (a.length + long.toNat) ∧
      ∀ x, a.length ≤ x → x < a.length + long.toNat → ¬ CodeAt (a ++ (startCode long ++ t)) x := by
  cases long with
  | true =>
    constructor
    · rw [CodeAt, slice_append_right _ _ _ _ (Nat.le_add_right _ _), Nat.add_sub_cancel_left]
      rfl
    · intro x h1 h2
      have hx : x = a.length := by
        have : true.toNat = 1 := rfl
        omega
      rw [CodeAt, slice_append_right _ _ _ _ h1, hx, Nat.sub_self]
      intro h
      exact absurd (List.cons.inj (List.cons.inj (List.cons.inj h).2).2).1 (by decide)
  | false =>
    constructor
    · rw [CodeAt, slice_append_right _ _ _ _ (Nat.le_add_right _ _), Nat.add_sub_cancel_left]
      rfl
    · intro x h1 h2
      have : false.toNat = 0 := rfl
      omega

/-- **The start codes behind a payload are those of the rest of the stream.** -/
theorem payload_codes (a : Bytes) (long : Bool) (l : List (Bool × Bytes)) {u v : Bytes}
    (hu : Payload u) (hv : v ≠ []) :
    codes (a ++ (u ++ stream ((long, v) :: l))) a.length
      = (a.length + u.length + long.toNat)
        :: codes (a ++ (u ++ stream ((long, v) :: l))) (a.length + u.length + long.toNat + 3) := by
  have hsplit : a ++ (u ++ stream ((long, v) :: l))
      = (a ++ u) ++ (startCode long ++ (v ++ stream l)) := by
    rw [stream_cons, List.append_assoc]
  have hlen : (a ++ u).length = a.length + u.length := List.length_append
  obtain ⟨hcode, hfirst⟩ := codeAt_stream (a ++ u) (v ++ stream l) long
  rw [← hsplit, hlen] at hcode hfirst
  have hv' := List.length_pos_iff.mpr hv
  apply codes_cons hcode (by omega)
  · rw [hsplit, List.length_append, hlen, List.length_append, List.length_append, startCode_length]
    omega
  · intro x h1 h2
    by_cases hin : x < a.length + u.length
    · exact hu.not_across h1 hin
    · exact hfirst x (by omega) h2

/-- behind the last payload there is none -/
theorem last_codes {a u : Bytes} (hu : Payload u) : codes (a ++ u) a.length = [] := by
  apply codes_nil
  intro x h1 h2
  have := hu.not_across (t := []) h1 (by rw [List.length_append] at h2; omega)
  rwa [List.append_nil] at this

/-! ## words with a zero byte -/

/-- a bit of the filter: set in the difference and not in the word -/
theorem filter_ne_zero {x y : UInt32} (k : Nat) (hk : (0x80808080 : UInt32).toNat.testBit k = true)
    (hy : y.toNat.testBit k = true) (hx : x.toNat.testBit k = false) :
    y &&& ~~~x &&& 0x80808080 ≠ 0 := by
  intro h
  have hk32 : k < 32 := by
    by_contra hn
    have : (0x80808080 : UInt32).toNat < 2 ^ k :=
      lt_of_lt_of_le (UInt32.toNat_lt _) (Nat.pow_le_pow_right (by decide) (Nat.le_of_not_lt hn))
    rw [Nat.testBit_lt_two_pow this] at hk
    cases hk
  have hbit : (y &&& ~~~x &&& 0x80808080).toBitVec.getLsbD k = false := by
    rw [h]
    simp
  rw [UInt32.toBitVec_and, UInt32.toBitVec_and, UInt32.toBitVec_not, BitVec.getLsbD_and,
    BitVec.getLsbD_and, BitVec.getLsbD_not] at hbit
  have h1 : y.toBitVec.getLsbD k = true := hy
  have h2 : x.toBitVec.getLsbD k = false := hx
  have h3 : (0x80808080 : UInt32).toBitVec.getLsbD k = true := hk
  rw [h1, h2, h3] at hbit
  simp [hk32] at hbit

/-- **The filter passes every word with a zero byte**: the borrow of the lowest one stays in its top
bit. -/
theorem zeroByte_filter {b0 b1 b2 b3 : Nat} (h0 : b0 < 256) (h1 : b1 < 256) (h2 : b2 < 256)
    (h3 : b3 < 256) (h : b0 = 0 ∨ b1 = 0 ∨ b2 = 0 ∨ b3 = 0) {x : UInt32}
    (hx : x.toNat = b0 + 256 * (b1 + 256 * (b2 + 256 * b3))) :
    (x - 0x01010101) &&& ~~~x &&& 0x80808080 ≠ 0 := by
  have hy : (x - 0x01010101).toNat = (2 ^ 32 - 0x01010101 + x.toNat) % 2 ^ 32 :=
    UInt32.toNat_sub x 0x01010101
  by_cases z0 : b0 = 0
  · refine filter_ne_zero 7 (by decide) ?_ ?_ <;> rw [Nat.testBit_eq_decide_div_mod_eq]
      <;> simp <;> omega
  by_cases z1 : b1 = 0
  · refine filter_ne_zero 15 (by decide) ?_ ?_ <;> rw [Nat.testBit_eq_decide_div_mod_eq]
      <;> simp <;> omega
  by_cases z2 : b2 = 0
  · refine filter_ne_zero 23 (by decide) ?_ ?_ <;> rw [Nat.testBit_eq_decide_div_mod_eq]
      <;> simp <;> omega
  · have z3 : b3 = 0 := by omega
    refine filter_ne_zero 31 (by decide) ?_ ?_ <;> rw [Nat.testBit_eq_decide_div_mod_eq]
      <;> simp <;> omega

end AnnexB

import Pluto.Bytes.Octets

/-!
# `sscanf` on decimal numbers

The part of `sscanf` that reads lines of numbers: ordinary characters, `%d` and `%lld`.

* `directives`          what a format asks for;
* `scanInt`             white space, a sign, digits;
* `sscanf`              the values that are assigned until a directive fails;
* `Numeral`             a number as it is written: blanks, a sign, at least one digit;
* `Numeral.padded`      a number in a field of its own width;
* `Printed ds text vs`  the text matches the directives, with numerals for the values;
* `Printed.sscanf`      what is printed is read back.
-/

namespace Scanf
open Octets

/-! ## reading -/

inductive Directive where
  | char (c : UInt8)
  | int (bits : Nat)
deriving DecidableEq

/-- a format; a blank, which stands for any white space, is not among its characters -/
def directives : List Char → List Directive
  | '%' :: 'd' :: fmt => .int 32 :: directives fmt
  | '%' :: 'l' :: 'l' :: 'd' :: fmt => .int 64 :: directives fmt
  | c :: fmt => .char (UInt8.ofNat c.toNat) :: directives fmt
  | [] => []

def isDigit (b : UInt8) : Bool := 48 ≤ b.toNat && b.toNat ≤ 57

def isSpace (b : UInt8) : Bool := b.toNat = 32 || (9 ≤ b.toNat && b.toNat ≤ 13)

def digitsValue (ds : Bytes) : Nat := ds.foldl (fun v b => 10 * v + (b.toNat - 48)) 0

/-- a sign, if there is one: is it a minus, and what is behind it -/
def scanSign : Bytes → Bool × Bytes
  | [] => (false, [])
  | b :: s => if b = 45 then (true, s) else if b = 43 then (false, s) else (false, b :: s)

/-- the number at the start of a string, and what is behind it -/
def scanInt (s : Bytes) : Option (Int × Bytes) :=
  let sign := scanSign (s.dropWhile isSpace)
  let ds := sign.2.takeWhile isDigit
  if ds = [] then none
  else some (if sign.1 then -(digitsValue ds : Int) else digitsValue ds, sign.2.dropWhile isDigit)

/-- the value has a place in an object of so many bits -/
def Fits (bits : Nat) (v : Int) : Prop := -(2 ^ (bits - 1)) ≤ v ∧ v < 2 ^ (bits - 1)

instance (bits : Nat) (v : Int) : Decidable (Fits bits v) := inferInstanceAs (Decidable (_ ∧ _))

/-- the values that are assigned; `none` where one of them has no place in its object -/
def sscanf : List Directive → Bytes → Option (List Int)
  | [], _ => some []
  | .char _ :: _, [] => some []
  | .char c :: ds, b :: s => if b = c then sscanf ds s else some []
  | .int bits :: ds, s =>
    match scanInt s with
    | none => some []
    | some (v, s) => if Fits bits v then (sscanf ds s).map (v :: ·) else none

/-- the string at the start of an array: what is in front of the first NUL -/
def cString (text : Bytes) : Bytes := text.takeWhile (· ≠ 0)

/-! ## printing -/

/-- a number as it is written -/
structure Numeral where
  blanks : Nat
  negative : Bool
  digits : List (Fin 10)
  nonempty : digits ≠ []

def digit (d : Fin 10) : UInt8 := UInt8.ofNat (48 + d)

def Numeral.minus (n : Numeral) : Bytes := if n.negative then [45] else []

def Numeral.text (n : Numeral) : Bytes :=
  List.replicate n.blanks 32 ++ (n.minus ++ n.digits.map digit)

def Numeral.magnitude (n : Numeral) : Nat := n.digits.foldl (fun v (d : Fin 10) => 10 * v + d.val) 0

def Numeral.value (n : Numeral) : Int := if n.negative then -(n.magnitude : Int) else n.magnitude

/-- the last `w` decimal digits of `n` -/
def lastDigits : Nat → Nat → List (Fin 10)
  | 0, _ => []
  | w + 1, n => lastDigits w (n / 10) ++ [⟨n % 10, Nat.mod_lt n (by decide)⟩]

/-- `w + 1` digits, with zeros in front -/
def Numeral.padded (w n : Nat) : Numeral where
  blanks := 0
  negative := false
  digits := lastDigits (w + 1) n
  nonempty := List.append_ne_nil_of_right_ne_nil _ (List.cons_ne_nil _ _)

/-- the directives match the text, and a number ends where the text of the next directive begins -/
inductive Printed : List Directive → Bytes → List Int → Prop where
  | nil : Printed [] [] []
  | char (c : UInt8) {ds : List Directive} {text : Bytes} {vs : List Int} (h : Printed ds text vs) :
    Printed (.char c :: ds) (c :: text) vs
  | int (n : Numeral) {bits : Nat} {ds : List Directive} {text : Bytes} {vs : List Int}
    (hfits : Fits bits n.value)
    (hends : text.head?.all (fun b => !isDigit b) = true) (h : Printed ds text vs) :
    Printed (.int bits :: ds) (n.text ++ text) (n.value :: vs)

theorem lastDigits_length (w n : Nat) : (lastDigits w n).length = w := by
  induction w generalizing n with
  | zero => rfl
  | succ w ih => rw [lastDigits, List.length_append, ih]; rfl

theorem lastDigits_value {w n : Nat} (h : n < 10 ^ w) :
    (lastDigits w n).foldl (fun v (d : Fin 10) => 10 * v + d.val) 0 = n := by
  induction w generalizing n with
  | zero => exact (Nat.lt_one_iff.mp h).symm
  | succ w ih =>
    have hdiv : n / 10 < 10 ^ w := by
      rw [Nat.div_lt_iff_lt_mul (by norm_num), ← pow_succ]
      exact h
    rw [lastDigits, List.foldl_append, ih hdiv]
    show 10 * (n / 10) + n % 10 = n
    omega

@[simp] theorem Numeral.padded_length (w n : Nat) : (Numeral.padded w n).text.length = w + 1 := by
  simp [Numeral.text, Numeral.minus, Numeral.padded, lastDigits_length]

theorem Numeral.padded_value {w n : Nat} (h : n < 10 ^ (w + 1)) :
    (Numeral.padded w n).value = n := by
  have hvalue : (Numeral.padded w n).magnitude = n := lastDigits_value h
  show ((Numeral.padded w n).magnitude : Int) = n
  rw [hvalue]

/-! ## what is printed is read -/

theorem digit_spec :
    ∀ d : Fin 10, isDigit (digit d) = true ∧ isSpace (digit d) = false ∧ digit d ≠ 45 ∧
    digit d ≠ 43 ∧ digit d ≠ 0 ∧ (digit d).toNat - 48 = d := by
  decide

theorem Numeral.digitsValue (n : Numeral) : digitsValue (n.digits.map digit) = n.magnitude := by
  unfold Scanf.digitsValue Numeral.magnitude
  rw [List.foldl_map]
  have hstep : (fun (v : Nat) (d : Fin 10) => 10 * v + ((digit d).toNat - 48)) = fun v d =>
    10 * v + d.val := by
    funext v d
    rw [(digit_spec d).2.2.2.2.2]
  rw [hstep]

theorem scanSign_numeral (n : Numeral) (text : Bytes) :
    scanSign (n.minus ++ n.digits.map digit ++ text)
      = (n.negative, n.digits.map digit ++ text) := by
  obtain ⟨d, ds, hds⟩ := List.exists_cons_of_ne_nil n.nonempty
  obtain ⟨-, -, hminus, hplus, -⟩ := digit_spec d
  unfold Numeral.minus
  cases n.negative with
  | true => rfl
  | false =>
    rw [hds]
    show (if digit d = 45 then _ else if digit d = 43 then _ else _) = _
    rw [if_neg hminus, if_neg hplus]
    rfl

theorem dropWhile_numeral (n : Numeral) (text : Bytes) :
    (n.text ++ text).dropWhile isSpace = n.minus ++ n.digits.map digit ++ text := by
  obtain ⟨d, ds, hds⟩ := List.exists_cons_of_ne_nil n.nonempty
  have hstart : (n.minus ++ n.digits.map digit ++ text).dropWhile isSpace
      = n.minus ++ n.digits.map digit ++ text := by
    unfold Numeral.minus
    cases n.negative with
    | true => rfl
    | false =>
      rw [hds]
      exact List.dropWhile_cons_of_neg (by rw [(digit_spec d).2.1]; exact Bool.false_ne_true)
  have hblanks : ∀ b ∈ List.replicate n.blanks (32 : UInt8), isSpace b = true := by
    intro b hb
    rw [List.eq_of_mem_replicate hb]
    rfl
  unfold Numeral.text
  rw [List.append_assoc, List.dropWhile_append_of_pos hblanks, hstart]

/-- a numeral is read up to the first character that is no digit -/
theorem scanInt_numeral (n : Numeral) {text : Bytes}
    (hends : text.head?.all (fun b => !isDigit b) = true) :
    scanInt (n.text ++ text) = some (n.value, text) := by
  have hdigits : ∀ b ∈ n.digits.map digit, isDigit b = true := by
    intro b hb
    obtain ⟨d, -, rfl⟩ := List.mem_map.mp hb
    exact (digit_spec d).1
  have hrest : text.takeWhile isDigit = [] ∧ text.dropWhile isDigit = text := by
    cases text with
    | nil => exact ⟨rfl, rfl⟩
    | cons b text =>
      have hb : isDigit b = false := by simpa using hends
      simp [hb]
  have htake : (n.digits.map digit ++ text).takeWhile isDigit = n.digits.map digit := by
    rw [List.takeWhile_append_of_pos hdigits, hrest.1, List.append_nil]
  have hdrop : (n.digits.map digit ++ text).dropWhile isDigit = text := by
    rw [List.dropWhile_append_of_pos hdigits, hrest.2]
  have hne : n.digits.map digit ≠ [] := fun h => n.nonempty (List.map_eq_nil_iff.mp h)
  unfold scanInt
  rw [dropWhile_numeral, scanSign_numeral]
  dsimp only
  rw [htake, hdrop, if_neg hne, n.digitsValue]
  rfl

/-- **What is printed is read back.** -/
theorem Printed.sscanf {ds : List Directive} {text : Bytes} {vs : List Int}
    (h : Printed ds text vs) :
    sscanf ds text = some vs := by
  induction h with
  | nil => rfl
  | char c h ih =>
    show (if c = c then _ else _) = _
    rw [if_pos rfl]
    exact ih
  | int n hfits hends h ih =>
    unfold Scanf.sscanf
    rw [scanInt_numeral n hends]
    dsimp only
    rw [if_pos hfits, ih]
    rfl

/-! ## the string in an array -/

theorem Numeral.no_nul (n : Numeral) : (0 : UInt8) ∉ n.text := by
  unfold Numeral.text Numeral.minus
  intro h
  rcases List.mem_append.mp h with h | h
  · exact absurd (List.eq_of_mem_replicate h) (by decide)
  rcases List.mem_append.mp h with h | h
  · split at h
    · exact absurd (List.mem_singleton.mp h) (by decide)
    · exact absurd h List.not_mem_nil
  · obtain ⟨d, -, hd⟩ := List.mem_map.mp h
    exact (digit_spec d).2.2.2.2.1 hd

theorem Printed.no_nul {ds : List Directive} {text : Bytes} {vs : List Int} (h : Printed ds text vs)
    (hds : Directive.char 0 ∉ ds) : (0 : UInt8) ∉ text := by
  induction h with
  | nil => exact List.not_mem_nil
  | char c h ih =>
    intro hmem
    rcases List.mem_cons.mp hmem with hc | hmem
    · exact hds (hc ▸ List.mem_cons_self)
    · exact ih (fun hin => hds (List.mem_cons_of_mem _ hin)) hmem
  | int n hfits hends h ih =>
    intro hmem
    rcases List.mem_append.mp hmem with hmem | hmem
    · exact n.no_nul hmem
    · exact ih (fun hin => hds (List.mem_cons_of_mem _ hin)) hmem

/-- a text in an array, with NULs behind it -/
theorem cString_zeros {text : Bytes} (h : (0 : UInt8) ∉ text) (n : Nat) :
    cString (text ++ zeros n) = text := by
  have hall : ∀ b ∈ text, decide (b ≠ 0) = true :=
    fun b hb => decide_eq_true fun hzero => h (hzero ▸ hb)
  have hnone : (zeros n).takeWhile (fun b => decide (b ≠ 0)) = [] := by
    cases n with
    | zero => rfl
    | succ n => rfl
  unfold cString
  rw [List.takeWhile_append_of_pos hall, hnone, List.append_nil]

/-- **A text in an array of NULs is read back.** -/
theorem Printed.scanned {ds : List Directive} {text : Bytes} {vs : List Int}
    (h : Printed ds text vs) (hds : Directive.char 0 ∉ ds) (n : Nat) :
    Scanf.sscanf ds (cString (text ++ zeros n)) = some vs := by
  rw [cString_zeros (h.no_nul hds)]
  exact h.sscanf

end Scanf

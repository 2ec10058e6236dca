import Pluto.Bytes.Octets

/-!
# Nested descriptors

A descriptor is a tag byte, a length and a body.  The length is written in groups of seven bits, the
most significant first, with the top bit set on each group but the last; there are four groups at
most. The body of a descriptor holds fields, then descriptors: how many bytes of fields stands in
the grammar, not in the bytes.

* `lengthGroups`, `readLength`   a length and its reader (`readLength_groups`);
* `Descr`, `Descr.encode`        a tree of descriptors and its bytes;
* `descrsOf`                     the reader of a whole byte string;
* `descrsOf_encodeAll`           the bytes of well-formed trees are read back, and nothing is left.
-/

namespace Descriptors
open Octets

/-! ## lengths -/

/-- `n + 1` groups -/
def groups : Nat → Nat → Bytes
  | 0, v => [UInt8.ofNat (v % 128)]
  | n + 1, v => UInt8.ofNat (128 + v / 128 ^ (n + 1) % 128) :: groups n v

/-- the groups of a length, as few as it needs -/
def lengthGroups (v : Nat) : Bytes := groups (Nat.log 128 v) v

/-- the length at the front of a byte string, with `n` groups at most: its value behind the groups
`acc`, and what follows it -/
def readLength : Nat → Nat → Bytes → Option (Nat × Bytes)
  | 0, _, _ => none
  | _ + 1, _, [] => none
  | n + 1, acc, b :: s =>
    if b.toNat < 128 then some (128 * acc + b.toNat, s)
      else readLength n (128 * acc + (b.toNat - 128)) s

@[simp] theorem groups_length (n v : Nat) : (groups n v).length = n + 1 := by
  induction n with
  | zero => rfl
  | succ n ih => rw [groups, List.length_cons, ih]

theorem readLength_rest {n acc v : Nat} {s rest : Bytes} (h : readLength n acc s = some (v, rest)) :
    rest.length < s.length := by
  induction n generalizing acc s with
  | zero => cases h
  | succ n ih =>
    cases s with
    | nil => cases h
    | cons b s =>
      rw [readLength] at h
      split at h
      · cases h
        exact Nat.lt_succ_self _
      · exact (ih h).trans (Nat.lt_succ_self _)

theorem readLength_write (n acc k v : Nat) (h : k < n) (rest : Bytes) :
    readLength n acc (groups k v ++ rest)
      = some (128 ^ (k + 1) * acc + v % 128 ^ (k + 1), rest) := by
  induction k generalizing n acc with
  | zero =>
    obtain ⟨n, rfl⟩ := Nat.exists_eq_succ_of_ne_zero (Nat.ne_of_gt h)
    have hlow : (UInt8.ofNat (v % 128)).toNat = v % 128 := by
      rw [UInt8.toNat_ofNat']
      omega
    rw [groups, List.singleton_append, readLength, hlow, if_pos (Nat.mod_lt v (by norm_num)),
      pow_one]
  | succ k ih =>
    obtain ⟨n, rfl⟩ := Nat.exists_eq_succ_of_ne_zero (Nat.ne_of_gt (Nat.zero_lt_of_lt h))
    have hhigh : (UInt8.ofNat (128 + v / 128 ^ (k + 1) % 128)).toNat
        = 128 + v / 128 ^ (k + 1) % 128 := by
      rw [UInt8.toNat_ofNat']
      omega
    have hsplit : v % 128 ^ (k + 1 + 1)
        = 128 ^ (k + 1) * (v / 128 ^ (k + 1) % 128) + v % 128 ^ (k + 1) := by
      rw [pow_succ, Nat.mod_mul, Nat.add_comm]
    rw [groups, List.cons_append, readLength, hhigh, if_neg (by omega), Nat.add_sub_cancel_left,
      ih n _ (by omega), hsplit]
    congr 2
    ring

/-- **A length is read back**, whatever follows it. -/
theorem readLength_groups {n v : Nat} (h : v < 128 ^ (n + 1)) (rest : Bytes) :
    readLength (n + 1) 0 (lengthGroups v ++ rest) = some (v, rest) := by
  have hlog : Nat.log 128 v < n + 1 := Nat.log_lt_of_lt_pow' (Nat.succ_ne_zero n) h
  have hfits : v < 128 ^ (Nat.log 128 v + 1) := Nat.lt_pow_succ_log_self (by norm_num) v
  rw [lengthGroups, readLength_write _ 0 _ v hlog, Nat.mul_zero, Nat.zero_add,
    Nat.mod_eq_of_lt hfits]

/-! ## trees -/

inductive Descr where
  | mk (tag : UInt8) (fields : Bytes) (children : List Descr)

mutual
def Descr.encode : Descr → Bytes
  | .mk tag fields children =>
    tag :: (lengthGroups (fields ++ encodeAll children).length ++ (fields ++ encodeAll children))

def encodeAll : List Descr → Bytes
  | [] => []
  | t :: ts => t.encode ++ encodeAll ts
end

@[simp] theorem encodeAll_nil : encodeAll [] = [] := by rw [encodeAll]

@[simp] theorem encodeAll_cons (t : Descr) (ts : List Descr) :
    encodeAll (t :: ts) = t.encode ++ encodeAll ts := by
  rw [encodeAll]

theorem encode_mk (tag : UInt8) (fields : Bytes) (children : List Descr) :
    (Descr.mk tag fields children).encode
      = tag :: (lengthGroups (fields ++ encodeAll children).length
        ++ (fields ++ encodeAll children)) := by
  rw [Descr.encode]

/-! ## reading -/

/-- the descriptor at the front of a byte string: its tag, its body, and what follows it -/
def nextDescr : Bytes → Option (UInt8 × Bytes × Bytes)
  | [] => none
  | tag :: s =>
    match readLength 4 0 s with
    | none => none
    | some (n, s) => if n ≤ s.length then some (tag, s.take n, s.drop n) else none

theorem nextDescr_lt {s body rest : Bytes} {tag : UInt8}
    (h : nextDescr s = some (tag, body, rest)) :
    body.length < s.length ∧ rest.length < s.length := by
  cases s with
  | nil => cases h
  | cons b s =>
    rw [nextDescr] at h
    split at h
    · cases h
    · rename_i n s' hlen
      have hlt := readLength_rest hlen
      split at h
      · cases h
        rw [List.length_take, List.length_drop, List.length_cons]
        omega
      · cases h

section
variable (own : UInt8 → Option Nat)

/-- the descriptors of a byte string, to its end; `own` is the number of field bytes of a descriptor
that holds descriptors, and the body of any other is all fields -/
def descrsOf (s : Bytes) : Option (List Descr) :=
  if s = [] then some []
  else
    match _h : nextDescr s with
    | none => none
    | some (tag, body, rest) =>
      match own tag with
      | none => (descrsOf rest).map fun ts => .mk tag body [] :: ts
      | some n =>
        if n ≤ body.length then
          match descrsOf (body.drop n), descrsOf rest with
          | some cs, some ts => some (.mk tag (body.take n) cs :: ts)
          | _, _ => none
        else none
termination_by s.length
decreasing_by
  · exact (nextDescr_lt _h).2
  · exact (List.length_drop ▸ Nat.sub_le _ _ : (body.drop n).length ≤ body.length).trans_lt
      (nextDescr_lt _h).1
  · exact (nextDescr_lt _h).2

/-- the fields of a descriptor are those that the grammar gives it, and its length fits into four
groups -/
inductive WellFormed : Descr → Prop where
  | leaf {tag : UInt8} {fields : Bytes} (h : own tag = none) (hlen : fields.length < 128 ^ 4) :
    WellFormed (.mk tag fields [])
  | node {tag : UInt8} {fields : Bytes} {children : List Descr} (h : own tag = some fields.length)
    (hlen : (fields ++ encodeAll children).length < 128 ^ 4) (hall : ∀ c ∈ children, WellFormed c) :
    WellFormed (.mk tag fields children)

theorem nextDescr_encode (tag : UInt8) (body rest : Bytes) (h : body.length < 128 ^ 4) :
    nextDescr (tag :: (lengthGroups body.length ++ body) ++ rest) = some (tag, body, rest) := by
  rw [List.cons_append, nextDescr, List.append_assoc, readLength_groups h]
  dsimp only
  rw [if_pos (by rw [List.length_append]; omega), List.take_left, List.drop_left]

theorem descrsOf_nil : descrsOf own [] = some [] := by rw [descrsOf, if_pos rfl]

/-- one descriptor, and those behind it -/
theorem descrsOf_next {s body rest : Bytes} {tag : UInt8}
    (hs : nextDescr s = some (tag, body, rest)) :
    descrsOf own s = match own tag with
      | none => (descrsOf own rest).map fun ts => .mk tag body [] :: ts
      | some n =>
        if n ≤ body.length then
          match descrsOf own (body.drop n), descrsOf own rest with
          | some cs, some ts => some (.mk tag (body.take n) cs :: ts)
          | _, _ => none
        else none := by
  have hne : s ≠ [] := by
    rintro rfl
    cases hs
  rw [descrsOf, if_neg hne]
  split
  · rename_i hnone
    rw [hs] at hnone
    cases hnone
  · rename_i hsome
    rw [hs] at hsome
    cases hsome
    rfl

theorem descrsOf_leaf {s body rest : Bytes} {tag : UInt8}
    (hs : nextDescr s = some (tag, body, rest)) (h : own tag = none) :
    descrsOf own s = (descrsOf own rest).map fun ts => .mk tag body [] :: ts := by
  rw [descrsOf_next own hs, h]

theorem descrsOf_node {s body rest : Bytes} {tag : UInt8} {n : Nat} {cs : List Descr}
    (hs : nextDescr s = some (tag, body, rest)) (h : own tag = some n) (hn : n ≤ body.length)
    (hcs : descrsOf own (body.drop n) = some cs) :
    descrsOf own s = (descrsOf own rest).map fun ts => .mk tag (body.take n) cs :: ts := by
  rw [descrsOf_next own hs, h]
  dsimp only
  rw [if_pos hn, hcs]
  cases descrsOf own rest <;> rfl

/-- **Well-formed trees are read back**, and nothing is left. -/
theorem descrsOf_encodeAll (ts : List Descr) (h : ∀ t ∈ ts, WellFormed own t) :
    descrsOf own (encodeAll ts) = some ts := by
  generalize hn : (encodeAll ts).length = n
  -- the body of the first tree and what follows it are both shorter
  induction n using Nat.strongRecOn generalizing ts with
  | ind n ih =>
    cases ts with
    | nil => rw [encodeAll_nil, descrsOf_nil]
    | cons t ts =>
      have hts : ∀ u ∈ ts, WellFormed own u := fun u hu => h u (List.mem_cons_of_mem t hu)
      rw [encodeAll_cons, List.length_append] at hn
      rw [encodeAll_cons]
      cases h t List.mem_cons_self with
      | @leaf tag fields htag hlen =>
        have hbody : fields ++ encodeAll [] = fields := by rw [encodeAll_nil, List.append_nil]
        rw [encode_mk, hbody, List.length_cons] at hn
        rw [encode_mk, hbody, descrsOf_leaf own (nextDescr_encode tag fields _ hlen) htag,
          ih _ (by omega) ts hts rfl]
        rfl
      | @node tag fields children htag hlen hall =>
        rw [encode_mk, List.length_cons, List.length_append, List.length_append] at hn
        have hcs : descrsOf own ((fields ++ encodeAll children).drop fields.length)
            = some children := by
          rw [List.drop_left]
          exact ih _ (by omega) children hall rfl
        rw [encode_mk, descrsOf_node own (nextDescr_encode tag _ _ hlen) htag
          (by rw [List.length_append]; omega) hcs, ih _ (by omega) ts hts rfl, List.take_left]
        rfl

end

end Descriptors

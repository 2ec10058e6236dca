import Pluto.Bytes.Octets

/-!
# Nested boxes

A box is a 32-bit size, a tag of four bytes and a body; the size counts the whole box.  A body
holds fields, then boxes.

* `Box`, `Box.encode`       a tree of boxes and its bytes, every size field the length of its box;
* `Shape`, `Fits`           the tags and field lengths of a tree, and what it is for bytes to be one
                            box of this shape: the size field is the length, the children tile
                            what follows the fields;
* `nextBox`, `boxesOf`, `findBox`   a reader of the boxes at the front of a byte string;
* `Box.child`, `Box.under`  the same walk in the tree.

The bytes of a tree fit its shape (`Box.encode_fits`) and are read back (`boxesOf_encodeAll`); a
path in the tree is one in the bytes (`findPath_under`) where the sizes fit into 32 bits.
-/

namespace Boxes
open Octets

/-- a tag of four bytes -/
abbrev Tag := { b : Bytes // b.length = 4 }

def fourcc (a b c d : Char) : Tag :=
  ⟨[UInt8.ofNat a.toNat, UInt8.ofNat b.toNat, UInt8.ofNat c.toNat, UInt8.ofNat d.toNat], rfl⟩

inductive Box where
  | mk (tag : Tag) (fields : Bytes) (children : List Box)

mutual
def Box.encode : Box → Bytes
  | .mk tag fields children =>
    be 4 (8 + (fields ++ encodeAll children).length) ++ tag.val ++ (fields ++ encodeAll children)

def encodeAll : List Box → Bytes
  | [] => []
  | t :: ts => t.encode ++ encodeAll ts
end

def Box.tag : Box → Tag
  | .mk tag _ _ => tag

def Box.body : Box → Bytes
  | .mk _ fields children => fields ++ encodeAll children

/-- a box without children -/
def leaf (tag : Tag) (fields : Bytes) : Box := .mk tag fields []

@[simp] theorem encodeAll_nil : encodeAll [] = [] := by rw [encodeAll]

@[simp] theorem encodeAll_cons (t : Box) (ts : List Box) :
    encodeAll (t :: ts) = t.encode ++ encodeAll ts := by rw [encodeAll]

theorem encodeAll_append (ts us : List Box) :
    encodeAll (ts ++ us) = encodeAll ts ++ encodeAll us := by
  induction ts with
  | nil => rw [encodeAll_nil]; rfl
  | cons t ts ih => rw [List.cons_append, encodeAll_cons, encodeAll_cons, ih, List.append_assoc]

theorem encode_eq (t : Box) : t.encode = be 4 (8 + t.body.length) ++ t.tag.val ++ t.body := by
  cases t with
  | mk tag fields children => rw [Box.encode]; rfl

theorem encode_length (t : Box) : t.encode.length = 8 + t.body.length := by
  rw [encode_eq, List.length_append, List.length_append, be_length, t.tag.property]

theorem encode_ne_nil (t : Box) : t.encode ≠ [] := by
  intro h
  have hlen := encode_length t
  rw [h, List.length_nil] at hlen
  omega

@[simp] theorem leaf_body (tag : Tag) (fields : Bytes) : (leaf tag fields).body = fields := by
  show fields ++ encodeAll [] = fields
  rw [encodeAll_nil, List.append_nil]

/-! ## reading -/

/-- the first box of a byte string: its tag, its body, and what follows it -/
def nextBox (s : Bytes) : Option (Bytes × Bytes × Bytes) :=
  let n := ofBe (s.take 4)
  if 8 ≤ n ∧ n ≤ s.length then some (slice s 4 4, slice s 8 (n - 8), s.drop n) else none

theorem nextBox_rest_lt {s tag body rest : Bytes} (h : nextBox s = some (tag, body, rest)) :
    rest.length < s.length := by
  unfold nextBox at h
  by_cases hn : 8 ≤ ofBe (s.take 4) ∧ ofBe (s.take 4) ≤ s.length
  · rw [if_pos hn] at h
    cases h
    rw [List.length_drop]
    omega
  · rw [if_neg hn] at h
    cases h

/-- the boxes at the front of a byte string, and the bytes behind the last of them -/
def boxesOf (s : Bytes) : List (Bytes × Bytes) × Bytes :=
  match _h : nextBox s with
  | none => ([], s)
  | some (tag, body, rest) => ((tag, body) :: (boxesOf rest).1, (boxesOf rest).2)
termination_by s.length
decreasing_by all_goals exact nextBox_rest_lt _h

/-- the body of the first box with this tag -/
def findBox (tag s : Bytes) : Option Bytes := ((boxesOf s).1.find? fun b => b.1 = tag).map Prod.snd

/-- the box at the end of a path of tags -/
def findPath (tags : List Bytes) (s : Bytes) : Option Bytes :=
  tags.foldlM (fun b tag => findBox tag b) s

theorem ofBe_size {t : Box} (h : t.encode.length < 2 ^ 32) (rest : Bytes) :
    ofBe ((t.encode ++ rest).take 4) = t.encode.length := by
  have hlen := encode_length t
  have h4 : (be 4 (8 + t.body.length)).length = 4 := be_length 4 _
  have htake : (t.encode ++ rest).take 4 = be 4 (8 + t.body.length) := by
    rw [encode_eq, List.append_assoc, List.append_assoc, List.take_append_of_le_length h4.ge,
      List.take_of_length_le h4.le]
  rw [htake, ofBe_be 4 _ (by omega), hlen]

theorem nextBox_encode {t : Box} (h : t.encode.length < 2 ^ 32) (rest : Bytes) :
    nextBox (t.encode ++ rest) = some (t.tag.val, t.body, rest) := by
  have hlen := encode_length t
  have h4 : (be 4 (8 + t.body.length)).length = 4 := be_length 4 _
  have htag : t.tag.val.length = 4 := t.tag.property
  have h8 : (be 4 (8 + t.body.length) ++ t.tag.val).length = 8 := by
    rw [List.length_append, h4, htag]
  have hs : t.encode ++ rest = be 4 (8 + t.body.length) ++ t.tag.val ++ t.body ++ rest := by
    rw [encode_eq]
  have h1 : slice (t.encode ++ rest) 4 4 = t.tag.val := by
    have := slice_mid (be 4 (8 + t.body.length)) t.tag.val (t.body ++ rest)
    rwa [h4, htag, ← List.append_assoc, ← hs] at this
  have h2 : slice (t.encode ++ rest) 8 (t.encode.length - 8) = t.body := by
    have := slice_mid (be 4 (8 + t.body.length) ++ t.tag.val) t.body rest
    rwa [h8, ← hs, show t.body.length = t.encode.length - 8 by omega] at this
  unfold nextBox
  rw [ofBe_size h rest, if_pos ⟨by omega, by rw [List.length_append]; omega⟩, h1, h2,
    List.drop_left]

theorem boxesOf_encode_append {t : Box} (h : t.encode.length < 2 ^ 32) (rest : Bytes) :
    boxesOf (t.encode ++ rest) = ((t.tag.val, t.body) :: (boxesOf rest).1, (boxesOf rest).2) := by
  have hn := nextBox_encode h rest
  rw [boxesOf]
  split
  · rename_i hnone
    rw [hn] at hnone
    cases hnone
  · rename_i tag body rest' hsome
    rw [hn] at hsome
    cases hsome
    rfl

theorem boxesOf_none {s : Bytes} (h : nextBox s = none) : boxesOf s = ([], s) := by
  rw [boxesOf]
  split
  · rfl
  · rename_i hsome
    rw [h] at hsome
    cases hsome

theorem boxesOf_nil : boxesOf [] = ([], []) := boxesOf_none rfl

theorem boxesOf_encodeAll {ts : List Box} (h : (encodeAll ts).length < 2 ^ 32) :
    boxesOf (encodeAll ts) = (ts.map fun t => (t.tag.val, t.body), []) := by
  induction ts with
  | nil => rw [encodeAll_nil, boxesOf_nil]; rfl
  | cons t ts ih =>
    rw [encodeAll_cons, List.length_append] at h
    rw [encodeAll_cons, boxesOf_encode_append (by omega), ih (by omega)]
    rfl

theorem findBox_encodeAll {ts : List Box} (h : (encodeAll ts).length < 2 ^ 32) (tag : Bytes) :
    findBox tag (encodeAll ts) = (ts.find? fun t => t.tag.val = tag).map Box.body := by
  unfold findBox
  rw [boxesOf_encodeAll h, List.find?_map, Option.map_map]
  rfl

theorem find_unique {α : Type} {l : List α} {p : α → Bool} {a : α} (ha : a ∈ l) (hp : p a = true)
    (hunique : ∀ b ∈ l, p b = true → b = a) : l.find? p = some a := by
  cases hfind : l.find? p with
  | none => exact absurd hp (List.find?_eq_none.mp hfind a ha)
  | some b => rw [hunique b (List.mem_of_find?_eq_some hfind) (List.find?_some hfind)]

theorem findPath_cons {tag b s : Bytes} (h : findBox tag s = some b) (tags : List Bytes) :
    findPath (tag :: tags) s = findPath tags b := by
  unfold findPath
  rw [List.foldlM_cons, h]
  rfl

theorem mem_encode_le {t : Box} {ts : List Box} (h : t ∈ ts) :
    t.encode.length ≤ (encodeAll ts).length := by
  induction ts with
  | nil => cases h
  | cons u ts ih =>
    rw [encodeAll_cons, List.length_append]
    rcases List.mem_cons.mp h with rfl | h
    · exact Nat.le_add_right _ _
    · exact (ih h).trans (Nat.le_add_left _ _)

theorem body_le (t : Box) : t.body.length ≤ t.encode.length := by
  rw [encode_length]
  exact Nat.le_add_left _ _

/-! ## the boxes of a tree -/

def Box.children : Box → List Box
  | .mk _ _ children => children

/-- the first child with this tag, of a box without fields -/
def Box.child (tag : Tag) : Box → Option Box
  | .mk _ [] children => children.find? fun u => u.tag = tag
  | .mk _ (_ :: _) _ => none

/-- the box at the end of a path of tags -/
def Box.under (tags : List Tag) (t : Box) : Option Box := tags.foldlM (fun t tag => t.child tag) t

theorem under_cons {t u : Box} {tag : Tag} (h : t.child tag = some u) (tags : List Tag) :
    t.under (tag :: tags) = u.under tags := by
  unfold Box.under
  rw [List.foldlM_cons, h]
  rfl

theorem under_nil (t : Box) : t.under [] = some t := rfl

/-- **A child of the tree** is found in the bytes. -/
theorem findBox_child {t u : Box} {tag : Tag} (h : t.encode.length < 2 ^ 32)
    (hu : t.child tag = some u) :
    findBox tag.val t.body = some u.body ∧ u.encode.length < 2 ^ 32 := by
  obtain ⟨ttag, fields, children⟩ := t
  cases fields with
  | cons b fields => cases hu
  | nil =>
    have hlt : (encodeAll children).length < 2 ^ 32 := (body_le _).trans_lt h
    refine ⟨?_, (mem_encode_le (List.mem_of_find?_eq_some hu)).trans_lt hlt⟩
    show findBox tag.val (encodeAll children) = _
    have hsame : (fun v : Box => decide (v.tag.val = tag.val)) = fun v => decide (v.tag = tag) := by
      funext v
      exact decide_eq_decide.mpr Subtype.ext_iff.symm
    rw [findBox_encodeAll hlt, hsame, show children.find? _ = some u from hu]
    rfl

theorem findPath_under {tags : List Tag} {t u : Box} (h : t.encode.length < 2 ^ 32)
    (hu : t.under tags = some u) :
    findPath (tags.map Subtype.val) t.body = some u.body ∧ u.encode.length < 2 ^ 32 := by
  induction tags generalizing t with
  | nil =>
    cases hu
    exact ⟨rfl, h⟩
  | cons tag tags ih =>
    cases hc : t.child tag with
    | none =>
      rw [Box.under, List.foldlM_cons, hc] at hu
      cases hu
    | some v =>
      obtain ⟨hfind, hlt⟩ := findBox_child h hc
      rw [under_cons hc] at hu
      rw [List.map_cons, findPath_cons hfind]
      exact ih hlt hu

/-- a box that stands somewhere in a byte string -/
theorem nextBox_at {t : Box} (h : t.encode.length < 2 ^ 32) {s : Bytes} {p : Nat}
    (hs : slice s p t.encode.length = t.encode) :
    nextBox (s.drop p) = some (t.tag.val, t.body, s.drop (p + t.encode.length)) := by
  have hsplit : s.drop p = t.encode ++ s.drop (p + t.encode.length) := by
    have htake : (s.drop p).take t.encode.length = t.encode := hs
    rw [← List.drop_drop, ← congrArg (· ++ (s.drop p).drop t.encode.length) htake]
    exact (List.take_append_drop _ _).symm
  rw [hsplit]
  exact nextBox_encode h _

/-! ## shapes -/

/-- the tag, the number of field bytes and the children of a box -/
inductive Shape where
  | mk (tag : Tag) (fields : Nat) (children : List Shape)

mutual
def Box.shape : Box → Shape
  | .mk tag fields children => .mk tag fields.length (shapes children)

def shapes : List Box → List Shape
  | [] => []
  | t :: ts => t.shape :: shapes ts
end

mutual
/-- the bytes are one box of this shape -/
def Fits : Shape → Bytes → Prop
  | .mk tag n children, b => 8 + n ≤ b.length ∧ ofBe (b.take 4) = b.length ∧ slice b 4 4 = tag.val ∧
    Tile children (b.drop (8 + n))

/-- the bytes are boxes of these shapes, one after the other -/
def Tile : List Shape → Bytes → Prop
  | [], b => b = []
  | c :: cs, b => ∃ k ≤ b.length, Fits c (b.take k) ∧ Tile cs (b.drop k)
end

mutual
theorem Box.encode_fits : ∀ t : Box, t.encode.length < 2 ^ 32 → Fits t.shape t.encode
  | .mk tag fields children, h => by
    have hb : (Box.mk tag fields children).body = fields ++ encodeAll children := rfl
    have hlen := encode_length (.mk tag fields children)
    rw [hb, List.length_append] at hlen
    have hn := nextBox_encode h []
    have hsz := ofBe_size h []
    rw [List.append_nil] at hn hsz
    rw [nextBox, hsz, if_pos ⟨by omega, le_rfl⟩] at hn
    have htag : slice (Box.mk tag fields children).encode 4 4 = tag.val :=
      congrArg Prod.fst (Option.some.inj hn)
    have hhead : (be 4 (8 + (fields ++ encodeAll children).length) ++ tag.val ++ fields).length
        = 8 + fields.length := by
      rw [List.length_append, List.length_append, be_length, tag.property]
    have hdrop : (Box.mk tag fields children).encode.drop (8 + fields.length)
        = encodeAll children := by
      rw [Box.encode, ← List.append_assoc, ← hhead, List.drop_left]
    rw [Box.shape, Fits]
    refine ⟨by omega, hsz, htag, ?_⟩
    rw [hdrop]
    exact encodeAll_tile children (by omega)

theorem encodeAll_tile :
    ∀ ts : List Box, (encodeAll ts).length < 2 ^ 32 → Tile (shapes ts) (encodeAll ts)
  | [], _ => by
    rw [shapes, encodeAll_nil, Tile]
  | t :: ts, h => by
    rw [encodeAll_cons, List.length_append] at h
    rw [shapes, encodeAll_cons, Tile]
    refine ⟨t.encode.length, by rw [List.length_append]; omega, ?_, ?_⟩
    · rw [List.take_left]
      exact Box.encode_fits t (by omega)
    · rw [List.drop_left]
      exact encodeAll_tile ts (by omega)
end

end Boxes

import Pluto.Mp4.StartCodes

/-!
# NAL units at any address: the splitting and the body of `avcC`

* `ffAvcParseNalUnits_stream`   the payloads of a stream come out, each behind its size, exactly
                                when every start code behind the first is met by the loop that
                                returns its beginning;
* `ffIsomWriteAvcc_nals`        the record of a CSD whose start codes have four bytes;
* `ffIsomWriteAvccAt_isSome`    the CSDs whose body is written by valid accesses.
-/

namespace Pluto.Mp4
open Octets Boxes AnnexB

/-! ## the functions -/

/-- no result when the records overrun the buffer -/
def ffIsomGetAvccSizeAt (addr : Nat) (heap : Nat → UInt8) (data : Bytes) : Option Nat :=
  if data.length > 6 then
    if hasStartCode data then
      (ffAvcParseNalUnitsAt addr data).map fun buf =>
        let r := parameterSets heap buf
        6 + 2 + r.sps_size + 1 + 2 + r.pps_size
    else some data.length
  else some 0

/-- no result when the records overrun the buffer or `sps` is `NULL` -/
def ffIsomWriteAvccAt (addr : Nat) (heap : Nat → UInt8) (data : Bytes) : Option (List CacheWrite) :=
  if data.length > 6 then
    if hasStartCode data then
      (ffAvcParseNalUnitsAt addr data).bind fun buf =>
        let r := parameterSets heap buf
        r.sps.map fun sps =>
          putByte 1 ++ putByte (bufAt heap buf (sps + 1)).toNat
            ++ putByte (bufAt heap buf (sps + 2)).toNat
            ++ putByte (bufAt heap buf (sps + 3)).toNat ++ putByte 0xff ++ putByte 0xe1
            ++ putBe16 r.sps_size ++ putBuffer (slice buf sps r.sps_size)
            ++ putByte 1 ++ putBe16 r.pps_size ++ putBuffer (slice buf (r.pps.getD 0) r.pps_size)
    else some (putBuffer data)
  else some []

theorem ffIsomWriteAvccAt_zero (heap : Nat → UInt8) (data : Bytes) :
    ffIsomWriteAvccAt 0 heap data = ffIsomWriteAvcc heap data := by
  rw [ffIsomWriteAvccAt, ffIsomWriteAvcc, ffAvcParseNalUnitsAt_zero]
  by_cases hfit : (ffAvcParseNalUnits data).length ≤ data.length + 256
  · simp only [if_pos hfit]
    rfl
  · simp only [if_neg hfit]
    rfl

/-! ## streams -/

/-- the start code in front of each payload of `l` is met by the loop over words if it has four
bytes and by a byte loop if it has three; `u` is the payload in front of them, at `q` -/
def MetAsWritten (addr len : Nat) : Nat → Bytes → List (Bool × Bytes) → Prop
  | _, _, [] => True
  | q, u, (long, v) :: l =>
    (ByWord addr len q (q + u.length + long.toNat) ↔ long = true) ∧
      MetAsWritten addr len (q + u.length + long.toNat + 3) v l

/-- the same for the start codes of a stream; the first one is behind no payload -/
def CodesMet (addr : Nat) : List (Bool × Bytes) → Prop
  | [] => True
  | (long, u) :: l => MetAsWritten addr (stream ((long, u) :: l)).length (3 + long.toNat) u l

/-- the start codes of three bytes -/
def shortCodes (l : List (Bool × Bytes)) : Nat := l.countP fun x => !x.1

/-- the byte in front of a start code: its own first zero, or the last byte of the payload -/
theorem byteAt_before (a t : Bytes) (long : Bool) {u : Bytes} (hu : Payload u) :
    byteAt (a ++ (u ++ (startCode long ++ t))) (a.length + u.length + long.toNat - 1) = 0 ↔
      long = true := by
  have hpos := List.length_pos_iff.mpr hu.ne_nil
  cases long with
  | true =>
    have hbyte : byteAt (a ++ (u ++ (startCode true ++ t))) (a.length + u.length + true.toNat - 1)
        = 0 := by
      rw [byteAt, List.getD_eq_getElem?_getD, Bool.toNat_true, Nat.add_sub_cancel,
        List.getElem?_append_right (by omega), List.getElem?_append_right (by omega),
        Nat.add_sub_cancel_left, Nat.sub_self]
      rfl
    simpa using hbyte
  | false =>
    have hlast : (a ++ (u ++ (startCode false ++ t)))[a.length + u.length + false.toNat - 1]?
        = u.getLast? := by
      rw [Bool.toNat_false, Nat.add_zero, List.getElem?_append_right (by omega),
        List.getElem?_append_left (by omega), List.getLast?_eq_getElem?]
      congr 1
      omega
    have hlen : a.length + u.length + false.toNat - 1
        < (a ++ (u ++ (startCode false ++ t))).length := by
      simp only [List.length_append, Bool.toNat_false]
      omega
    rw [byteAt_iff (Or.inr hlen), hlast]
    simpa using hu.last

/-- what the start codes behind a payload do to the units -/
structure Cut (addr : Nat) (s : Bytes) (q : Nat) (u : Bytes) (l : List (Bool × Bytes)) : Prop where
  units : MetAsWritten addr s.length q u l → unitsAt addr s q = u :: l.map (·.2)
  same : MetAsWritten addr s.length q u l → growth addr s q (codes s q) = shortCodes l
  more : ¬ MetAsWritten addr s.length q u l → shortCodes l < growth addr s q (codes s q)

/-- the bytes that a start code costs, where the loop that returns its beginning meets it -/
theorem cost_met {w : Prop} [Decidable w] {long : Bool} (h : w ↔ long = true) :
    (if w then if long then 0 else 4 else 1) = if long then 0 else 1 := by
  cases long with
  | true => rw [if_pos (h.mpr rfl)]; rfl
  | false => rw [if_neg fun hw => absurd (h.mp hw) (by decide)]; rfl

theorem cost_unmet {w : Prop} [Decidable w] {long : Bool} (h : ¬ (w ↔ long = true)) :
    (if long then 0 else 1) < if w then if long then 0 else 4 else 1 := by
  cases long with
  | true =>
    rw [if_neg fun hw => h ⟨fun _ => rfl, fun _ => hw⟩]
    exact Nat.one_pos
  | false =>
    rw [if_pos (by_contra fun hw => h ⟨fun h2 => absurd h2 hw, nofun⟩)]
    decide

theorem shortCodes_cons (long : Bool) (v : Bytes) (l : List (Bool × Bytes)) :
    shortCodes ((long, v) :: l) = shortCodes l + if long then 0 else 1 := by
  cases long <;> simp [shortCodes]

section
variable {addr q c : Nat} {s u v : Bytes} {long : Bool} {l : List (Bool × Bytes)}

/-- the unit in front of a start code that is met as it is written -/
theorem unitsAt_cons (hc : c = q + u.length + long.toNat)
    (hcodes : codes s q = c :: codes s (c + 3)) (hbefore : byteAt s (c - 1) = 0 ↔ long = true)
    (hunit : slice s q u.length = u) (hmet : ByWord addr s.length q c ↔ long = true) :
    unitsAt addr s q = u :: unitsAt addr s (c + 3) := by
  rw [unitsAt, hcodes, spans]
  cases long with
  | true =>
    have hn : c - 1 - q = u.length := by rw [hc, Bool.toNat_true]; omega
    rw [if_pos (hmet.mpr rfl), if_pos (hbefore.mpr rfl), List.map_cons, hn, hunit]
    rfl
  | false =>
    have hn : c - q = u.length := by rw [hc, Bool.toNat_false]; omega
    rw [if_neg (fun hw => absurd (hmet.mp hw) (by decide)), List.map_cons, hn, hunit]
    rfl

/-- one start code more -/
theorem Cut.cons (hc : c = q + u.length + long.toNat) (hcodes : codes s q = c :: codes s (c + 3))
    (hbefore : byteAt s (c - 1) = 0 ↔ long = true) (hunit : slice s q u.length = u)
    (hrest : Cut addr s (c + 3) v l) :
    Cut addr s q u ((long, v) :: l) := by
  have hgrowth : growth addr s q (codes s q)
      = (if ByWord addr s.length q c then if long then 0 else 4 else 1)
          + growth addr s (c + 3) (codes s (c + 3)) := by
    rw [hcodes, growth]
    simp only [hbefore]
  have hle : shortCodes l ≤ growth addr s (c + 3) (codes s (c + 3)) := by
    by_cases h : MetAsWritten addr s.length (c + 3) v l
    · exact (hrest.same h).ge
    · exact (hrest.more h).le
  have hmet : MetAsWritten addr s.length q u ((long, v) :: l) ↔
      (ByWord addr s.length q c ↔ long = true) ∧ MetAsWritten addr s.length (c + 3) v l := by
    rw [MetAsWritten, ← hc]
  refine ⟨fun h => ?_, fun h => ?_, fun h => ?_⟩
  · obtain ⟨h1, h2⟩ := hmet.mp h
    rw [unitsAt_cons hc hcodes hbefore hunit h1, hrest.units h2]
    rfl
  · obtain ⟨h1, h2⟩ := hmet.mp h
    rw [hgrowth, hrest.same h2, shortCodes_cons, cost_met h1, Nat.add_comm]
  · rw [hgrowth, shortCodes_cons]
    by_cases h1 : ByWord addr s.length q c ↔ long = true
    · have hlt := hrest.more (fun h2 => h (hmet.mpr ⟨h1, h2⟩))
      rw [cost_met h1]
      omega
    · have hlt := cost_unmet h1
      omega

end

/-- **A start code that the other loop meets costs a byte or three.** -/
theorem stream_cut (addr : Nat) {s a u : Bytes} {l : List (Bool × Bytes)}
    (hs : s = a ++ (u ++ stream l)) (hu : Payload u) (hl : ∀ x ∈ l, Payload x.2) :
    Cut addr s a.length u l := by
  induction l generalizing a u with
  | nil =>
    have hnil : codes s a.length = [] := by
      rw [hs, stream, List.flatMap_nil, List.append_nil]
      exact last_codes hu
    have hunit : slice s a.length (s.length - a.length) = u := by
      rw [hs, List.length_append, Nat.add_sub_cancel_left]
      simp [slice, stream]
    refine ⟨fun _ => ?_, fun _ => ?_, fun h => absurd trivial h⟩
    · simp [unitsAt, hnil, spans, hunit]
    · rw [hnil]
      rfl
  | cons x l ih =>
    obtain ⟨long, v⟩ := x
    have hv : Payload v := hl _ List.mem_cons_self
    have hcodes := payload_codes a long l hu hv.ne_nil
    rw [← hs] at hcodes
    have hs' : s = (a ++ u ++ startCode long) ++ (v ++ stream l) := by
      rw [hs, stream_cons]
      simp only [List.append_assoc]
    have hlen : (a ++ u ++ startCode long).length = a.length + u.length + long.toNat + 3 := by
      rw [List.length_append, List.length_append, startCode_length]
      omega
    have hrest := ih hs' hv (fun y hy => hl y (List.mem_cons_of_mem _ hy))
    rw [hlen] at hrest
    have hbefore := byteAt_before a (v ++ stream l) long hu
    have hunit : slice s a.length u.length = u := by
      rw [hs, ← List.append_assoc]
      exact slice_mid a u _
    rw [stream_cons] at hs
    rw [← hs] at hbefore
    exact Cut.cons rfl hcodes hbefore hunit hrest

theorem records_length (l : List (Bool × Bytes)) :
    (l.flatMap fun x => nalRecord x.2).length = (stream l).length + shortCodes l := by
  induction l with
  | nil => rfl
  | cons x l ih =>
    obtain ⟨long, u⟩ := x
    rw [List.flatMap_cons, List.length_append, nalRecord_length, ih, stream_cons,
      List.length_append, List.length_append, startCode_length]
    cases long <;> simp [shortCodes] <;> omega

/-- the units of a stream and the bound of the buffer -/
theorem stream_parse (addr : Nat) {long : Bool} {u : Bytes} {l : List (Bool × Bytes)}
    (hu : ∀ x ∈ (long, u) :: l, Payload x.2) :
    Cut addr (stream ((long, u) :: l)) (3 + long.toNat) u l ∧
      3 + long.toNat ≤ (stream ((long, u) :: l)).length ∧
      ffAvcParseNalUnitsAt addr (stream ((long, u) :: l))
        = if growth addr (stream ((long, u) :: l)) (3 + long.toNat)
            (codes (stream ((long, u) :: l)) (3 + long.toNat)) + 1 ≤ 256 + long.toNat
          then some ((unitsAt addr (stream ((long, u) :: l)) (3 + long.toNat)).flatMap nalRecord)
            else none := by
  have hpay : Payload u := hu _ List.mem_cons_self
  have hpos := List.length_pos_iff.mpr hpay.ne_nil
  have hsplit := stream_cons (long, u) l
  have hcut := stream_cut addr hsplit hpay (fun x hx => hu x (List.mem_cons_of_mem _ hx))
  have hstart : (startCode (long, u).1).length = 3 + long.toNat := startCode_length long
  obtain ⟨hcode, -⟩ := codeAt_stream [] (u ++ stream l) long
  have hlen : (stream ((long, u) :: l)).length = 3 + long.toNat + (u ++ stream l).length := by
    rw [hsplit, List.length_append, startCode_length]
  rw [hstart] at hcut
  rw [List.nil_append, ← hsplit, List.length_nil, Nat.zero_add] at hcode
  rw [List.length_append] at hlen
  have hfirst : long.toNat = 0 ∨ long.toNat = 1 ∧ byteAt (stream ((long, u) :: l)) 0 = 0 := by
    cases long with
    | true => exact Or.inr ⟨rfl, by rw [hsplit]; rfl⟩
    | false => exact Or.inl rfl
  refine ⟨hcut, by omega, ?_⟩
  rw [ffAvcParseNalUnitsAt_eq addr hcode (by omega) hfirst, Nat.add_comm long.toNat 3]

/-- the records of the payloads, when the loops meet the start codes as they are written -/
theorem parse_met (addr : Nat) {l : List (Bool × Bytes)} (hl : l ≠ []) (hu : ∀ x ∈ l, Payload x.2)
    (hmet : CodesMet addr l) (hshort : shortCodes l ≤ 256) :
    ffAvcParseNalUnitsAt addr (stream l) = some (l.flatMap fun x => nalRecord x.2) := by
  obtain ⟨⟨long, u⟩, l, rfl⟩ := List.exists_cons_of_ne_nil hl
  obtain ⟨hcut, -, hparse⟩ := stream_parse addr hu
  have hsame := hcut.same hmet
  have hfirst : shortCodes ((long, u) :: l) + long.toNat = shortCodes l + 1 := by
    cases long <;> simp [shortCodes]
  rw [hparse, if_pos (by omega), hcut.units hmet, List.flatMap_cons, List.flatMap_cons,
    List.flatMap_map]

/-- **The splitting of a stream.**  Each payload comes out behind its size exactly when every start
code behind the first is met by the loop that returns its beginning and the start codes of three
bytes are 256 at most. -/
theorem ffAvcParseNalUnits_stream (addr : Nat) {l : List (Bool × Bytes)} (hl : l ≠ [])
    (hu : ∀ x ∈ l, Payload x.2) :
    ffAvcParseNalUnitsAt addr (stream l) = some (l.flatMap fun x => nalRecord x.2) ↔
      CodesMet addr l ∧ shortCodes l ≤ 256 := by
  constructor
  · intro h
    obtain ⟨⟨long, u⟩, l, rfl⟩ := List.exists_cons_of_ne_nil hl
    obtain ⟨hcut, hfit, hparse⟩ := stream_parse addr hu
    have hfirst : shortCodes ((long, u) :: l) + long.toNat = shortCodes l + 1 := by
      cases long <;> simp [shortCodes]
    rw [hparse] at h
    by_cases hbound : growth addr (stream ((long, u) :: l)) (3 + long.toNat)
        (codes (stream ((long, u) :: l)) (3 + long.toNat)) + 1 ≤ 256 + long.toNat
    · rw [if_pos hbound] at h
      -- the records have the length of the payloads' only if no start code cost a byte
      have heq := congrArg List.length (Option.some.inj h)
      rw [unitsAt_length addr hfit, records_length] at heq
      have hmet : MetAsWritten addr (stream ((long, u) :: l)).length (3 + long.toNat) u l := by
        by_contra hn
        have := hcut.more hn
        omega
      have := hcut.same hmet
      exact ⟨hmet, by omega⟩
    · rw [if_neg hbound] at h
      cases h
  · rintro ⟨hmet, hshort⟩
    exact parse_met addr hl hu hmet hshort

/-- a start code of three bytes behind a payload that is not followed by a word: both payloads come
out -/
theorem ffAvcParseNalUnits_stream_two :
    ffAvcParseNalUnitsAt 0 (stream [(true, [0x67, 0x42]), (false, [0x68])])
      = some ([(true, [0x67, 0x42]), (false, [0x68])].flatMap fun x => nalRecord x.2) :=
  (ffAvcParseNalUnits_stream 0 (by decide) (by decide)).mpr
    ⟨by simp [CodesMet, MetAsWritten, ByWord], by decide⟩

/-- a start code of three bytes that the loop over words meets: the first payload loses its last
byte, and an empty record stands between the two -/
theorem ffAvcParseNalUnits_last_byte :
    Payload [0x67, 0x42, 0xc0, 0x1e, 0xda] ∧ Payload [0x68, 0xce, 0x3c, 0x80] ∧
      ffAvcParseNalUnitsAt 0
        (stream [(true, [0x67, 0x42, 0xc0, 0x1e, 0xda]), (false, [0x68, 0xce, 0x3c, 0x80])])
        = some (nalRecord [0x67, 0x42, 0xc0, 0x1e] ++ nalRecord []
          ++ nalRecord [0x68, 0xce, 0x3c, 0x80]) ∧
      ffAvcParseNalUnitsAt 0
        (stream [(true, [0x67, 0x42, 0xc0, 0x1e, 0xda]), (false, [0x68, 0xce, 0x3c, 0x80])])
        ≠ some (nalRecord [0x67, 0x42, 0xc0, 0x1e, 0xda]
          ++ nalRecord [0x68, 0xce, 0x3c, 0x80]) := by
  refine ⟨by decide, by decide, by decide, by decide⟩

/-! ## the record of a CSD -/

/-- the type of a unit -/
def nalType (u : Bytes) : UInt8 := byteAt u 0 &&& 0x1f

/-- the set that a type belongs to: the SPS or the PPS -/
def Sets.get (r : Sets) : Bool → Option Nat × Nat
  | true => (r.pps, r.pps_size)
  | false => (r.sps, r.sps_size)

def setType : Bool → UInt8
  | true => 8
  | false => 7

theorem Sets.get_note (r : Sets) (ty : UInt8) (off size : Nat) (b : Bool) :
    (r.note ty off size).get b = if ty = setType b then (some (off + 4), size) else r.get b := by
  rw [Sets.note]
  by_cases h7 : ty = 7
  · cases b <;> simp [h7, Sets.get, setType]
  · by_cases h8 : ty = 8
    · cases b <;> simp [h8, Sets.get, setType]
    · cases b <;> simp [h7, h8, Sets.get, setType]

/-- the byte behind a size -/
theorem byteAt_record (a u : Bytes) (us : List Bytes) :
    byteAt (a ++ (u :: us).flatMap nalRecord) (a.length + 4)
      = byteAt (u ++ us.flatMap nalRecord) 0 := by
  rw [byteAt, byteAt, List.getD_eq_getElem?_getD, List.getD_eq_getElem?_getD,
    List.getElem?_append_right (Nat.le_add_right _ _), Nat.add_sub_cancel_left, List.flatMap_cons,
    nalRecord,
    List.append_assoc, List.getElem?_append_right (by simp)]
  simp

/-- **Of each type the last unit is kept**, at the place where it stands in the buffer. -/
theorem scanSets_get {buf a : Bytes} {us : List Bytes} (r : Sets) (b : Bool)
    (hbuf : buf = a ++ us.flatMap nalRecord) (hne : ∀ u ∈ us, u ≠ []) :
    (scanSets buf us a.length r).get b = r.get b ∧ (us.filter (nalType · = setType b)) = [] ∨
      ∃ u ∈ (us.filter (nalType · = setType b)).getLast?, ∃ off,
        (scanSets buf us a.length r).get b = (some off, u.length) ∧ slice buf off u.length = u := by
  induction us generalizing a r with
  | nil => exact Or.inl ⟨rfl, rfl⟩
  | cons u us ih =>
    have hsplit : buf = (a ++ nalRecord u) ++ us.flatMap nalRecord := by
      rw [hbuf, List.flatMap_cons, List.append_assoc]
    have htype : byteAt buf (a.length + 4) &&& 0x1f = nalType u := by
      rw [hbuf, byteAt_record, nalType]
      obtain ⟨x, t, rfl⟩ := List.exists_cons_of_ne_nil (hne u List.mem_cons_self)
      rfl
    have hunit : slice buf (a.length + 4) u.length = u := by
      have hs : buf = (a ++ be 4 u.length) ++ u ++ us.flatMap nalRecord := by
        rw [hsplit, nalRecord]
        simp only [List.append_assoc]
      have := slice_mid (a ++ be 4 u.length) u (us.flatMap nalRecord)
      rwa [← hs, List.length_append, be_length] at this
    have hrest :=
      ih (a := a ++ nalRecord u) (r.note (byteAt buf (a.length + 4) &&& 0x1f) a.length u.length)
        hsplit
      (fun v hv => hne v (List.mem_cons_of_mem u hv))
    rw [List.length_append, nalRecord_length, ← Nat.add_assoc, Sets.get_note, htype] at hrest
    rw [scanSets, htype]
    by_cases hty : nalType u = setType b
    · right
      rw [List.filter_cons_of_pos (by simpa using hty)]
      rcases hrest with ⟨h1, h2⟩ | ⟨v, hv, off, h1, h2⟩
      · rw [if_pos hty] at h1
        exact ⟨u, by rw [h2]; rfl, a.length + 4, h1, hunit⟩
      · refine ⟨v, ?_, off, h1, h2⟩
        rw [List.getLast?_cons_of_ne_nil (fun h => by rw [h] at hv; cases hv)]
        exact hv
    · rw [if_neg hty] at hrest
      rwa [List.filter_cons_of_neg (by simpa using hty)]

/-- AVCDecoderConfigurationRecord -/
def avcDecoderConfigurationRecord (sps pps : Bytes) : Bytes :=
  [1, byteAt sps 1, byteAt sps 2, byteAt sps 3, 0xff, 0xe1] ++ be 2 sps.length ++ sps ++ [1]
    ++ be 2 pps.length ++ pps

/-- behind a payload of four bytes a start code of four bytes is met by the loop over words -/
theorem met_long (addr : Nat) {len q : Nat} {u : Bytes} {us : List Bytes}
    (h4 : ∀ v ∈ u :: us, 4 ≤ v.length)
    (hlen : q + u.length + (stream (us.map (true, ·))).length ≤ len) :
    MetAsWritten addr len q u (us.map (true, ·)) := by
  induction us generalizing q u with
  | nil => trivial
  | cons v us ih =>
    have hu := h4 u List.mem_cons_self
    have hv := h4 v (List.mem_cons_of_mem _ List.mem_cons_self)
    rw [List.map_cons, stream_cons, List.length_append, List.length_append, startCode_length,
      Bool.toNat_true] at hlen
    dsimp only at hlen
    rw [List.map_cons, MetAsWritten, Bool.toNat_true]
    refine ⟨⟨fun _ => rfl, fun _ => ⟨by omega, by omega⟩⟩, ?_⟩
    exact ih (fun w hw => h4 w (List.mem_cons_of_mem u hw)) (by omega)

/-- a CSD whose start codes have four bytes is split into its units, at every address -/
theorem parse_long (addr : Nat) {us : List Bytes} (hne : us ≠ [])
    (hu : ∀ u ∈ us, Payload u ∧ 4 ≤ u.length) :
    ffAvcParseNalUnitsAt addr (stream (us.map (true, ·))) = some (us.flatMap nalRecord) := by
  have hpay : ∀ x ∈ us.map (true, ·), Payload x.2 := by
    intro x hx
    obtain ⟨u, hmem, rfl⟩ := List.mem_map.mp hx
    exact (hu u hmem).1
  have hshort : shortCodes (us.map (true, ·)) = 0 := by
    simp [shortCodes]
  have hmet : CodesMet addr (us.map (true, ·)) := by
    cases us with
    | nil => trivial
    | cons u us =>
      apply met_long addr (fun v hv => (hu v hv).2)
      rw [stream_cons, List.length_append, List.length_append, startCode_length]
      dsimp only
      omega
  rw [parse_met addr (by simpa using hne) hpay hmet (by omega), List.flatMap_map]

/-- a byte of a slice -/
theorem bufAt_slice (heap : Nat → UInt8) {buf u : Bytes} {off i : Nat}
    (h : slice buf off u.length = u) (hi : i < u.length) :
    bufAt heap buf (off + i) = byteAt u i := by
  have hget : buf[off + i]? = u[i]? := by
    conv_rhs => rw [← h]
    simp [slice, hi]
  rw [bufAt, byteAt, List.getD_eq_getElem?_getD, List.getD_eq_getElem?_getD, hget,
    List.getElem?_eq_getElem hi]
  rfl

/-- the set of a type is its last unit -/
theorem parameterSets_last (heap : Nat → UInt8) {us : List Bytes} {w : Bytes} (b : Bool)
    (hu : ∀ u ∈ us, u ≠ [] ∧ u.length < 2 ^ 32)
    (hw : (us.filter (nalType · = setType b)).getLast? = some w) :
    ∃ off, (parameterSets heap (us.flatMap nalRecord)).get b = (some off, w.length) ∧
      slice (us.flatMap nalRecord) off w.length = w := by
  rw [parameterSets_units heap (fun u hmem => (hu u hmem).2)
    (fun u hlast => (hu u (List.mem_of_getLast? hlast)).1)]
  rcases scanSets_get (a := []) ⟨none, 0, none, 0⟩ b
    rfl (fun u hmem => (hu u hmem).1) with ⟨-, h⟩ | ⟨u, h, off, h1, h2⟩
  · rw [h] at hw
    cases hw
  · cases Option.some.inj (hw.symm.trans h)
    exact ⟨off, h1, h2⟩

/-- **The body of `avcC`** for a CSD of NAL units behind start codes of four bytes, at every
address. -/
theorem ffIsomWriteAvcc_nals (addr : Nat) (heap : Nat → UInt8) {us : List Bytes} {sps pps : Bytes}
    (hu : ∀ u ∈ us, Payload u ∧ 4 ≤ u.length ∧ u.length ≤ 65535)
    (hs : (us.filter (nalType · = 7)).getLast? = some sps)
    (hp : (us.filter (nalType · = 8)).getLast? = some pps) :
    (ffIsomWriteAvccAt addr heap (stream (us.map (true, ·)))).map emitted
      = some (avcDecoderConfigurationRecord sps pps) ∧
      ffIsomGetAvccSizeAt addr heap (stream (us.map (true, ·)))
        = some (avcDecoderConfigurationRecord sps pps).length := by
  have hne : us ≠ [] := by
    rintro rfl
    cases hs
  have hsmem : sps ∈ us := List.mem_of_mem_filter (List.mem_of_getLast? hs)
  have hsize := (hu sps hsmem).2.1
  have hparse := parse_long addr hne (fun u hmem => ⟨(hu u hmem).1, (hu u hmem).2.1⟩)
  have hunits : ∀ u ∈ us, u ≠ [] ∧ u.length < 2 ^ 32 := fun u hmem =>
    ⟨(hu u hmem).1.ne_nil, by have := (hu u hmem).2.2; omega⟩
  obtain ⟨off, hsps, hsat⟩ := parameterSets_last heap false hunits hs
  obtain ⟨off', hpps, hpat⟩ := parameterSets_last heap true hunits hp
  obtain ⟨hs1, hs2⟩ := Prod.mk.inj hsps
  obtain ⟨hp1, hp2⟩ := Prod.mk.inj hpps
  have hstart : (stream (us.map (true, ·))).length > 6 ∧
      hasStartCode (stream (us.map (true, ·))) := by
    obtain ⟨u, us', rfl⟩ := List.exists_cons_of_ne_nil hne
    have h4 := (hu u List.mem_cons_self).2.1
    rw [List.map_cons, stream_cons]
    constructor
    · rw [List.length_append, List.length_append, startCode_length, Bool.toNat_true]
      dsimp only
      omega
    · rfl
  constructor
  · rw [ffIsomWriteAvccAt, if_pos hstart.1, if_pos hstart.2, hparse]
    simp only [Option.bind_some, hs1, hs2, hp1, hp2, Option.map_some, Option.getD_some, hsat, hpat,
      bufAt_slice heap hsat (show 1 < sps.length by omega),
      bufAt_slice heap hsat (show 2 < sps.length by omega),
      bufAt_slice heap hsat (show 3 < sps.length by omega), emitted_append, emitted_putByte,
      emitted_putBe16,
      emitted_putBuffer]
    simp [avcDecoderConfigurationRecord, be]
  · rw [ffIsomGetAvccSizeAt, if_pos hstart.1, if_pos hstart.2, hparse]
    simp [avcDecoderConfigurationRecord, hs2, hp2]
    omega

/-- the record of a CSD with two SPS and one PPS, its data at an odd address -/
theorem ffIsomWriteAvcc_nals_three :
    (ffIsomWriteAvccAt 3 (fun _ => 0)
      (stream ([[0x67, 0x4d, 0x40, 0x28, 0xda], [0x68, 0xce, 0x3c, 0x80],
        [0x67, 0x42, 0xc0, 0x1e]].map (true, ·)))).map
        emitted = some (avcDecoderConfigurationRecord [0x67, 0x42, 0xc0, 0x1e]
          [0x68, 0xce, 0x3c, 0x80]) ∧
    ffIsomGetAvccSizeAt 3 (fun _ => 0)
      (stream ([[0x67, 0x4d, 0x40, 0x28, 0xda], [0x68, 0xce, 0x3c, 0x80],
        [0x67, 0x42, 0xc0, 0x1e]].map (true, ·)))
        = some (avcDecoderConfigurationRecord [0x67, 0x42, 0xc0, 0x1e]
          [0x68, 0xce, 0x3c, 0x80]).length :=
  ffIsomWriteAvcc_nals 3 (fun _ => 0) (by decide) (by decide) (by decide)

/-! ## valid accesses -/

/-- an SPS is found among the units at `l`: the first byte of one says so, or, of an empty one, the
size of the next -/
def MarksSps (s : Bytes) : List (Nat × Nat) → Prop
  | [] => False
  | (q, n) :: l =>
    (if n = 0 then (l.head?.map (·.2)).getD 0 / 2 ^ 24 % 32 = 7 else (byteAt s q).toNat % 32 = 7) ∨
      MarksSps s l

instance decMarksSps (s : Bytes) : (l : List (Nat × Nat)) → Decidable (MarksSps s l)
  | [] => inferInstanceAs (Decidable False)
  | (_, _) :: l =>
    have : Decidable (MarksSps s l) := decMarksSps s l
    inferInstanceAs (Decidable (_ ∨ _))

end Pluto.Mp4

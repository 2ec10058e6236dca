import Pluto.Bytes.Boxes

/-!
# Samples in chunks

The samples of several tracks are stored one after the other; a maximal run of samples of one track
is a chunk.  A reader finds a sample from three tables: the offset of each chunk, the number of
samples in each chunk, the size of each sample.

* `SampleTable`, `SampleTable.resolve`   the tables of a track and the offset and size of its
                             `k`-th sample;
* `sampleTable`              the tables read from the boxes `stco`, `stsc`, `stsz`;
* `Layout`, `Layout.add`     the chunks that a sequence of samples makes.

Tables that list the chunks of a layout resolve every sample to the place where its bytes stand
(`resolveIn_chunks`, `Layout.Of.stored`).
-/

namespace SampleTables
open Octets Boxes

/-! ## chunks -/

structure Chunk where
  offset : Nat
  samples : List Bytes

def Chunk.bytes (c : Chunk) : Bytes := c.samples.flatten

/-- the file holds the samples of the chunk, one after the other, at its offset -/
def Chunk.Stored (file : Bytes) (c : Chunk) : Prop :=
  c.offset + c.bytes.length ≤ file.length ∧ slice file c.offset c.bytes.length = c.bytes

def samplesOf (cs : List Chunk) : List Bytes := cs.flatMap Chunk.samples

@[simp] theorem samplesOf_nil : samplesOf [] = [] := rfl

@[simp] theorem samplesOf_cons (c : Chunk) (cs : List Chunk) :
    samplesOf (c :: cs) = c.samples ++ samplesOf cs := rfl

theorem samplesOf_append (cs ds : List Chunk) :
    samplesOf (cs ++ ds) = samplesOf cs ++ samplesOf ds :=
  List.flatMap_append

/-! ## tables -/

structure SampleTable where
  /-- `stco`: where each chunk starts -/
  offsets : List Nat
  /-- `stsc`: a chunk number, from one on, and the samples in each chunk from there on -/
  runs : List (Nat × Nat)
  /-- `stsz`: the size of each sample -/
  sizes : List Nat

/-- the number of samples in chunk `j`: what the last run at or before `j` says -/
def samplesIn (runs : List (Nat × Nat)) (j : Nat) : Nat :=
  (((runs.filter fun r => r.1 ≤ j).getLast?).map Prod.snd).getD 0

/-- the offset and the size of sample `k`: `per` and `offsets` are the sample counts and the offsets
of the chunks, `sizes` are the sizes of the samples in them -/
def resolveIn : List Nat → List Nat → List Nat → Nat → Option (Nat × Nat)
  | n :: per, o :: offsets, sizes, k =>
    if k < n then (sizes[k]?).map fun z => (o + (sizes.take k).sum, z)
    else resolveIn per offsets (sizes.drop n) (k - n)
  | _, _, _, _ => none

def SampleTable.perChunk (T : SampleTable) : List Nat :=
  (List.range T.offsets.length).map fun j => samplesIn T.runs (j + 1)

def SampleTable.resolve (T : SampleTable) (k : Nat) : Option (Nat × Nat) :=
  resolveIn T.perChunk T.offsets T.sizes k

theorem getD_of_lt (l : List Nat) {i : Nat} (h : i < l.length) : l.getD i 0 = l[i] := by
  rw [List.getD_eq_getElem?_getD, List.getElem?_eq_getElem h]
  rfl

/-- a list read by its indices -/
theorem map_range_eq {β : Type*} {f : Nat → β} {l : List β}
    (h : ∀ i (hi : i < l.length), f i = l[i]) :
    (List.range l.length).map f = l := by
  apply List.ext_getElem
  · rw [List.length_map, List.length_range]
  · intro i h1 h2
    rw [List.getElem_map, List.getElem_range]
    exact h i h2

/-- one run for each chunk -/
def runsOf (per : List Nat) : List (Nat × Nat) :=
  (List.range per.length).map fun i => (i + 1, per.getD i 0)

theorem runsOf_snd (per : List Nat) : (runsOf per).map Prod.snd = per := by
  unfold runsOf
  rw [List.map_map]
  exact map_range_eq fun i hi => getD_of_lt per hi

theorem samplesIn_runsOf (per : List Nat) (j : Nat) (h : j < per.length) :
    samplesIn (runsOf per) (j + 1) = per.getD j 0 := by
  have hsplit : List.range per.length
      = List.range (j + 1) ++ (List.range (per.length - (j + 1))).map (j + 1 + ·) := by
    rw [← List.range_add]
    congr 1
    omega
  have hfilter : (runsOf per).filter (fun r => r.1 ≤ j + 1)
      = (List.range (j + 1)).map fun i => (i + 1, per.getD i 0) := by
    unfold runsOf
    rw [List.filter_map, hsplit, List.filter_append]
    have h1 : (List.range (j + 1)).filter
        ((fun r : Nat × Nat => decide (r.1 ≤ j + 1)) ∘ fun i => (i + 1, per.getD i 0))
        = List.range (j + 1) :=
      List.filter_eq_self.mpr fun i hi => by
        have := List.mem_range.mp hi
        exact decide_eq_true (show i + 1 ≤ j + 1 by omega)
    have h2 : ((List.range (per.length - (j + 1))).map (j + 1 + ·)).filter
        ((fun r : Nat × Nat => decide (r.1 ≤ j + 1)) ∘ fun i => (i + 1, per.getD i 0)) = [] :=
      List.filter_eq_nil_iff.mpr fun i hi => by
        obtain ⟨a, -, rfl⟩ := List.mem_map.mp hi
        simp only [Function.comp_apply, decide_eq_true_eq]
        omega
    rw [h1, h2, List.append_nil]
  unfold samplesIn
  rw [hfilter, List.range_succ, List.map_append, List.map_singleton, List.getLast?_concat]
  rfl

theorem perChunk_runsOf (offsets sizes per : List Nat) (h : offsets.length = per.length) :
    (SampleTable.mk offsets (runsOf per) sizes).perChunk = per := by
  unfold SampleTable.perChunk
  dsimp only
  rw [h]
  exact map_range_eq fun j hj => (samplesIn_runsOf per j hj).trans (getD_of_lt per hj)

theorem slice_flatten (l : List Bytes) (k : Nat) (h : k < l.length) :
    ((l.map List.length).take k).sum + l[k].length ≤ l.flatten.length ∧
      slice l.flatten ((l.map List.length).take k).sum l[k].length = l[k] := by
  induction l generalizing k with
  | nil => cases h
  | cons b l ih =>
    cases k with
    | zero =>
      refine ⟨by simp, ?_⟩
      have := slice_mid [] b l.flatten
      simpa using this
    | succ k =>
      obtain ⟨h1, h2⟩ := ih k (Nat.lt_of_succ_lt_succ h)
      rw [List.getElem_cons_succ, List.map_cons, List.take_succ_cons, List.sum_cons,
        List.flatten_cons, List.length_append]
      refine ⟨by omega, ?_⟩
      rw [slice_append_right _ _ _ _ (Nat.le_add_right _ _), Nat.add_sub_cancel_left]
      exact h2

/-- **Tables that list the chunks resolve every sample.** -/
theorem resolveIn_chunks {file : Bytes} {cs : List Chunk} (hs : ∀ c ∈ cs, c.Stored file) (k : Nat)
    (hk : k < (samplesOf cs).length) :
    ∃ off, resolveIn (cs.map fun c => c.samples.length) (cs.map Chunk.offset)
        ((samplesOf cs).map List.length) k = some (off, (samplesOf cs)[k].length) ∧
      off + (samplesOf cs)[k].length ≤ file.length ∧
      slice file off (samplesOf cs)[k].length = (samplesOf cs)[k] := by
  induction cs generalizing k with
  | nil => cases hk
  | cons c cs ih =>
    have hlen : (samplesOf (c :: cs)).length = c.samples.length + (samplesOf cs).length := by
      rw [samplesOf_cons, List.length_append]
    rw [List.map_cons, List.map_cons, resolveIn]
    by_cases hc : k < c.samples.length
    · -- the sample is in this chunk
      have hget : (samplesOf (c :: cs))[k] = c.samples[k] := List.getElem_append_left hc
      have htake : (((samplesOf (c :: cs)).map List.length).take k)
          = (c.samples.map List.length).take k := by
        rw [samplesOf_cons, List.map_append, List.take_append_of_le_length]
        rw [List.length_map]
        exact hc.le
      obtain ⟨hin, hfile⟩ := hs c List.mem_cons_self
      obtain ⟨h1, h2⟩ := slice_flatten c.samples k hc
      refine ⟨c.offset + ((c.samples.map List.length).take k).sum, ?_, ?_, ?_⟩
      · rw [if_pos hc, List.getElem?_map, List.getElem?_eq_getElem hk, htake]
        rfl
      · rw [hget]
        unfold Chunk.bytes at hin
        omega
      · rw [hget, ← slice_slice file c.offset c.bytes.length _ _ h1, hfile]
        exact h2
    · -- it is in a later one
      have hk' : k - c.samples.length < (samplesOf cs).length := by omega
      have hget : (samplesOf (c :: cs))[k] = (samplesOf cs)[k - c.samples.length] :=
        List.getElem_append_right (Nat.le_of_not_lt hc)
      have hdrop : ((samplesOf (c :: cs)).map List.length).drop c.samples.length
          = (samplesOf cs).map List.length := by
        rw [samplesOf_cons, List.map_append, ← List.length_map (f := List.length), List.drop_left]
      obtain ⟨off, h1, h2, h3⟩ := ih (fun d hd => hs d (List.mem_cons_of_mem c hd)) _ hk'
      rw [if_neg hc, hdrop, hget]
      exact ⟨off, h1, h2, h3⟩

/-- the table that lists these chunks -/
def tableOfChunks (cs : List Chunk) : SampleTable where
  offsets := cs.map Chunk.offset
  runs := runsOf (cs.map fun c => c.samples.length)
  sizes := (samplesOf cs).map List.length

/-- as many runs as chunks, and as many sizes as samples in them -/
theorem tableOfChunks_counts (cs : List Chunk) :
    (tableOfChunks cs).offsets.length = (tableOfChunks cs).runs.length ∧
      ((tableOfChunks cs).runs.map Prod.snd).sum = (tableOfChunks cs).sizes.length := by
  refine ⟨?_, ?_⟩
  · show (cs.map Chunk.offset).length = (runsOf (cs.map fun c => c.samples.length)).length
    rw [runsOf, List.length_map, List.length_map, List.length_range, List.length_map]
  · show ((runsOf (cs.map fun c => c.samples.length)).map Prod.snd).sum
      = ((samplesOf cs).map List.length).length
    rw [runsOf_snd, List.length_map, samplesOf, List.length_flatMap]

theorem tableOfChunks_resolve {file : Bytes} {cs : List Chunk} (hs : ∀ c ∈ cs, c.Stored file)
    (k : Nat) (hk : k < (samplesOf cs).length) :
    ∃ off, (tableOfChunks cs).resolve k = some (off, (samplesOf cs)[k].length) ∧
      off + (samplesOf cs)[k].length ≤ file.length ∧
      slice file off (samplesOf cs)[k].length = (samplesOf cs)[k] := by
  have hper : (tableOfChunks cs).perChunk = cs.map fun c => c.samples.length :=
    perChunk_runsOf _ _ _ (by rw [List.length_map, List.length_map])
  unfold SampleTable.resolve
  rw [hper]
  exact resolveIn_chunks hs k hk

/-! ## the tables in a file -/

/-- the 32-bit field at offset `p` -/
def word (s : Bytes) (p : Nat) : Nat := ofBe (slice s p 4)

def stcoEntries (b : Bytes) : List Nat := (List.range (word b 4)).map fun i => word b (8 + 4 * i)

/-- the numbers of the samples that a reader may start at, in the fields of `stco` -/
def stssEntries (b : Bytes) : List Nat := stcoEntries b

def stscEntries (b : Bytes) : List (Nat × Nat) :=
  (List.range (word b 4)).map fun i => (word b (8 + 12 * i), word b (8 + 12 * i + 4))

/-- one common size, or a size for each sample -/
def stszEntries (b : Bytes) : List Nat :=
  if word b 4 = 0 then (List.range (word b 8)).map fun i => word b (12 + 4 * i)
  else List.replicate (word b 8) (word b 4)

/-- the tables of a track, from the body of its `stbl` box -/
def sampleTable (stbl : Bytes) : Option SampleTable :=
  match findBox (fourcc 's' 't' 'c' 'o').val stbl, findBox (fourcc 's' 't' 's' 'c').val stbl,
      findBox (fourcc 's' 't' 's' 'z').val stbl with
  | some stco, some stsc, some stsz => some ⟨stcoEntries stco, stscEntries stsc, stszEntries stsz⟩
  | _, _, _ => none

/-- record `i` of a sequence of records of one width -/
theorem slice_records {α : Type} (f : α → Bytes) (w : Nat) (hf : ∀ a, (f a).length = w)
    (as : List α) (i : Nat) (h : i < as.length) : slice (as.flatMap f) (w * i) w = f as[i] := by
  induction as generalizing i with
  | nil => cases h
  | cons a as ih =>
    cases i with
    | zero =>
      have := slice_mid [] (f a) (as.flatMap f)
      rw [List.nil_append, List.length_nil, hf] at this
      exact this
    | succ i =>
      have hw : w * (i + 1) - (f a).length = w * i := by rw [hf, Nat.mul_succ, Nat.add_sub_cancel]
      rw [List.flatMap_cons, slice_append_right _ _ _ _ (by rw [hf, Nat.mul_succ]; omega), hw]
      exact ih i (Nat.lt_of_succ_lt_succ h)

theorem word_at (a b : Bytes) (v : Nat) (h : v < 2 ^ 32) :
    word (a ++ be 4 v ++ b) a.length = v := by
  have h4 : (be 4 v).length = 4 := be_length 4 v
  have := slice_mid a (be 4 v) b
  rw [h4] at this
  rw [word, this]
  exact ofBe_be 4 v (by omega)

theorem word_record {α : Type} (pre : Bytes) (f : α → Bytes) (w : Nat) (hf : ∀ a, (f a).length = w)
    (as : List α) (i q : Nat) (h : i < as.length) (hq : q + 4 ≤ w) :
    word (pre ++ as.flatMap f) (pre.length + w * i + q) = word (f as[i]) q := by
  unfold word
  rw [slice_append_right _ _ _ _ (by omega),
    show pre.length + w * i + q - pre.length = w * i + q by omega,
    ← slice_slice _ (w * i) w q 4 hq, slice_records f w hf as i h]

theorem word_be (v : Nat) (h : v < 2 ^ 32) : word (be 4 v) 0 = v := by
  have := word_at [] [] v h
  rwa [List.nil_append, List.append_nil] at this

theorem stcoEntries_eq (vs : List Nat) (hn : vs.length < 2 ^ 32) (hv : ∀ v ∈ vs, v < 2 ^ 32) :
    stcoEntries (be 4 0 ++ be 4 vs.length ++ vs.flatMap (be 4)) = vs := by
  have hcount : word (be 4 0 ++ be 4 vs.length ++ vs.flatMap (be 4)) 4 = vs.length :=
    word_at (be 4 0) _ _ hn
  unfold stcoEntries
  rw [hcount]
  refine map_range_eq fun i hi => ?_
  have := word_record (be 4 0 ++ be 4 vs.length) (be 4) 4 (be_length 4) vs i 0 hi (by omega)
  exact this.trans (word_be _ (hv _ (List.getElem_mem hi)))

theorem stszEntries_eq (vs : List Nat) (hn : vs.length < 2 ^ 32) (hv : ∀ v ∈ vs, v < 2 ^ 32) :
    stszEntries (be 4 0 ++ be 4 0 ++ be 4 vs.length ++ vs.flatMap (be 4)) = vs := by
  have hcount : word (be 4 0 ++ be 4 0 ++ be 4 vs.length ++ vs.flatMap (be 4)) 8 = vs.length :=
    word_at (be 4 0 ++ be 4 0) _ _ hn
  have hzero : word (be 4 0 ++ be 4 0 ++ be 4 vs.length ++ vs.flatMap (be 4)) 4 = 0 := by
    rw [List.append_assoc (be 4 0 ++ be 4 0)]
    exact word_at (be 4 0) _ 0 (by norm_num)
  unfold stszEntries
  rw [if_pos hzero, hcount]
  refine map_range_eq fun i hi => ?_
  have :=
    word_record (be 4 0 ++ be 4 0 ++ be 4 vs.length) (be 4) 4 (be_length 4) vs i 0 hi (by omega)
  exact this.trans (word_be _ (hv _ (List.getElem_mem hi)))

/-- the record of a run: the first chunk, the samples per chunk, the sample description -/
def runRecord (r : Nat × Nat) : Bytes := be 4 r.1 ++ be 4 r.2 ++ be 4 1

theorem runRecord_length (r : Nat × Nat) : (runRecord r).length = 12 := by
  simp [runRecord]

theorem stscEntries_eq (rs : List (Nat × Nat)) (hn : rs.length < 2 ^ 32)
    (hv : ∀ r ∈ rs, r.1 < 2 ^ 32 ∧ r.2 < 2 ^ 32) :
    stscEntries (be 4 0 ++ be 4 rs.length ++ rs.flatMap runRecord) = rs := by
  have hcount : word (be 4 0 ++ be 4 rs.length ++ rs.flatMap runRecord) 4 = rs.length :=
    word_at (be 4 0) _ _ hn
  unfold stscEntries
  rw [hcount]
  refine map_range_eq fun i hi => ?_
  obtain ⟨hr1, hr2⟩ := hv _ (List.getElem_mem hi)
  have e1 :=
    word_record (be 4 0 ++ be 4 rs.length) runRecord 12 runRecord_length rs i 0 hi (by omega)
  have e2 :=
    word_record (be 4 0 ++ be 4 rs.length) runRecord 12 runRecord_length rs i 4 hi (by omega)
  have f1 : word (runRecord rs[i]) 0 = rs[i].1 := by
    have := word_at [] (be 4 rs[i].2 ++ be 4 1) _ hr1
    rwa [List.nil_append, ← List.append_assoc] at this
  have f2 : word (runRecord rs[i]) 4 = rs[i].2 := word_at (be 4 rs[i].1) (be 4 1) _ hr2
  exact Prod.ext (e1.trans f1) (e2.trans f2)

/-! ## layouts -/

variable {τ : Type}

/-- the chunks of each track; the samples of the current one may still grow in number -/
structure Layout (τ : Type) where
  closed : τ → List Chunk
  current : Option (τ × Chunk)
  size : Nat

def Layout.empty : Layout τ where
  closed _ := []
  current := none
  size := 0

/-- the bytes of a sequence of samples -/
def payload (es : List (τ × Bytes)) : Bytes := es.flatMap Prod.snd

theorem payload_snoc (es : List (τ × Bytes)) (e : τ × Bytes) :
    payload (es ++ [e]) = payload es ++ e.2 := by
  simp [payload]

variable [DecidableEq τ]

/-- the current chunk, if it is one of this track -/
def openChunk (current : Option (τ × Chunk)) (t : τ) : List Chunk :=
  match current with
  | none => []
  | some (u, c) => if u = t then [c] else []

def Layout.chunks (x : Layout τ) (t : τ) : List Chunk := x.closed t ++ openChunk x.current t

/-- one more sample; the first byte of all samples stands at `base` -/
def Layout.add (base : Nat) (x : Layout τ) (e : τ × Bytes) : Layout τ :=
  match x.current with
  | none => { x with current := some (e.1, ⟨base + x.size, [e.2]⟩), size := x.size + e.2.length }
  | some (u, c) =>
    if u = e.1 then
      { x with
        current := some (u, { c with samples := c.samples ++ [e.2] })
        size := x.size + e.2.length }
    else
      { closed := Function.update x.closed u (x.closed u ++ [c])
        current := some (e.1, ⟨base + x.size, [e.2]⟩)
        size := x.size + e.2.length }

/-- the samples of a track -/
def track (t : τ) (es : List (τ × Bytes)) : List Bytes := (es.filter fun e => e.1 = t).map Prod.snd

/-- the chunk of these bytes of the payload -/
def Chunk.In (base : Nat) (bytes : Bytes) (c : Chunk) : Prop :=
  ∃ p q, bytes = p ++ c.bytes ++ q ∧ c.offset = base + p.length

/-- what a layout says about the samples it was made from -/
structure Layout.Of (base : Nat) (es : List (τ × Bytes)) (x : Layout τ) : Prop where
  size : x.size = (payload es).length
  samples : ∀ t, samplesOf (x.chunks t) = track t es
  closed : ∀ t, ∀ c ∈ x.closed t, c.In base (payload es)
  current : ∀ u c, x.current = some (u, c) →
    ∃ p, payload es = p ++ c.bytes ∧ c.offset = base + p.length

theorem Chunk.In.append {base : Nat} {a : Bytes} {c : Chunk} (h : c.In base a) (b : Bytes) :
    c.In base (a ++ b) := by
  obtain ⟨p, q, rfl, hc⟩ := h
  exact ⟨p, q ++ b, List.append_assoc _ _ _, hc⟩

theorem track_snoc (t : τ) (es : List (τ × Bytes)) (e : τ × Bytes) :
    track t (es ++ [e]) = track t es ++ if e.1 = t then [e.2] else [] := by
  unfold track
  rw [List.filter_append, List.map_append]
  by_cases h : e.1 = t
  · rw [if_pos h, List.filter_cons_of_pos (by simpa using h)]
    rfl
  · rw [if_neg h, List.filter_cons_of_neg (by simpa using h)]
    rfl

theorem Layout.of_empty (base : Nat) : Layout.Of base [] (Layout.empty : Layout τ) where
  size := rfl
  samples _ := rfl
  closed _ _ h := nomatch h
  current _ _ h := nomatch h

/-! ## one more sample -/

/-- a sample of another track than the one before, or the first one -/
def Layout.Switches (x : Layout τ) (t : τ) : Prop := x.current.map Prod.fst ≠ some t

instance (x : Layout τ) (t : τ) : Decidable (x.Switches t) := inferInstanceAs (Decidable (_ ≠ _))

/-- the chunk that a sample of track `u` ends, if it is one of track `t` -/
def Layout.ended (x : Layout τ) (u t : τ) : List Chunk :=
  if u = t then [] else openChunk x.current t

theorem samplesOf_chunks (x : Layout τ) (t : τ) :
    samplesOf (x.chunks t) = samplesOf (x.closed t) ++ samplesOf (openChunk x.current t) :=
  samplesOf_append _ _

theorem add_size (base : Nat) (x : Layout τ) (e : τ × Bytes) :
    (x.add base e).size = x.size + e.2.length := by
  unfold Layout.add
  rcases x.current with _ | ⟨u, c⟩
  · rfl
  · dsimp only
    split <;> rfl

theorem add_switch {base : Nat} {x : Layout τ} {e : τ × Bytes} (h : x.Switches e.1) :
    (x.add base e).current = some (e.1, ⟨base + x.size, [e.2]⟩) := by
  unfold Layout.Switches at h
  unfold Layout.add
  rcases hcur : x.current with _ | ⟨u, c⟩
  · rfl
  · rw [hcur] at h
    dsimp only
    rw [if_neg fun he => h (congrArg some he)]

theorem add_stay (base : Nat) {x : Layout τ} {e : τ × Bytes} (h : ¬ x.Switches e.1) :
    ∃ c, x.current = some (e.1, c) ∧
      (x.add base e).current = some (e.1, { c with samples := c.samples ++ [e.2] }) := by
  unfold Layout.Switches at h
  rw [not_not] at h
  unfold Layout.add
  rcases hcur : x.current with _ | ⟨u, c⟩
  · rw [hcur] at h
    cases h
  · rw [hcur] at h
    have hu : u = e.1 := Option.some.inj h
    dsimp only
    rw [if_pos hu, hu]
    exact ⟨c, rfl, rfl⟩

theorem add_current (base : Nat) (x : Layout τ) (e : τ × Bytes) :
    (x.add base e).current.map Prod.fst = some e.1 := by
  by_cases h : x.Switches e.1
  · rw [add_switch h]
    rfl
  · obtain ⟨c, -, hc⟩ := add_stay base h
    rw [hc]
    rfl

theorem add_closed (base : Nat) (x : Layout τ) (e : τ × Bytes) (t : τ) :
    (x.add base e).closed t = x.closed t ++ x.ended e.1 t := by
  unfold Layout.add Layout.ended openChunk
  rcases hcur : x.current with _ | ⟨u, c⟩
  · dsimp only
    split <;> rw [List.append_nil]
  · dsimp only
    by_cases hu : u = e.1
    · rw [if_pos hu]
      dsimp only
      by_cases ht : e.1 = t
      · rw [if_pos ht, List.append_nil]
      · rw [if_neg ht, if_neg fun h => ht (hu.symm.trans h), List.append_nil]
    · rw [if_neg hu]
      dsimp only
      by_cases ht : u = t
      · subst ht
        rw [Function.update_self, if_neg (Ne.symm hu), if_pos rfl]
      · rw [Function.update_of_ne (Ne.symm ht), if_neg ht]
        split <;> rw [List.append_nil]

/-- the open chunk of a track is ended, goes on or is a new one -/
theorem add_open (base : Nat) (x : Layout τ) (e : τ × Bytes) (t : τ) :
    openChunk (x.add base e).current t
      = if e.1 = t then
          if x.Switches t then [⟨base + x.size, [e.2]⟩]
          else (openChunk x.current t).map fun c => { c with samples := c.samples ++ [e.2] }
        else [] := by
  by_cases ht : e.1 = t
  · subst ht
    rw [if_pos rfl]
    by_cases h : x.Switches e.1
    · rw [if_pos h, add_switch h]
      exact if_pos rfl
    · obtain ⟨c, hx, hc⟩ := add_stay base h
      rw [if_neg h, hc, hx]
      unfold openChunk
      dsimp only
      rw [if_pos rfl, if_pos rfl]
      rfl
  · have hcur := add_current base x e
    rw [if_neg ht]
    rcases hadd : (x.add base e).current with _ | ⟨u, c⟩
    · rfl
    · rw [hadd] at hcur
      have hu : u = e.1 := Option.some.inj hcur
      exact if_neg fun h => ht (hu.symm.trans h)

theorem open_switches {x : Layout τ} {t : τ} (h : x.Switches t) : openChunk x.current t = [] := by
  unfold Layout.Switches at h
  rcases hcur : x.current with _ | ⟨u, c⟩
  · rfl
  · rw [hcur] at h
    exact if_neg fun hu => h (congrArg some hu)

theorem add_samples (base : Nat) (x : Layout τ) (e : τ × Bytes) (t : τ) :
    samplesOf ((x.add base e).chunks t) = samplesOf (x.chunks t) ++ if e.1 = t then [e.2]
      else [] := by
  rw [samplesOf_chunks, samplesOf_chunks, add_closed, add_open, samplesOf_append, Layout.ended]
  by_cases ht : e.1 = t
  · rw [if_pos ht, if_pos ht, if_pos ht, samplesOf_nil, List.append_nil]
    by_cases h : x.Switches t
    · rw [if_pos h, open_switches h, samplesOf_nil, List.append_nil]
      rfl
    · rw [if_neg h, List.append_assoc]
      subst ht
      obtain ⟨c, hx, -⟩ := add_stay base h
      rw [hx]
      unfold openChunk
      dsimp only
      rw [if_pos rfl]
      simp
  · rw [if_neg ht, if_neg ht, if_neg ht, samplesOf_nil]

theorem add_offsets (base : Nat) (x : Layout τ) (e : τ × Bytes) (t : τ) :
    ((x.add base e).chunks t).map Chunk.offset
      = (x.chunks t).map Chunk.offset ++ if e.1 = t ∧ x.Switches t then [base + x.size]
        else [] := by
  unfold Layout.chunks
  rw [List.map_append, List.map_append, add_closed, add_open, List.map_append, Layout.ended]
  by_cases ht : e.1 = t
  · rw [if_pos ht, if_pos ht, List.map_nil, List.append_nil]
    by_cases h : x.Switches t
    · rw [if_pos h, if_pos ⟨ht, h⟩, open_switches h, List.map_nil, List.append_nil]
      rfl
    · rw [if_neg h, if_neg fun hc => h hc.2, List.map_map, List.append_nil]
      rfl
  · rw [if_neg ht, if_neg ht, if_neg fun hc => ht hc.1]
    rfl

/-! ## what a layout says about its samples -/

theorem Layout.Of.add {base : Nat} {es : List (τ × Bytes)} {x : Layout τ} (h : x.Of base es)
    (e : τ × Bytes) :
    (x.add base e).Of base (es ++ [e]) := by
  refine ⟨?_, ?_, ?_, ?_⟩
  · rw [add_size, payload_snoc, List.length_append, h.size]
  · intro t
    rw [add_samples, track_snoc, h.samples]
  · intro t c hc
    rw [payload_snoc]
    rw [add_closed] at hc
    rcases List.mem_append.mp hc with hc | hc
    · exact (h.closed t c hc).append e.2
    · -- the chunk that has just ended
      unfold Layout.ended openChunk at hc
      rcases hcur : x.current with _ | ⟨u, d⟩
      · rw [hcur] at hc
        split at hc <;> cases hc
      · obtain ⟨p, hp, ho⟩ := h.current u d hcur
        rw [hcur] at hc
        have hcd : c = d := by
          split at hc
          · cases hc
          · dsimp only at hc
            split at hc
            · exact List.mem_singleton.mp hc
            · cases hc
        rw [hcd]
        exact ⟨p, e.2, by rw [hp], ho⟩
  · intro u c hc
    by_cases hs : x.Switches e.1
    · rw [add_switch hs] at hc
      cases hc
      refine ⟨payload es, ?_, by rw [h.size]⟩
      rw [payload_snoc]
      simp [Chunk.bytes]
    · obtain ⟨d, hd, hadd⟩ := add_stay base hs
      obtain ⟨p, hp, ho⟩ := h.current _ _ hd
      rw [hadd] at hc
      cases hc
      refine ⟨p, ?_, ho⟩
      rw [payload_snoc, hp, List.append_assoc]
      simp [Chunk.bytes]

/-- the layout of a sequence of samples -/
def layout (base : Nat) (es : List (τ × Bytes)) : Layout τ :=
  es.foldl (Layout.add base) Layout.empty

theorem layout_of (base : Nat) (es : List (τ × Bytes)) : (layout base es).Of base es := by
  induction es using List.reverseRecOn with
  | nil => exact Layout.of_empty base
  | append_singleton es e ih =>
    unfold layout at ih ⊢
    rw [List.foldl_append]
    exact ih.add e

/-- the number of maximal runs of `t` in a list behind an element `last` -/
def runCount (t : τ) : Option τ → List τ → Nat
  | _, [] => 0
  | last, u :: us => (if u = t ∧ last ≠ some t then 1 else 0) + runCount t (some u) us

theorem add_count (base : Nat) (x : Layout τ) (e : τ × Bytes) (t : τ) :
    ((x.add base e).chunks t).length = (x.chunks t).length + if e.1 = t ∧ x.Switches t then 1
      else 0 := by
  have h := congrArg List.length (add_offsets base x e t)
  rw [List.length_map, List.length_append, List.length_map] at h
  rw [h]
  split <;> rfl

theorem le_add_count (base : Nat) (x : Layout τ) (e : τ × Bytes) (t : τ) :
    (x.chunks t).length ≤ ((x.add base e).chunks t).length := by
  rw [add_count]
  exact Nat.le_add_right _ _

theorem foldl_count (base : Nat) (es : List (τ × Bytes)) (x : Layout τ) (t : τ) :
    ((es.foldl (Layout.add base) x).chunks t).length
      = (x.chunks t).length + runCount t (x.current.map Prod.fst) (es.map Prod.fst) := by
  induction es generalizing x with
  | nil => rfl
  | cons e es ih =>
    rw [List.foldl_cons, ih, add_count, add_current, List.map_cons, runCount, Nat.add_assoc]
    rfl

/-- the chunks of a track are the runs of its samples -/
theorem layout_count (base : Nat) (es : List (τ × Bytes)) (t : τ) :
    ((layout base es).chunks t).length = runCount t none (es.map Prod.fst) := by
  have h := foldl_count base es Layout.empty t
  rw [show ((Layout.empty : Layout τ).chunks t).length = 0 from rfl, Nat.zero_add] at h
  exact h

/-- the chunks of a layout stand in every file that holds the payload at `base` -/
theorem Layout.Of.stored {base : Nat} {es : List (τ × Bytes)} {x : Layout τ} (h : x.Of base es)
    {file : Bytes} (hlen : base + (payload es).length ≤ file.length)
    (hfile : slice file base (payload es).length = payload es) (t : τ) :
    ∀ c ∈ x.chunks t, c.Stored file := by
  have of_in : ∀ c : Chunk, c.In base (payload es) → c.Stored file := by
    rintro c ⟨p, q, hpq, ho⟩
    have hl : (payload es).length = p.length + c.bytes.length + q.length := by
      rw [hpq, List.length_append, List.length_append]
    refine ⟨by omega, ?_⟩
    rw [ho, ← slice_slice file base (payload es).length p.length c.bytes.length (by omega), hfile,
      hpq]
    exact slice_mid p c.bytes q
  intro c hc
  rcases List.mem_append.mp hc with hc | hc
  · exact of_in c (h.closed t c hc)
  · rcases hcur : x.current with _ | ⟨u, d⟩
    · rw [hcur] at hc
      cases hc
    · rw [hcur] at hc
      unfold openChunk at hc
      dsimp only at hc
      by_cases hu : u = t
      · obtain ⟨p, hp, ho⟩ := h.current u d hcur
        rw [if_pos hu] at hc
        rw [List.mem_singleton.mp hc]
        exact of_in d ⟨p, [], by rw [hp, List.append_nil], ho⟩
      · rw [if_neg hu] at hc
        cases hc

end SampleTables

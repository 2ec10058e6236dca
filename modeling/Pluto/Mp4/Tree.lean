import Pluto.Mp4.Moov
import Pluto.Bytes.TimeTable

/-!
# `moov` is a tree of boxes

The bytes that the write function of a box emits are the encoding of a `Box`, and the size function
of the box is the length of this encoding.  A box of a track is described from the context as it is
when the track is written: the read pointers stand at the start of its tables.

* `stcoBox` … `trakBox`, `moovBox`        the boxes;
* `emitted_stbl` … `emitted_trak`, `emitted_moov`   what the write functions emit;
* `stbl_length` … `trak_length`           what the size functions return;
* `Writable`                              when the box of a track is written at all.
-/

namespace Pluto.Mp4
open Octets Boxes SampleTables

/-! ## one box -/

theorem emitted_flatMap {α : Type} (l : List α) (f : α → List CacheWrite) :
    emitted (l.flatMap f) = l.flatMap fun a => emitted (f a) := by
  induction l with
  | nil => rfl
  | cons a l ih => rw [List.flatMap_cons, List.flatMap_cons, emitted_append, ih]

theorem flatMap_length {α : Type} (l : List α) (f : α → Bytes) (w : Nat)
    (h : ∀ a ∈ l, (f a).length = w) :
    (l.flatMap f).length = w * l.length := by
  induction l with
  | nil => rfl
  | cons a l ih =>
    rw [List.flatMap_cons, List.length_append, h a List.mem_cons_self,
      ih fun b hb => h b (List.mem_cons_of_mem a hb), List.length_cons, Nat.mul_succ, Nat.add_comm]

theorem box_length (tag : Tag) (fields : Bytes) (children : List Box) :
    (Box.mk tag fields children).encode.length
      = 8 + (fields.length + (encodeAll children).length) := by
  rw [encode_length]
  show 8 + (fields ++ encodeAll children).length = _
  rw [List.length_append]

/-- a size field that is right, a tag and a body are a box -/
theorem emitted_box {tag : Tag} {fields : Bytes} {children : List Box} {size : Nat}
    {ws : List CacheWrite} (hz : 0 ∉ tag.val)
    (hsize : size = (Box.mk tag fields children).encode.length)
    (hws : emitted ws = fields ++ encodeAll children) :
    emitted (putBe32 size ++ putTag tag ++ ws) = (Box.mk tag fields children).encode := by
  rw [emitted_append, emitted_append, emitted_putBe32, emitted_putTag hz, hws, hsize, encode_length,
    encode_eq]
  rfl

theorem emitted_leaf {tag : Tag} {fields : Bytes} {size : Nat} {ws : List CacheWrite}
    (hz : 0 ∉ tag.val) (hsize : size = (leaf tag fields).encode.length)
    (hws : emitted ws = fields) :
    emitted (putBe32 size ++ putTag tag ++ ws) = (leaf tag fields).encode :=
  emitted_box hz hsize (by rw [encodeAll_nil, List.append_nil, hws])

/-- the tag of a sample entry -/
def leTag (val : Nat) : Tag := ⟨(be 4 val).reverse, by rw [List.length_reverse, be_length]⟩

theorem emitted_entry {val : Nat} {fields : Bytes} {children : List Box} {size : Nat}
    {ws : List CacheWrite} (hsize : size = (Box.mk (leTag val) fields children).encode.length)
    (hws : emitted ws = fields ++ encodeAll children) :
    emitted (putBe32 size ++ putLe32 val ++ ws) = (Box.mk (leTag val) fields children).encode := by
  rw [emitted_append, emitted_append, emitted_putBe32, emitted_putLe32, hws, hsize, encode_length,
    encode_eq]
  rfl

/-! ## the sample tables -/

/-- the words that the next `n` reads of a table return -/
def MOVContext.entries (mov : MOVContext) (k : Table) (n : Nat) : List UInt32 :=
  (List.range n).map fun i : Nat => mov.mov_inf_cache (mov.cache_read_ptr k + i)

/-- the context after `n` reads -/
def MOVContext.skip (mov : MOVContext) (k : Table) (n : Nat) : MOVContext :=
  { mov with cache_read_ptr := Function.update mov.cache_read_ptr k (mov.cache_read_ptr k + n) }

@[simp] theorem entries_length (mov : MOVContext) (k : Table) (n : Nat) :
    (mov.entries k n).length = n := by
  simp [MOVContext.entries]

theorem entries_skip (mov : MOVContext) {k k' : Table} (h : k' ≠ k) (n m : Nat) :
    (mov.skip k n).entries k' m = mov.entries k' m := by
  have hptr : (mov.skip k n).cache_read_ptr k' = mov.cache_read_ptr k' :=
    Function.update_of_ne h _ _
  unfold MOVContext.entries
  rw [hptr]
  rfl

theorem putLoop_eq (k : Table) (write : Nat → UInt32 → List CacheWrite) (n i : Nat)
    (mov : MOVContext) :
    putLoop k write n i mov
      = ((List.range n).flatMap fun j =>
        write (i + j) (mov.mov_inf_cache (mov.cache_read_ptr k + j)),
        mov.skip k n) := by
  induction n generalizing i mov with
  | zero =>
    have hskip : mov.skip k 0 = mov := by
      unfold MOVContext.skip
      rw [Nat.add_zero, Function.update_eq_self]
    rw [putLoop, hskip]
    rfl
  | succ n ih =>
    have hptr : (mov.next k).2.cache_read_ptr k = mov.cache_read_ptr k + 1 :=
      Function.update_self ..
    have hmem : (mov.next k).2.mov_inf_cache = mov.mov_inf_cache := rfl
    have hskip : (mov.next k).2.skip k n = mov.skip k (n + 1) := by
      unfold MOVContext.skip
      rw [hptr]
      unfold MOVContext.next
      dsimp only
      rw [Function.update_idem, Nat.add_assoc, Nat.add_comm 1 n]
    rw [putLoop, ih, hptr, hmem, hskip, List.range_succ_eq_map, List.flatMap_cons, List.flatMap_map]
    refine congrArg₂ Prod.mk (congrArg₂ (· ++ ·) rfl ?_) rfl
    refine congrArg (List.flatMap · (List.range n)) (funext fun j => ?_)
    rw [Nat.add_right_comm i 1 j, Nat.add_right_comm _ 1 j]
    rfl

/-- a table whose records are its words -/
theorem emitted_words (k : Table) (n : Nat) (mov : MOVContext) :
    emitted (putLoop k (fun _ v => putBe32 v.toNat) n 0 mov).1
      = ((mov.entries k n).map UInt32.toNat).flatMap (be 4) := by
  rw [putLoop_eq]
  dsimp only
  rw [emitted_flatMap, MOVContext.entries, List.map_map, List.flatMap_map]
  rfl

/-- a table of one run for each chunk -/
theorem emitted_runs (k : Table) (n : Nat) (mov : MOVContext) :
    emitted (putLoop k (fun i v => putBe32 (i + 1) ++ putBe32 v.toNat ++ putBe32 1) n 0 mov).1
      = (runsOf ((mov.entries k n).map UInt32.toNat)).flatMap runRecord := by
  rw [putLoop_eq]
  dsimp only
  rw [emitted_flatMap, runsOf, List.length_map, entries_length, List.flatMap_map]
  apply List.flatMap_congr
  intro i hi
  have hget : ((mov.entries k n).map UInt32.toNat).getD i 0
      = (mov.mov_inf_cache (mov.cache_read_ptr k + i)).toNat := by
    have hlt : i < ((mov.entries k n).map UInt32.toNat).length := by
      rw [List.length_map, entries_length]
      exact List.mem_range.mp hi
    rw [getD_of_lt _ hlt, List.getElem_map]
    unfold MOVContext.entries
    rw [List.getElem_map, List.getElem_range]
  rw [hget, Nat.zero_add]
  simp [runRecord]

/-- the tables are in memory -/
structure Plain (track : MOVTrack) : Prop where
  stsz : track.stsz_tiny_pages = 0
  stco : track.stco_tiny_pages = 0
  stsc : track.stsc_tiny_pages = 0
  stts : track.stts_tiny_pages = 0
  /-- a video track with a sample has a duration -/
  duration : track.enc.codec_type = .video → 0 < track.stts_size

def stcoBox (mov : MOVContext) (track : MOVTrack) : Box :=
  leaf (fourcc 's' 't' 'c' 'o') (be 4 0 ++ be 4 track.stco_size
    ++ ((mov.entries (.stco, track.stream_type) track.stco_size).map UInt32.toNat).flatMap (be 4))

def stszBox (mov : MOVContext) (track : MOVTrack) : Box :=
  leaf (fourcc 's' 't' 's' 'z') (be 4 0 ++ be 4 0 ++ be 4 track.stsz_size
    ++ ((mov.entries (.stsz, track.stream_type) track.stsz_size).map UInt32.toNat).flatMap (be 4))

def stscBox (mov : MOVContext) (track : MOVTrack) : Box :=
  leaf (fourcc 's' 't' 's' 'c') (be 4 0 ++ be 4 track.stsc_size
    ++ (runsOf ((mov.entries (.stsc, track.stream_type) track.stsc_size).map UInt32.toNat)).flatMap
      runRecord)

def stssBox (mov : MOVContext) (track : MOVTrack) : Box :=
  leaf (fourcc 's' 't' 's' 's') (emitted (stssFields mov track))

def sttsBox (mov : MOVContext) (track : MOVTrack) : Box :=
  leaf (fourcc 's' 't' 't' 's') (emitted (sttsFields mov track).1)

theorem leaf_length (tag : Tag) (fields : Bytes) :
    (leaf tag fields).encode.length = 8 + fields.length := by
  rw [encode_length, leaf_body]

theorem runsOf_length (per : List Nat) : (runsOf per).length = per.length := by
  rw [runsOf, List.length_map, List.length_range]

theorem stco_length (mov : MOVContext) (track : MOVTrack) :
    movGetStcoTagSize track = (stcoBox mov track).encode.length := by
  rw [stcoBox, leaf_length, List.length_append, List.length_append, be_length, be_length,
    flatMap_length _ _ 4 fun v _ => be_length 4 v, List.length_map, entries_length,
    movGetStcoTagSize]
  omega

theorem stsz_length (mov : MOVContext) (track : MOVTrack) :
    movGetStszTagSize track = (stszBox mov track).encode.length := by
  rw [stszBox, leaf_length, List.length_append, List.length_append, List.length_append, be_length,
    be_length, flatMap_length _ _ 4 fun v _ => be_length 4 v, List.length_map, entries_length,
    movGetStszTagSize]
  omega

theorem stsc_length (mov : MOVContext) (track : MOVTrack) :
    movGetStscTagSize track = (stscBox mov track).encode.length := by
  rw [stscBox, leaf_length, List.length_append, List.length_append, be_length, be_length,
    flatMap_length _ _ 12 fun r _ => runRecord_length r, runsOf_length, List.length_map,
    entries_length,
    movGetStscTagSize]
  omega

theorem stss_length (mov : MOVContext) (track : MOVTrack) :
    movGetStssTagSize track = (stssBox mov track).encode.length := by
  rw [stssBox, leaf_length, stssFields, emitted_append, emitted_append, emitted_putBe32,
    emitted_putBe32, emitted_flatMap, List.length_append, List.length_append, be_length, be_length,
    flatMap_length _ _ 4 fun i _ => by
    rw [emitted_putBe32, be_length], List.length_range, movGetStssTagSize]
  omega

/-- the first round writes nothing -/
theorem emitted_durations (k : Table) (n : Nat) (mov : MOVContext) :
    emitted (putLoop k (fun i v => if i = 0 then [] else putBe32 1 ++ putBe32 v.toNat) n 0 mov).1
      = (singles ((mov.entries k n).map UInt32.toNat).tail).flatMap sttsRecord := by
  rw [putLoop_eq]
  dsimp only
  rw [emitted_flatMap, MOVContext.entries, singles]
  cases n with
  | zero => rfl
  | succ n =>
    rw [List.range_succ_eq_map, List.flatMap_cons, List.flatMap_map, List.map_cons, List.map_cons,
      List.tail_cons, List.map_map, List.map_map, List.map_map, List.flatMap_map]
    show [] ++ _ = _
    rw [List.nil_append]
    refine congrArg (List.flatMap · (List.range n)) (funext fun j => ?_)
    rw [if_neg (by omega), emitted_append, emitted_putBe32, emitted_putBe32]
    rfl

theorem stts_fields_length (mov : MOVContext) {track : MOVTrack} (h : Plain track) :
    (emitted (sttsFields mov track).1).length
      = 8 + 8 * (match track.enc.codec_type with | .audio => 1 | .video => track.stts_size) := by
  unfold sttsFields
  cases hty : track.enc.codec_type with
  | audio => simp
  | video =>
    -- the entry after the loop makes up for the round that wrote nothing
    obtain ⟨n, hn⟩ := Nat.exists_eq_succ_of_ne_zero (h.duration hty).ne'
    dsimp only
    rw [if_pos h.stts, hn, emitted_append, emitted_append, List.length_append, List.length_append,
      emitted_durations, flatMap_length _ _ 8 fun e _ => sttsRecord_length e, singles,
      List.length_map, List.length_tail,
      List.length_map, entries_length]
    simp only [emitted_append, emitted_putBe32, List.length_append, be_length]
    omega

theorem stts_length (mov : MOVContext) {track : MOVTrack} (h : Plain track) :
    movGetSttsTagSize track = (sttsBox mov track).encode.length := by
  rw [sttsBox, leaf_length, stts_fields_length mov h, movGetSttsTagSize]
  cases track.enc.codec_type with
  | video => dsimp only; omega
  | audio => rfl

theorem emitted_stco (mov : MOVContext) {track : MOVTrack} (h : Plain track) :
    emitted (movWriteStcoTag mov track).1 = (stcoBox mov track).encode ∧
      (movWriteStcoTag mov track).2 = mov.skip (.stco, track.stream_type) track.stco_size := by
  unfold movWriteStcoTag
  dsimp only
  rw [if_pos h.stco]
  refine ⟨?_, by rw [putLoop_eq]⟩
  refine emitted_leaf (by decide) (stco_length mov track) ?_
  rw [emitted_append, emitted_append, emitted_putBe32, emitted_putBe32, emitted_words]

theorem emitted_stsz (mov : MOVContext) {track : MOVTrack} (h : Plain track) :
    emitted (movWriteStszTag mov track).1 = (stszBox mov track).encode ∧
      (movWriteStszTag mov track).2 = mov.skip (.stsz, track.stream_type) track.stsz_size := by
  unfold movWriteStszTag
  dsimp only
  rw [if_pos h.stsz]
  refine ⟨?_, by rw [putLoop_eq]⟩
  refine emitted_leaf (by decide) (stsz_length mov track) ?_
  rw [emitted_append, emitted_append, emitted_append, emitted_putBe32, emitted_putBe32,
    emitted_words]

theorem emitted_stsc (mov : MOVContext) {track : MOVTrack} (h : Plain track) :
    emitted (movWriteStscTag mov track).1 = (stscBox mov track).encode ∧
      (movWriteStscTag mov track).2 = mov.skip (.stsc, track.stream_type) track.stsc_size := by
  unfold movWriteStscTag
  dsimp only
  rw [if_pos h.stsc]
  refine ⟨?_, by rw [putLoop_eq]⟩
  refine emitted_leaf (by decide) (stsc_length mov track) ?_
  rw [emitted_append, emitted_append, emitted_putBe32, emitted_putBe32, emitted_runs]

theorem emitted_stss (mov : MOVContext) (track : MOVTrack) :
    emitted (movWriteStssTag mov track) = (stssBox mov track).encode :=
  emitted_leaf (by decide) (stss_length mov track) rfl

theorem emitted_stts (mov : MOVContext) {track : MOVTrack} (h : Plain track) :
    emitted (movWriteSttsTag mov track).1 = (sttsBox mov track).encode := by
  refine emitted_leaf (by decide) ?_ rfl
  rw [leaf_length, stts_fields_length mov h]
  cases track.enc.codec_type with
  | video => dsimp only; omega
  | audio => rfl

/-! ## `esds` and `avcC` -/

theorem le_descrLoop (len n i : Nat) : i ≤ descrLoop len n i := by
  induction n generalizing i with
  | zero => exact le_rfl
  | succ n ih =>
    rw [descrLoop]
    split
    · exact le_rfl
    · exact (Nat.le_succ i).trans (ih (i + 1))

theorem le_descrLength (len : Nat) : len + 2 ≤ descrLength len := by
  have := le_descrLoop len 4 1
  unfold descrLength
  omega

theorem putDescr_length (tag size : Nat) :
    (emitted (putDescr tag size)).length = descrLength size - size := by
  have := le_descrLength size
  unfold putDescr
  dsimp only
  rw [emitted_append, emitted_append, emitted_putByte, emitted_putByte, emitted_flatMap,
    List.length_append, List.length_append, be_length, be_length,
    flatMap_length _ _ 1 fun j _ => by
    rw [emitted_putByte, be_length], List.length_reverse, List.length_range]
  omega

def esdsBox (track : MOVTrack) : Box := leaf (fourcc 'e' 's' 'd' 's') (emitted (esdsFields track))

theorem esds_length (track : MOVTrack) :
    movGetEsdsTagSize track = (esdsBox track).encode.length := by
  have h1 := le_descrLength (3 + descrLength (13 + decoderSpecificInfoLen track) + descrLength 1)
  have h2 := le_descrLength (13 + decoderSpecificInfoLen track)
  have h3 := le_descrLength 1
  have hcsd : (emitted (if track.csdData.val.length ≠ 0 then
      putDescr 5 track.csdData.val.length ++ putBuffer track.csdData.val else [])).length
        = decoderSpecificInfoLen track := by
    unfold decoderSpecificInfoLen
    split
    · have := le_descrLength track.csdData.val.length
      rw [emitted_append, List.length_append, putDescr_length, emitted_putBuffer]
      omega
    · rfl
  rw [esdsBox, leaf_length, esdsFields, movGetEsdsTagSize]
  simp only [emitted_append, List.length_append, putDescr_length, hcsd, emitted_putBe32,
    emitted_putBe16, emitted_putByte, be_length]
  omega

theorem emitted_esds (track : MOVTrack) :
    emitted (movWriteEsdsTag track) = (esdsBox track).encode :=
  emitted_leaf (by decide) (esds_length track) rfl

/-- the body is empty when nothing is written -/
def avccBox (env : Env) (track : MOVTrack) : Box :=
  leaf (fourcc 'a' 'v' 'c' 'C') (emitted ((ffIsomWriteAvcc env.heap track.csdData.val).getD []))

theorem emitted_avcc {env : Env} {track : MOVTrack} {ws : List CacheWrite}
    (h : movWriteAvccTag env track = some ws) :
    emitted ws = (avccBox env track).encode ∧
      movGetAvccTagSize env track = (avccBox env track).encode.length := by
  unfold movWriteAvccTag at h
  obtain ⟨body, hbody, rfl⟩ := Option.map_eq_some_iff.mp h
  have hlen := ffIsomWriteAvcc_length (track.csdData.property.trans (by norm_num)) hbody
  have hbox : avccBox env track = leaf (fourcc 'a' 'v' 'c' 'C') (emitted body) := by
    rw [avccBox, hbody]
    rfl
  have hsize : movGetAvccTagSize env track = (avccBox env track).encode.length := by
    rw [hbox, leaf_length, hlen, movGetAvccTagSize]
  refine ⟨?_, hsize⟩
  rw [hbox] at hsize ⊢
  exact emitted_leaf (by decide) hsize rfl

/-! ## `stsd` -/

/-- what the write functions of a track ask for: a video track with the tag `avc1` has a CSD that
can be written -/
def Describable (env : Env) (track : MOVTrack) : Prop :=
  track.enc.codec_type = .video → track.tag = mkTag 'a' 'v' 'c' '1' →
    AvccWritable env.heap track.csdData.val

instance (env : Env) (track : MOVTrack) : Decidable (Describable env track) :=
  inferInstanceAs (Decidable (_ → _ → _))

def codecBoxes (env : Env) (track : MOVTrack) : List Box :=
  match track.enc.codec_type with
  | .video =>
    if track.tag = mkTag 'a' 'v' 'c' '1' then [avccBox env track]
    else if track.tag = mkTag 'm' 'p' '4' 'v' then [esdsBox track]
    else []
  | .audio => if track.tag = mkTag 'm' 'p' '4' 'a' then [esdsBox track] else []

def entryFields (track : MOVTrack) : List CacheWrite :=
  match track.enc.codec_type with
  | .video => videoFields track
  | .audio => audioFields track

def entryBox (env : Env) (track : MOVTrack) : Box :=
  .mk (leTag track.tag) (emitted (entryFields track)) (codecBoxes env track)

def stsdBox (env : Env) (track : MOVTrack) : Box :=
  .mk (fourcc 's' 't' 's' 'd') (be 4 0 ++ be 4 1) [entryBox env track]

theorem videoFields_length (track : MOVTrack) : (emitted (videoFields track)).length = 78 := by
  unfold videoFields
  simp only [emitted_append, List.length_append, emitted_putBe32, emitted_putBe16, emitted_putByte,
    emitted_putBuffer, be_length, List.length_take, zeros_length]
  norm_num

theorem audioFields_length (track : MOVTrack) : (emitted (audioFields track)).length = 28 := by
  unfold audioFields
  simp only [emitted_append, List.length_append, emitted_putBe32, emitted_putBe16, be_length]

theorem emitted_audio (env : Env) {track : MOVTrack} (h : track.enc.codec_type = .audio) :
    emitted (movWriteAudioTag track) = (entryBox env track).encode ∧
      movGetAudioTagSize track = (entryBox env track).encode.length := by
  have hcodec : emitted (if track.tag = mkTag 'm' 'p' '4' 'a' then movWriteEsdsTag track else [])
      = encodeAll (codecBoxes env track) := by
    unfold codecBoxes
    rw [h]
    dsimp only
    split
    · rw [emitted_esds, encodeAll_cons, encodeAll_nil, List.append_nil]
    · rw [encodeAll_nil]; rfl
  have hfields : entryFields track = audioFields track := by rw [entryFields, h]
  have hsize : movGetAudioTagSize track = (entryBox env track).encode.length := by
    have hlen : (if track.tag = mkTag 'm' 'p' '4' 'a' then movGetEsdsTagSize track else 0)
        = (encodeAll (codecBoxes env track)).length := by
      rw [← hcodec]
      split
      · rw [esds_length, emitted_esds]
      · rfl
    rw [movGetAudioTagSize, hlen, entryBox, box_length, hfields, audioFields_length]
    omega
  refine ⟨?_, hsize⟩
  refine emitted_entry hsize ?_
  rw [emitted_append, hcodec, hfields]

theorem emitted_codec {env : Env} {track : MOVTrack} (h : track.enc.codec_type = .video)
    {ws : List CacheWrite} (hws : writeVideoCodec env track = some ws) :
    emitted ws = encodeAll (codecBoxes env track) ∧
      (if track.tag = mkTag 'a' 'v' 'c' '1' then movGetAvccTagSize env track
        else if track.tag = mkTag 'm' 'p' '4' 'v' then movGetEsdsTagSize track else 0)
        = (encodeAll (codecBoxes env track)).length := by
  unfold writeVideoCodec at hws
  unfold codecBoxes
  rw [h]
  dsimp only
  by_cases h1 : track.tag = mkTag 'a' 'v' 'c' '1'
  · rw [if_pos h1] at hws ⊢
    rw [if_pos h1, encodeAll_cons, encodeAll_nil, List.append_nil]
    exact emitted_avcc hws
  · rw [if_neg h1] at hws ⊢
    rw [if_neg h1]
    by_cases h2 : track.tag = mkTag 'm' 'p' '4' 'v'
    · rw [if_pos h2] at hws ⊢
      cases hws
      rw [if_pos h2, encodeAll_cons, encodeAll_nil, List.append_nil]
      exact ⟨emitted_esds track, esds_length track⟩
    · rw [if_neg h2] at hws ⊢
      cases hws
      rw [if_neg h2, encodeAll_nil]
      exact ⟨rfl, rfl⟩

theorem emitted_video {env : Env} {track : MOVTrack} (h : track.enc.codec_type = .video)
    {ws : List CacheWrite} (hws : movWriteVideoTag env track = some ws) :
    emitted ws = (entryBox env track).encode ∧
      movGetVideoTagSize env track = (entryBox env track).encode.length := by
  obtain ⟨codec, hcodec, rfl⟩ := Option.map_eq_some_iff.mp hws
  obtain ⟨hbytes, hlen⟩ := emitted_codec h hcodec
  have hfields : entryFields track = videoFields track := by rw [entryFields, h]
  have hsize : movGetVideoTagSize env track = (entryBox env track).encode.length := by
    rw [movGetVideoTagSize, hlen, entryBox, box_length, hfields, videoFields_length]
    omega
  refine ⟨?_, hsize⟩
  refine emitted_entry hsize ?_
  rw [emitted_append, hbytes, hfields]

theorem emitted_sampleEntry {env : Env} {track : MOVTrack} {ws : List CacheWrite}
    (hws : writeSampleEntry env track = some ws) :
    emitted ws = (entryBox env track).encode ∧
      movGetStsdTagSize env track = 16 + (entryBox env track).encode.length := by
  unfold writeSampleEntry at hws
  unfold movGetStsdTagSize
  cases hty : track.enc.codec_type with
  | video =>
    rw [hty] at hws
    obtain ⟨hbytes, hlen⟩ := emitted_video hty hws
    exact ⟨hbytes, congrArg (16 + ·) hlen⟩
  | audio =>
    rw [hty] at hws
    cases hws
    obtain ⟨hbytes, hlen⟩ := emitted_audio env hty
    exact ⟨hbytes, congrArg (16 + ·) hlen⟩

theorem emitted_stsd {env : Env} {track : MOVTrack} {ws : List CacheWrite}
    (hws : movWriteStsdTag env track = some ws) :
    emitted ws = (stsdBox env track).encode ∧
      movGetStsdTagSize env track = (stsdBox env track).encode.length := by
  obtain ⟨entry, hentry, rfl⟩ := Option.map_eq_some_iff.mp hws
  obtain ⟨hbytes, hlen⟩ := emitted_sampleEntry hentry
  have hsize : movGetStsdTagSize env track = (stsdBox env track).encode.length := by
    rw [hlen, stsdBox, box_length, encodeAll_cons, encodeAll_nil, List.append_nil,
      List.length_append, be_length, be_length]
    omega
  refine ⟨?_, hsize⟩
  refine emitted_box (by decide) hsize ?_
  rw [emitted_append, emitted_append, emitted_putBe32, emitted_putBe32, hbytes, encodeAll_cons,
    encodeAll_nil, List.append_nil]

theorem stsd_isSome (env : Env) (track : MOVTrack) :
    (movWriteStsdTag env track).isSome ↔ Describable env track := by
  unfold movWriteStsdTag writeSampleEntry Describable
  rw [Option.isSome_map]
  cases hty : track.enc.codec_type with
  | audio => exact ⟨fun _ h => (nomatch h), fun _ => rfl⟩
  | video =>
    show (movWriteVideoTag env track).isSome ↔ _
    unfold movWriteVideoTag writeVideoCodec
    rw [Option.isSome_map]
    by_cases h1 : track.tag = mkTag 'a' 'v' 'c' '1'
    · rw [if_pos h1, ← ffIsomWriteAvcc_isSome, movWriteAvccTag, Option.isSome_map]
      exact ⟨fun h _ _ => h, fun h => h rfl h1⟩
    · rw [if_neg h1]
      refine ⟨fun _ _ h => absurd h h1, fun _ => ?_⟩
      split <;> rfl

/-! ## contexts that differ in read pointers -/

/-- a later context: only tables of the streams `ts` were read -/
def MOVContext.Reads (mov mov' : MOVContext) (ts : List CodecType) : Prop :=
  ∃ ptr, mov' = { mov with cache_read_ptr := ptr } ∧ ∀ id u, u ∉ ts →
    ptr (id, u) = mov.cache_read_ptr (id, u)

theorem MOVContext.Reads.refl (mov : MOVContext) (ts : List CodecType) : mov.Reads mov ts :=
  ⟨mov.cache_read_ptr, rfl, fun _ _ _ => rfl⟩

theorem MOVContext.Reads.trans {a b c : MOVContext} {ts us : List CodecType} (h : a.Reads b ts)
    (h' : b.Reads c us) :
    a.Reads c (ts ++ us) := by
  obtain ⟨p, rfl, hp⟩ := h
  obtain ⟨q, rfl, hq⟩ := h'
  refine ⟨q, rfl, ?_⟩
  intro id u hu
  rw [List.mem_append, not_or] at hu
  rw [hq id u hu.2]
  exact hp id u hu.1

theorem MOVContext.Reads.skip {a b : MOVContext} {t : CodecType} (h : a.Reads b [t]) (id : ChunkId)
    (n : Nat) :
    a.Reads (b.skip (id, t) n) [t] := by
  obtain ⟨p, rfl, hp⟩ := h
  refine ⟨_, rfl, ?_⟩
  intro id' u hu
  have hne : (id', u) ≠ (id, t) := by
    intro he
    cases he
    exact hu List.mem_cons_self
  rw [Function.update_of_ne hne]
  exact hp id' u hu

theorem MOVContext.Reads.entries {a b : MOVContext} {ts : List CodecType} (h : a.Reads b ts)
    {t : CodecType} (ht : t ∉ ts) (id : ChunkId) (n : Nat) :
    b.entries (id, t) n = a.entries (id, t) n := by
  obtain ⟨p, rfl, hp⟩ := h
  unfold MOVContext.entries
  dsimp only
  rw [hp id t ht]

/-! ## `stbl` -/

def syncBoxes (mov : MOVContext) (track : MOVTrack) : List Box :=
  if track.enc.codec_type = .video then [stssBox mov track] else []

def stblBox (env : Env) (mov : MOVContext) (track : MOVTrack) : Box :=
  .mk (fourcc 's' 't' 'b' 'l') [] ([stsdBox env track, sttsBox mov track] ++ syncBoxes mov track
    ++ [stscBox mov track, stszBox mov track, stcoBox mov track])

/-- the context behind `stts`: the tables that follow are as before -/
theorem stts_context (mov : MOVContext) {track : MOVTrack} (h : Plain track) :
    mov.Reads (movWriteSttsTag mov track).2 [track.stream_type] ∧
      (movWriteSttsTag mov track).2.cache_keyframe = mov.cache_keyframe ∧
      ∀ id n, id ≠ .stts →
        (movWriteSttsTag mov track).2.entries (id, track.stream_type) n
          = mov.entries (id, track.stream_type) n := by
  unfold movWriteSttsTag sttsFields
  dsimp only
  split
  · exact ⟨.refl _ _, rfl, fun _ _ _ => rfl⟩
  · rw [if_pos h.stts, putLoop_eq]
    refine ⟨(MOVContext.Reads.refl _ _).skip _ _, rfl, ?_⟩
    intro id n hid
    exact entries_skip mov (fun he => hid (congrArg Prod.fst he)) _ _

theorem emitted_sync {mov mov' : MOVContext} (hkey : mov'.cache_keyframe = mov.cache_keyframe)
    (track : MOVTrack) :
    emitted (if track.enc.codec_type = .video then movWriteStssTag mov' track else [])
      = encodeAll (syncBoxes mov track) := by
  unfold syncBoxes
  split
  · have hbox : stssBox mov' track = stssBox mov track := by
      unfold stssBox stssFields
      rw [hkey]
    rw [emitted_stss, hbox, encodeAll_cons, encodeAll_nil, List.append_nil]
  · rw [encodeAll_nil]
    rfl

theorem sync_length (mov : MOVContext) (track : MOVTrack) :
    (if track.enc.codec_type = .video then movGetStssTagSize track else 0)
      = (encodeAll (syncBoxes mov track)).length := by
  unfold syncBoxes
  split
  · rw [stss_length mov, encodeAll_cons, encodeAll_nil, List.append_nil]
  · rw [encodeAll_nil]
    rfl

theorem emitted_stbl {env : Env} {mov : MOVContext} {track : MOVTrack} (h : Plain track)
    {r : List CacheWrite × MOVContext} (hr : movWriteStblTag env mov track = some r) :
    emitted r.1 = (stblBox env mov track).encode ∧
      movGetStblTagSize env track = (stblBox env mov track).encode.length ∧
      mov.Reads r.2 [track.stream_type] := by
  obtain ⟨stsd, hstsd, rfl⟩ := Option.map_eq_some_iff.mp hr
  dsimp only
  obtain ⟨hstsd, hstsdLen⟩ := emitted_stsd hstsd
  have hstts := emitted_stts mov h
  obtain ⟨hreads, hkey, hentries⟩ := stts_context mov h
  generalize movWriteSttsTag mov track = stts at hstts hreads hkey hentries ⊢
  have hstss := emitted_sync hkey track
  -- each table is written from a context that has read other tables only
  obtain ⟨hstsc, hstsc'⟩ := emitted_stsc stts.2 h
  have estsc : stscBox stts.2 track = stscBox mov track := by
    unfold stscBox
    rw [hentries .stsc _ (by decide)]
  rw [hstsc']
  obtain ⟨hstsz, hstsz'⟩ := emitted_stsz (stts.2.skip (.stsc, track.stream_type) track.stsc_size) h
  have estsz : stszBox (stts.2.skip (.stsc, track.stream_type) track.stsc_size) track
      = stszBox mov track := by
    unfold stszBox
    rw [entries_skip _ (by simp), hentries .stsz _ (by decide)]
  rw [hstsz']
  obtain ⟨hstco, hstco'⟩ := emitted_stco
    ((stts.2.skip (.stsc, track.stream_type) track.stsc_size).skip (.stsz, track.stream_type)
      track.stsz_size) h
  have estco : stcoBox
      ((stts.2.skip (.stsc, track.stream_type) track.stsc_size).skip (.stsz, track.stream_type)
      track.stsz_size) track = stcoBox mov track := by
    unfold stcoBox
    rw [entries_skip _ (by simp), entries_skip _ (by simp), hentries .stco _ (by decide)]
  rw [hstco']
  have hsize : movGetStblTagSize env track = (stblBox env mov track).encode.length := by
    rw [movGetStblTagSize, hstsdLen, stts_length mov h, sync_length mov, stsc_length mov,
      stsz_length mov, stco_length mov, stblBox, box_length, encodeAll_append, encodeAll_append]
    simp only [encodeAll_cons, encodeAll_nil, List.append_nil, List.length_append, List.length_nil]
    omega
  refine ⟨?_, hsize, ((hreads.skip _ _).skip _ _).skip _ _⟩
  refine emitted_box (by decide) hsize ?_
  simp only [emitted_append, hstsd, hstts, hstss, hstsc, hstsz, hstco, estsc, estsz, estco,
    encodeAll_append, encodeAll_cons, encodeAll_nil, List.append_nil, List.nil_append,
    List.append_assoc]

theorem stbl_isSome (env : Env) (mov : MOVContext) (track : MOVTrack) :
    (movWriteStblTag env mov track).isSome ↔ Describable env track := by
  unfold movWriteStblTag
  rw [Option.isSome_map]
  exact stsd_isSome env track

/-! ## `minf` -/

def drefBox : Box :=
  .mk (fourcc 'd' 'r' 'e' 'f') (be 4 0 ++ be 4 1) [leaf (fourcc 'u' 'r' 'l' ' ') (be 4 1)]

def dinfBox : Box := .mk (fourcc 'd' 'i' 'n' 'f') [] [drefBox]

def mhdBox (track : MOVTrack) : Box :=
  match track.enc.codec_type with
  | .video => leaf (fourcc 'v' 'm' 'h' 'd') (emitted vmhdFields)
  | .audio => leaf (fourcc 's' 'm' 'h' 'd') (emitted smhdFields)

def minfBox (env : Env) (mov : MOVContext) (track : MOVTrack) : Box :=
  .mk (fourcc 'm' 'i' 'n' 'f') [] [mhdBox track, dinfBox, stblBox env mov track]

theorem dref_length : movGetDrefTagSize = drefBox.encode.length := by
  rw [drefBox, box_length, encodeAll_cons, encodeAll_nil, List.append_nil, leaf_length,
    List.length_append, be_length, be_length]
  rfl

theorem emitted_dref : emitted movWriteDrefTag = drefBox.encode := by
  refine emitted_box (by decide) dref_length ?_
  have hurl : emitted (putBe32 0xc ++ putTag (fourcc 'u' 'r' 'l' ' ') ++ putBe32 1)
      = (leaf (fourcc 'u' 'r' 'l' ' ') (be 4 1)).encode :=
    emitted_leaf (by decide) (by rw [leaf_length, be_length]) (emitted_putBe32 1)
  rw [emitted_append, emitted_append, hurl, emitted_putBe32, emitted_putBe32, encodeAll_cons,
    encodeAll_nil, List.append_nil]

theorem dinf_length : movGetDinfTagSize = dinfBox.encode.length := by
  rw [dinfBox, box_length, encodeAll_cons, encodeAll_nil, List.append_nil, ← dref_length]
  rfl

theorem emitted_dinf : emitted movWriteDinfTag = dinfBox.encode := by
  refine emitted_box (by decide) dinf_length ?_
  rw [emitted_dref, encodeAll_cons, encodeAll_nil, List.append_nil]
  rfl

theorem emitted_vmhd :
    emitted movWriteVmhdTag = (leaf (fourcc 'v' 'm' 'h' 'd') (emitted vmhdFields)).encode := by
  refine emitted_leaf (by decide) ?_ rfl
  rw [leaf_length, vmhdFields]
  simp [movGetVmhdTagSize]

theorem emitted_smhd :
    emitted movWriteSmhdTag = (leaf (fourcc 's' 'm' 'h' 'd') (emitted smhdFields)).encode := by
  refine emitted_leaf (by decide) ?_ rfl
  rw [leaf_length, smhdFields]
  simp [movGetSmhdTagSize]

theorem minf_size {env : Env} {mov : MOVContext} {track : MOVTrack}
    (h : movGetStblTagSize env track = (stblBox env mov track).encode.length) :
    movGetMinfTagSize env track = (minfBox env mov track).encode.length := by
  rw [movGetMinfTagSize, h, dinf_length, minfBox, box_length]
  simp only [encodeAll_cons, encodeAll_nil, List.append_nil, List.length_append, List.length_nil]
  unfold mhdBox
  cases track.enc.codec_type with
  | video =>
    simp only [leaf_length, vmhdFields, emitted_append, emitted_putBe32, List.length_append,
      be_length, movGetVmhdTagSize]
    omega
  | audio =>
    simp only [leaf_length, smhdFields, emitted_append, emitted_putBe32, emitted_putBe16,
      List.length_append, be_length, movGetSmhdTagSize]
    omega

theorem emitted_minf {env : Env} {mov : MOVContext} {track : MOVTrack} (h : Plain track)
    {r : List CacheWrite × MOVContext} (hr : movWriteMinfTag env mov track = some r) :
    emitted r.1 = (minfBox env mov track).encode ∧
      movGetMinfTagSize env track = (minfBox env mov track).encode.length ∧
      mov.Reads r.2 [track.stream_type] := by
  obtain ⟨stbl, hstbl, rfl⟩ := Option.map_eq_some_iff.mp hr
  obtain ⟨hbytes, hlen, hreads⟩ := emitted_stbl h hstbl
  have hsize := minf_size hlen
  refine ⟨?_, hsize, hreads⟩
  have hmhd : emitted (writeMediaHeader track) = (mhdBox track).encode := by
    unfold writeMediaHeader mhdBox
    cases track.enc.codec_type with
    | video => exact emitted_vmhd
    | audio => exact emitted_smhd
  refine emitted_box (by decide) hsize ?_
  rw [emitted_append, emitted_append, hmhd, emitted_dinf, hbytes, encodeAll_cons, encodeAll_cons,
    encodeAll_cons, encodeAll_nil, List.append_nil, List.nil_append, List.append_assoc]

/-! ## `mdia` and `trak` -/

def hdlrBox (env : Env) (mov : MOVContext) (track : MOVTrack) : Box :=
  leaf (fourcc 'h' 'd' 'l' 'r') (emitted (hdlrFields env mov track))

def mdhdBox (track : MOVTrack) : Box := leaf (fourcc 'm' 'd' 'h' 'd') (emitted (mdhdFields track))

def mdiaBox (env : Env) (mov : MOVContext) (track : MOVTrack) : Box :=
  .mk (fourcc 'm' 'd' 'i' 'a') [] [mdhdBox track, hdlrBox env mov track, minfBox env mov track]

def tkhdBox (track : MOVTrack) : Box := leaf (fourcc 't' 'k' 'h' 'd') (emitted (tkhdFields track))

def trakBox (env : Env) (mov : MOVContext) (track : MOVTrack) : Box :=
  .mk (fourcc 't' 'r' 'a' 'k') [] [tkhdBox track, mdiaBox env mov track]

theorem strlen_le (s : Bytes) : strlen s ≤ s.length := by
  unfold strlen cString
  exact (List.takeWhile_prefix _).length_le

theorem emitted_hdlrType (t : CodecType) : emitted (putTag (hdlrType t)) = (hdlrType t).val := by
  cases t <;> exact emitted_putTag (by decide)

theorem hdlrFields_length (env : Env) (mov : MOVContext) (track : MOVTrack) :
    (emitted (hdlrFields env mov track)).length = 25 + strlen (titleInfo env mov) := by
  have hle := strlen_le (titleInfo env mov)
  unfold hdlrFields
  simp only [emitted_append, emitted_putBe32, emitted_putBuffer, emitted_putByte, emitted_hdlrType,
    List.length_append, be_length, zeros_length, List.length_take, (hdlrType _).property]
  omega

theorem hdlr_length (env : Env) (mov : MOVContext) (track : MOVTrack) :
    movGetHdlrTagSize env mov = (hdlrBox env mov track).encode.length := by
  rw [hdlrBox, leaf_length, hdlrFields_length, movGetHdlrTagSize]
  omega

theorem mdhdFields_length (track : MOVTrack) : (emitted (mdhdFields track)).length = 24 := by
  unfold mdhdFields
  simp only [emitted_append, emitted_putBe32, emitted_putBe24, emitted_putBe16, emitted_putByte,
    List.length_append, be_length]

theorem mdhd_length (track : MOVTrack) : movGetMdhdTagSize = (mdhdBox track).encode.length := by
  rw [mdhdBox, leaf_length, mdhdFields_length]
  rfl

theorem tkhdFields_length (track : MOVTrack) : (emitted (tkhdFields track)).length = 84 := by
  unfold tkhdFields
  simp only [emitted_append, emitted_putBe32, emitted_putBe24, emitted_putBe16, emitted_putByte,
    List.length_append, be_length]

theorem tkhd_length (track : MOVTrack) : movGetTkhdTagSize = (tkhdBox track).encode.length := by
  rw [tkhdBox, leaf_length, tkhdFields_length]
  rfl

theorem emitted_mdia {env : Env} {mov : MOVContext} {track : MOVTrack} (h : Plain track)
    {r : List CacheWrite × MOVContext} (hr : movWriteMdiaTag env mov track = some r) :
    emitted r.1 = (mdiaBox env mov track).encode ∧
      movGetMdiaTagSize env mov track = (mdiaBox env mov track).encode.length ∧
      mov.Reads r.2 [track.stream_type] := by
  obtain ⟨minf, hminf, rfl⟩ := Option.map_eq_some_iff.mp hr
  obtain ⟨hbytes, hlen, hreads⟩ := emitted_minf h hminf
  have hsize : movGetMdiaTagSize env mov track = (mdiaBox env mov track).encode.length := by
    rw [movGetMdiaTagSize, mdhd_length track, hdlr_length env mov track, hlen, mdiaBox, box_length]
    simp only [encodeAll_cons, encodeAll_nil, List.append_nil, List.length_append, List.length_nil]
    omega
  refine ⟨?_, hsize, hreads⟩
  have hmdhd : emitted (movWriteMdhdTag track) = (mdhdBox track).encode :=
    emitted_leaf (by decide) (mdhd_length track) rfl
  have hhdlr : emitted (movWriteHdlrTag env mov track) = (hdlrBox env mov track).encode :=
    emitted_leaf (by decide) (hdlr_length env mov track) rfl
  refine emitted_box (by decide) hsize ?_
  rw [emitted_append, emitted_append, hmdhd, hhdlr, hbytes, encodeAll_cons, encodeAll_cons,
    encodeAll_cons, encodeAll_nil, List.append_nil, List.nil_append, List.append_assoc]

/-- the box of a track is written -/
def Writable (env : Env) (track : MOVTrack) : Prop := track.timescale ≠ 0 ∧ Describable env track

instance (env : Env) (track : MOVTrack) : Decidable (Writable env track) :=
  inferInstanceAs (Decidable (_ ∧ _))

theorem emitted_trak {env : Env} {mov : MOVContext} {track : MOVTrack} (h : Plain track)
    {r : List CacheWrite × MOVContext} (hr : movWriteTrakTag env mov track = some r) :
    emitted r.1 = (trakBox env mov track).encode ∧
      movGetTrakTagSize env mov track = (trakBox env mov track).encode.length ∧
      mov.Reads r.2 [track.stream_type] := by
  unfold movWriteTrakTag movWriteTkhdTag at hr
  by_cases ht : track.timescale = 0
  · rw [if_pos ht] at hr
    cases hr
  · rw [if_neg ht] at hr
    cases hmdia : movWriteMdiaTag env mov track with
    | none =>
      rw [hmdia] at hr
      cases hr
    | some mdia =>
      rw [hmdia] at hr
      cases hr
      obtain ⟨hbytes, hlen, hreads⟩ := emitted_mdia h hmdia
      have hsize : movGetTrakTagSize env mov track = (trakBox env mov track).encode.length := by
        rw [movGetTrakTagSize, tkhd_length track, hlen, trakBox, box_length]
        simp only [encodeAll_cons, encodeAll_nil, List.append_nil, List.length_append,
          List.length_nil]
        omega
      refine ⟨?_, hsize, hreads⟩
      have htkhd : emitted (putBe32 movGetTkhdTagSize ++ putTag (fourcc 't' 'k' 'h' 'd')
          ++ tkhdFields track)
          = (tkhdBox track).encode := emitted_leaf (by decide) (tkhd_length track) rfl
      refine emitted_box (by decide) hsize ?_
      rw [emitted_append, htkhd, hbytes, encodeAll_cons, encodeAll_cons, encodeAll_nil,
        List.append_nil, List.nil_append]

theorem trak_isSome (env : Env) (mov : MOVContext) (track : MOVTrack) :
    (movWriteTrakTag env mov track).isSome ↔ Writable env track := by
  have hmdia : (movWriteMdiaTag env mov track).isSome ↔ Describable env track := by
    unfold movWriteMdiaTag movWriteMinfTag
    rw [Option.isSome_map, Option.isSome_map]
    exact stbl_isSome env mov track
  unfold movWriteTrakTag movWriteTkhdTag Writable
  rw [← hmdia]
  by_cases ht : track.timescale = 0
  · rw [if_pos ht]
    exact ⟨fun h => (nomatch h), fun h => absurd ht h.1⟩
  · rw [if_neg ht]
    cases movWriteMdiaTag env mov track with
    | none => exact ⟨fun h => (nomatch h), fun h => (nomatch h.2)⟩
    | some mdia => exact ⟨fun _ => ⟨ht, rfl⟩, fun _ => rfl⟩

/-! ## `moov` -/

theorem title_reads {a b : MOVContext} {ts : List CodecType} (h : a.Reads b ts) (env : Env) :
    titleInfo env b = titleInfo env a := by
  obtain ⟨p, rfl, -⟩ := h
  rfl

theorem stts_reads {a b : MOVContext} {ts : List CodecType} (h : a.Reads b ts) {track : MOVTrack}
    (ht : track.stream_type ∉ ts) : sttsBox b track = sttsBox a track := by
  obtain ⟨p, rfl, hp⟩ := h
  unfold sttsBox sttsFields
  cases track.enc.codec_type with
  | audio => rfl
  | video =>
    dsimp only
    by_cases hpages : track.stts_tiny_pages = 0
    · rw [if_pos hpages, if_pos hpages, putLoop_eq, putLoop_eq]
      dsimp only
      rw [hp _ _ ht]
    · rw [if_neg hpages, if_neg hpages]

/-- the box of a track does not depend on the reads of the tables of other tracks -/
theorem trak_reads {a b : MOVContext} {ts : List CodecType} (h : a.Reads b ts) {track : MOVTrack}
    (ht : track.stream_type ∉ ts) (env : Env) : trakBox env b track = trakBox env a track := by
  have hkey : b.cache_keyframe = a.cache_keyframe := by
    obtain ⟨p, rfl, -⟩ := h
    rfl
  have hsync : syncBoxes b track = syncBoxes a track := by
    unfold syncBoxes stssBox stssFields
    rw [hkey]
  have hstbl : stblBox env b track = stblBox env a track := by
    unfold stblBox stscBox stszBox stcoBox
    rw [stts_reads h ht, hsync, h.entries ht, h.entries ht, h.entries ht]
  unfold trakBox mdiaBox minfBox hdlrBox hdlrFields
  rw [hstbl, title_reads h env]

theorem emitted_traks {env : Env} {base mov : MOVContext} {is ts : List CodecType}
    (hbase : base.Reads mov ts) (hfresh : ∀ i ∈ is, i ∉ ts) (hnodup : is.Nodup)
    (hplain : ∀ i ∈ is, Plain (base.tracks i) ∧ (base.tracks i).stream_type = i)
    {r : List CacheWrite × MOVContext} (hr : movWriteTraks env is mov = some r) :
    emitted r.1 = encodeAll (is.map fun i => trakBox env base (base.tracks i)) ∧
      (is.map fun i => movGetTrakTagSize env base (base.tracks i)).sum
        = (encodeAll (is.map fun i => trakBox env base (base.tracks i))).length ∧
      base.Reads r.2 (ts ++ is) := by
  induction is generalizing mov ts r with
  | nil =>
    cases hr
    rw [List.map_nil, encodeAll_nil, List.append_nil]
    exact ⟨rfl, rfl, hbase⟩
  | cons i is ih =>
    obtain ⟨trak, htrak, hr⟩ := Option.bind_eq_some_iff.mp hr
    obtain ⟨rest, hrest, rfl⟩ := Option.map_eq_some_iff.mp hr
    obtain ⟨hp, hst⟩ := hplain i List.mem_cons_self
    have htracks : mov.tracks = base.tracks := by
      obtain ⟨p, rfl, -⟩ := hbase
      rfl
    have hsize : movGetTrakTagSize env mov (base.tracks i)
        = movGetTrakTagSize env base (base.tracks i) := by
      unfold movGetTrakTagSize movGetMdiaTagSize movGetHdlrTagSize
      rw [title_reads hbase env]
    rw [htracks] at htrak
    obtain ⟨hbytes, hlen, hreads⟩ := emitted_trak hp htrak
    rw [trak_reads hbase (by rw [hst]; exact hfresh i List.mem_cons_self)] at hbytes hlen
    rw [hst] at hreads
    obtain ⟨hi, hnodup⟩ := List.nodup_cons.mp hnodup
    obtain ⟨h1, h2, h3⟩ := ih (hbase.trans hreads)
      (by
        intro j hj hmem
        rcases List.mem_append.mp hmem with hmem | hmem
        · exact hfresh j (List.mem_cons_of_mem i hj) hmem
        · exact hi (List.mem_singleton.mp hmem ▸ hj))
      hnodup (fun j hj => hplain j (List.mem_cons_of_mem i hj)) hrest
    refine ⟨?_, ?_, ?_⟩
    · rw [emitted_append, hbytes, h1, List.map_cons, encodeAll_cons]
    · rw [List.map_cons, List.sum_cons, List.map_cons, encodeAll_cons, List.length_append, ← h2,
        ← hlen, hsize]
    · rw [List.append_assoc] at h3
      exact h3

theorem traks_isSome {env : Env} {mov : MOVContext} (is : List CodecType)
    (hplain : ∀ i ∈ is, Plain (mov.tracks i)) :
    (movWriteTraks env is mov).isSome ↔ ∀ i ∈ is, Writable env (mov.tracks i) := by
  induction is generalizing mov with
  | nil => exact ⟨fun _ _ h => (nomatch h), fun _ => rfl⟩
  | cons i is ih =>
    rw [movWriteTraks, List.forall_mem_cons, ← trak_isSome env mov]
    cases htrak : movWriteTrakTag env mov (mov.tracks i) with
    | none => exact ⟨fun h => (nomatch h), fun h => (nomatch h.1)⟩
    | some trak =>
      have htracks : trak.2.tracks = mov.tracks := by
        obtain ⟨-, -, p, hp, -⟩ := emitted_trak (hplain i List.mem_cons_self) htrak
        rw [hp]
      have hplains : ∀ j ∈ is, Plain (trak.2.tracks j) := by
        intro j hj
        rw [htracks]
        exact hplain j (List.mem_cons_of_mem i hj)
      have hrest := ih hplains
      rw [htracks] at hrest
      show ((movWriteTraks env is trak.2).map _).isSome ↔ _
      rw [Option.isSome_map, hrest]
      exact ⟨fun h => ⟨rfl, h⟩, fun h => h.2⟩

def mvhdBox (mov : MOVContext) : Box := leaf (fourcc 'm' 'v' 'h' 'd') (emitted (mvhdFields mov))

theorem mvhdFields_length (mov : MOVContext) : (emitted (mvhdFields mov)).length = 100 := by
  unfold mvhdFields
  simp only [emitted_append, emitted_putBe32, emitted_putBe24, emitted_putBe16, emitted_putByte,
    List.length_append, be_length]

theorem mvhd_length (mov : MOVContext) : movGetMvhdTagSize = (mvhdBox mov).encode.length := by
  rw [mvhdBox, leaf_length, mvhdFields_length]
  rfl

def udtaBoxes (mov : MOVContext) : List Box :=
  if mov.geo_available then
    [.mk (fourcc 'u' 'd' 't' 'a') [] [leaf (fourcc '\xa9' 'x' 'y' 'z') (emitted (xyzFields mov))]]
  else []

theorem le_padded (prec n : Nat) : prec ≤ (padded prec n).length := by
  rw [padded, List.length_append, List.length_replicate]
  omega

theorem writeDegrees_length (whole : Nat) (degreex10000 : Int) :
    (emitted (writeDegrees whole degreex10000)).length = whole + 2 + 4 := by
  have h4 := le_padded 4 (degreex10000 - degreex10000.tdiv 10000 * 10000).natAbs
  have hw := le_padded whole (degreex10000.tdiv 10000).natAbs
  unfold writeDegrees
  dsimp only
  have hsign : (if degreex10000.tdiv 10000 = 0 then
      (if degreex10000 < 0 then ascii "-" else ascii "+")
      else if degreex10000.tdiv 10000 < 0 then ascii "-" else ascii "+").length = 1 := by
    split
    · split <;> rfl
    · split <;> rfl
  have hdot : (ascii ".").length = 1 := rfl
  rw [emitted_putBuffer, List.length_append, List.length_take, List.length_take, List.length_append,
    List.length_append, hsign, hdot]
  omega

theorem xyzFields_length (mov : MOVContext) : (emitted (xyzFields mov)).length = 22 := by
  unfold xyzFields
  simp only [emitted_append, emitted_putBe32, emitted_putByte, List.length_append, be_length,
    writeDegrees_length]

theorem emitted_udta (mov : MOVContext) :
    emitted (if mov.geo_available then movWriteUdtaTag mov else []) = encodeAll (udtaBoxes mov) ∧
      (if mov.geo_available then movGetUdtaTagSize else 0)
        = (encodeAll (udtaBoxes mov)).length := by
  unfold udtaBoxes
  split
  · have hxyz : emitted (putBe32 (movGetUdtaTagSize - 8) ++ putTag (fourcc '\xa9' 'x' 'y' 'z')
        ++ xyzFields mov)
        = (leaf (fourcc '\xa9' 'x' 'y' 'z') (emitted (xyzFields mov))).encode := by
      refine emitted_leaf (by decide) ?_ rfl
      rw [leaf_length, xyzFields_length]
      rfl
    have hsize : movGetUdtaTagSize = (Box.mk (fourcc 'u' 'd' 't' 'a') []
        [leaf (fourcc '\xa9' 'x' 'y' 'z') (emitted (xyzFields mov))]).encode.length := by
      rw [box_length, encodeAll_cons, encodeAll_nil, List.append_nil, leaf_length, xyzFields_length]
      rfl
    rw [encodeAll_cons, encodeAll_nil, List.append_nil]
    refine ⟨?_, hsize⟩
    refine emitted_box (by decide) hsize ?_
    rw [hxyz, encodeAll_cons, encodeAll_nil, List.append_nil, List.nil_append]
  · rw [encodeAll_nil]
    exact ⟨rfl, rfl⟩

/-- the context from which the boxes in `moov` are written -/
def MOVContext.prepared (mov : MOVContext) (env : Env) : MOVContext :=
  (mov.fillTitle env).nameTracks

def moovBox (env : Env) (mov : MOVContext) : Box :=
  .mk (fourcc 'm' 'o' 'o' 'v') [] (udtaBoxes mov ++ mvhdBox mov :: (writtenTracks mov).map fun i =>
    trakBox env mov (mov.tracks i))

theorem titleInfo_head (env : Env) (mov : MOVContext) : (titleInfo env mov).head? ≠ some 0 := by
  unfold titleInfo
  split
  · intro h
    have h73 : (some 73 : Option UInt8) = some 0 := h
    exact absurd h73 (by decide)
  · assumption

/-- a title that was filled once stays -/
theorem titleInfo_prepared (env : Env) (mov : MOVContext) :
    titleInfo env (mov.prepared env) = titleInfo env mov := by
  unfold MOVContext.prepared MOVContext.fillTitle
  by_cases hnone : writtenTracks mov = []
  · rw [if_pos hnone]
    rfl
  · rw [if_neg hnone]
    show (if (titleInfo env mov).head? = some 0 then _ else titleInfo env mov) = titleInfo env mov
    rw [if_neg (titleInfo_head env mov)]

theorem prepared_tracks (env : Env) (mov : MOVContext) (i : CodecType)
    (hi : i ∈ streamsBelow mov.nb_streams) :
    (mov.prepared env).tracks i = { mov.tracks i with
      time := mov.create_time
      trackID := if i = .video then 1 else 2
      stream_type := i } := by
  unfold MOVContext.prepared MOVContext.fillTitle
  split <;> exact if_pos hi

theorem prepared_nb (env : Env) (mov : MOVContext) :
    (mov.prepared env).nb_streams = mov.nb_streams := by
  unfold MOVContext.prepared MOVContext.fillTitle
  split <;> rfl

theorem written_below {mov : MOVContext} {i : CodecType} (h : i ∈ writtenTracks mov) :
    i ∈ streamsBelow mov.nb_streams ∧ 0 < (mov.tracks i).stsz_size := by
  obtain ⟨h1, h2⟩ := List.mem_filter.mp h
  exact ⟨h1, of_decide_eq_true h2⟩

theorem prepared_written (env : Env) (mov : MOVContext) :
    writtenTracks (mov.prepared env) = writtenTracks mov := by
  unfold writtenTracks
  rw [prepared_nb]
  apply List.filter_congr
  intro i hi
  rw [prepared_tracks env mov i hi]

theorem written_nodup (mov : MOVContext) : (writtenTracks mov).Nodup := by
  apply List.Nodup.filter
  apply List.Nodup.sublist (List.take_sublist _ _)
  decide

theorem prepared_size (env : Env) (mov : MOVContext) :
    movGetMoovTagSize env (mov.prepared env) = movGetMoovTagSize env mov := by
  have hgeo : (mov.prepared env).geo_available = mov.geo_available := by
    unfold MOVContext.prepared MOVContext.fillTitle
    split <;> rfl
  unfold movGetMoovTagSize
  rw [hgeo, prepared_written]
  congr 2
  apply List.map_congr_left
  intro i hi
  rw [prepared_tracks env mov i (written_below hi).1]
  unfold movGetTrakTagSize movGetMdiaTagSize movGetHdlrTagSize
  rw [titleInfo_prepared]
  rfl

theorem be_bmod (n : Nat) : be 4 (u32 ((n : Int).bmod (2 ^ 32))) = be 4 n := by
  have hmod : u32 ((n : Int).bmod (2 ^ 32)) = n % 256 ^ 4 := by
    unfold u32
    have := Int.bmod_emod (x := (n : Int)) (m := 2 ^ 32)
    omega
  rw [hmod, be_mod]

/-- **`moov` is the encoding of its tree**, and its size function is right. -/
theorem emitted_moov {env : Env} {mov : MOVContext}
    (hplain : ∀ i ∈ writtenTracks mov, Plain (mov.tracks i)) {r : List CacheWrite × MOVContext}
    (hr : movWriteMoovBox env mov = some r) :
    emitted r.1 = (moovBox env (mov.prepared env)).encode ∧
      movGetMoovTagSize env mov = (moovBox env (mov.prepared env)).encode.length ∧
      (mov.prepared env).Reads r.2 (writtenTracks mov) := by
  obtain ⟨traks, htraks, rfl⟩ := Option.map_eq_some_iff.mp hr
  have hplain' : ∀ i ∈ writtenTracks mov, Plain ((mov.prepared env).tracks i) ∧
      ((mov.prepared env).tracks i).stream_type = i := by
    intro i hi
    have h := hplain i hi
    rw [prepared_tracks env mov i (written_below hi).1]
    exact ⟨⟨h.stsz, h.stco, h.stsc, h.stts, h.duration⟩, rfl⟩
  change movWriteTraks env (writtenTracks (mov.prepared env)) (mov.prepared env)
    = some traks at htraks
  rw [prepared_written] at htraks
  obtain ⟨hbytes, hlen, hreads⟩ := emitted_traks (MOVContext.Reads.refl (mov.prepared env) [])
    (fun _ _ => List.not_mem_nil) (written_nodup mov) hplain' htraks
  obtain ⟨hudta, hudtaLen⟩ := emitted_udta (mov.prepared env)
  have hsize : movGetMoovTagSize env mov = (moovBox env (mov.prepared env)).encode.length := by
    rw [← prepared_size, movGetMoovTagSize, prepared_written, hlen, hudtaLen,
      mvhd_length (mov.prepared env), moovBox, box_length, encodeAll_append, encodeAll_cons,
      prepared_written]
    simp only [List.length_append, List.length_nil]
    omega
  refine ⟨?_, hsize, hreads⟩
  have hmvhd : emitted (movWriteMvhdTag (mov.prepared env)) = (mvhdBox (mov.prepared env)).encode :=
    emitted_leaf (by decide) (mvhd_length _) rfl
  show emitted (putBe32 (u32 (moovSize env mov)) ++ putTag (fourcc 'm' 'o' 'o' 'v')
    ++ ((if (mov.prepared env).geo_available then movWriteUdtaTag (mov.prepared env) else [])
      ++ movWriteMvhdTag (mov.prepared env) ++ traks.1)) = _
  have hhead : emitted (putBe32 (u32 (moovSize env mov)))
      = emitted (putBe32 (movGetMoovTagSize env mov)) :=
    (emitted_putBe32 _).trans ((be_bmod (movGetMoovTagSize env mov)).trans (emitted_putBe32 _).symm)
  rw [emitted_append, emitted_append, hhead, ← emitted_append, ← emitted_append]
  refine emitted_box (by decide) hsize ?_
  rw [emitted_append, emitted_append, hudta, hmvhd, hbytes, encodeAll_append, encodeAll_cons,
    prepared_written, List.nil_append, List.append_assoc]

theorem moov_isSome {env : Env} {mov : MOVContext}
    (hplain : ∀ i ∈ writtenTracks mov, Plain (mov.tracks i)) :
    (movWriteMoovBox env mov).isSome ↔ ∀ i ∈ writtenTracks mov, Writable env (mov.tracks i) := by
  unfold movWriteMoovBox
  rw [Option.isSome_map]
  show (movWriteTraks env (writtenTracks (mov.prepared env)) (mov.prepared env)).isSome ↔ _
  rw [prepared_written, traks_isSome]
  · apply forall₂_congr
    intro i hi
    rw [prepared_tracks env mov i (written_below hi).1]
    exact Iff.rfl
  · intro i hi
    have h := hplain i hi
    rw [prepared_tracks env mov i (written_below hi).1]
    exact ⟨h.stsz, h.stco, h.stsc, h.stts, h.duration⟩

end Pluto.Mp4

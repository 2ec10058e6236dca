import Pluto.Mp4.File
import Pluto.Bytes.SampleTable

/-!
# Every sample is found

* `trackTable`           the sample table of a stream, read from the body of a `moov` box;
* `moov_table`           what is read from the `moov` that was written;
* `samples_resolve`      in every session each sample of each track is found where the tables say.
-/

namespace Pluto.Mp4
open Octets Boxes SampleTables

/-! ## reading `moov` -/

/-- the handler type of a `trak` -/
def handlerOf (trak : Bytes) : Option Bytes :=
  (findPath [(fourcc 'm' 'd' 'i' 'a').val, (fourcc 'h' 'd' 'l' 'r').val] trak).map fun hdlr =>
    slice hdlr 8 4

/-- the first `trak` of the body of `moov` whose handler is that of the stream -/
def trakOf (moov : Bytes) (t : CodecType) : Option Bytes :=
  ((boxesOf moov).1.find? fun b =>
    b.1 = (fourcc 't' 'r' 'a' 'k').val ∧ handlerOf b.2 = some (hdlrType t).val).map Prod.snd

def trackTable (moov : Bytes) (t : CodecType) : Option SampleTable :=
  (trakOf moov t).bind fun trak =>
    (findPath [(fourcc 'm' 'd' 'i' 'a').val, (fourcc 'm' 'i' 'n' 'f').val,
      (fourcc 's' 't' 'b' 'l').val] trak).bind
      sampleTable

section
variable {env : Env} {mov : MOVContext} {track : MOVTrack}

/-- the handler and the tables of a track -/
theorem trak_under : (trakBox env mov track).under [fourcc 'm' 'd' 'i' 'a', fourcc 'h' 'd' 'l' 'r']
      = some (hdlrBox env mov track) ∧
    (trakBox env mov track).under [fourcc 'm' 'd' 'i' 'a', fourcc 'm' 'i' 'n' 'f',
      fourcc 's' 't' 'b' 'l']
      = some (stblBox env mov track) := by
  have hmdia : (trakBox env mov track).child (fourcc 'm' 'd' 'i' 'a')
      = some (mdiaBox env mov track) := rfl
  have hhdlr : (mdiaBox env mov track).child (fourcc 'h' 'd' 'l' 'r')
      = some (hdlrBox env mov track) := rfl
  have hminf : (mdiaBox env mov track).child (fourcc 'm' 'i' 'n' 'f')
      = some (minfBox env mov track) := rfl
  have hstbl : (minfBox env mov track).child (fourcc 's' 't' 'b' 'l')
      = some (stblBox env mov track) := by
    unfold minfBox mhdBox
    cases track.enc.codec_type with
    | video => rfl
    | audio => rfl
  constructor
  · rw [under_cons hmdia, under_cons hhdlr, under_nil]
  · rw [under_cons hmdia, under_cons hminf, under_cons hstbl, under_nil]

/-- the table that the tag names -/
theorem stbl_child {u : Box}
    (hu : u ∈ [sttsBox mov track, stscBox mov track, stszBox mov track, stcoBox mov track]) :
    (stblBox env mov track).child u.tag = some u := by
  unfold stblBox syncBoxes
  simp only [List.mem_cons, List.not_mem_nil, or_false] at hu
  cases track.enc.codec_type with
  | video => rcases hu with rfl | rfl | rfl | rfl <;> rfl
  | audio => rcases hu with rfl | rfl | rfl | rfl <;> rfl

theorem hdlr_handler :
    slice (hdlrBox env mov track).body 8 4 = (hdlrType track.enc.codec_type).val := by
  have h8 : (be 4 0 ++ zeros 4).length = 8 := rfl
  have hmid := slice_mid (be 4 0 ++ zeros 4) (hdlrType track.enc.codec_type).val
    (be 4 0 ++ be 4 0 ++ be 4 0 ++ (titleInfo env mov).take (strlen (titleInfo env mov)) ++ be 1 0)
  rw [h8, (hdlrType track.enc.codec_type).property] at hmid
  rw [hdlrBox, leaf_body, hdlrFields]
  simp only [emitted_append, emitted_putBe32, emitted_putBuffer, emitted_putByte, emitted_hdlrType]
  simp only [List.append_assoc] at hmid ⊢
  exact hmid

/-- the path from a track to its tables -/
theorem trak_path (h : (trakBox env mov track).encode.length < 2 ^ 32) :
    handlerOf (trakBox env mov track).body = some (hdlrType track.enc.codec_type).val ∧
      findPath [(fourcc 'm' 'd' 'i' 'a').val, (fourcc 'm' 'i' 'n' 'f').val,
        (fourcc 's' 't' 'b' 'l').val]
        (trakBox env mov track).body = some (stblBox env mov track).body ∧
      (stblBox env mov track).encode.length < 2 ^ 32 := by
  obtain ⟨hhdlr, hstbl⟩ := @trak_under env mov track
  obtain ⟨hread, -⟩ := findPath_under h hhdlr
  refine ⟨?_, findPath_under h hstbl⟩
  unfold handlerOf
  rw [show findPath [(fourcc 'm' 'd' 'i' 'a').val, (fourcc 'h' 'd' 'l' 'r').val] _ = _ from hread,
    Option.map_some, hdlr_handler]

/-- the words of the tables as the reads of the write functions return them -/
def tableOf (mov : MOVContext) (track : MOVTrack) : SampleTable where
  offsets := (mov.entries (.stco, track.stream_type) track.stco_size).map UInt32.toNat
  runs := runsOf ((mov.entries (.stsc, track.stream_type) track.stsc_size).map UInt32.toNat)
  sizes := (mov.entries (.stsz, track.stream_type) track.stsz_size).map UInt32.toNat

theorem words_lt (ws : List UInt32) : ∀ v ∈ ws.map UInt32.toNat, v < 2 ^ 32 := by
  intro v hv
  obtain ⟨w, -, rfl⟩ := List.mem_map.mp hv
  exact w.toNat_lt

theorem stco_read (h : (stcoBox mov track).encode.length < 2 ^ 32) :
    stcoEntries (stcoBox mov track).body = (tableOf mov track).offsets := by
  have hlen := stco_length mov track
  rw [movGetStcoTagSize] at hlen
  have hcount : ((mov.entries (.stco, track.stream_type) track.stco_size).map UInt32.toNat).length
      = track.stco_size := by
    rw [List.length_map, entries_length]
  have hread :=
    stcoEntries_eq ((mov.entries (.stco, track.stream_type) track.stco_size).map UInt32.toNat)
      (by rw [hcount]; omega) (words_lt _)
  rw [hcount] at hread
  rw [stcoBox, leaf_body]
  exact hread

theorem stsz_read (h : (stszBox mov track).encode.length < 2 ^ 32) :
    stszEntries (stszBox mov track).body = (tableOf mov track).sizes := by
  have hlen := stsz_length mov track
  rw [movGetStszTagSize] at hlen
  have hcount : ((mov.entries (.stsz, track.stream_type) track.stsz_size).map UInt32.toNat).length
      = track.stsz_size := by
    rw [List.length_map, entries_length]
  have hread :=
    stszEntries_eq ((mov.entries (.stsz, track.stream_type) track.stsz_size).map UInt32.toNat)
      (by rw [hcount]; omega) (words_lt _)
  rw [hcount] at hread
  rw [stszBox, leaf_body]
  exact hread

theorem stsc_read (h : (stscBox mov track).encode.length < 2 ^ 32) :
    stscEntries (stscBox mov track).body = (tableOf mov track).runs := by
  have hlen := stsc_length mov track
  rw [movGetStscTagSize] at hlen
  have hcount :
      (runsOf ((mov.entries (.stsc, track.stream_type) track.stsc_size).map UInt32.toNat)).length
      = track.stsc_size := by
    rw [runsOf_length, List.length_map, entries_length]
  have hread :=
    stscEntries_eq
      (runsOf ((mov.entries (.stsc, track.stream_type) track.stsc_size).map UInt32.toNat))
    (by rw [hcount]; omega) (by
      intro r hr
      refine ⟨?_, ?_⟩
      · obtain ⟨i, hi, rfl⟩ := List.mem_map.mp hr
        have hlt := List.mem_range.mp hi
        rw [List.length_map, entries_length] at hlt
        show i + 1 < 2 ^ 32
        omega
      · have hmem := List.mem_map_of_mem (f := Prod.snd) hr
        rw [runsOf_snd] at hmem
        exact words_lt _ _ hmem)
  rw [hcount] at hread
  rw [stscBox, leaf_body]
  exact hread

/-- **The tables that are read** are the tables that were written. -/
theorem stbl_table (h : (stblBox env mov track).encode.length < 2 ^ 32) :
    sampleTable (stblBox env mov track).body = some (tableOf mov track) := by
  obtain ⟨fstco, hstco⟩ := findBox_child h (stbl_child (u := stcoBox mov track) (by simp))
  obtain ⟨fstsc, hstsc⟩ := findBox_child h (stbl_child (u := stscBox mov track) (by simp))
  obtain ⟨fstsz, hstsz⟩ := findBox_child h (stbl_child (u := stszBox mov track) (by simp))
  unfold sampleTable
  rw [show findBox (fourcc 's' 't' 'c' 'o').val _ = _ from fstco,
    show findBox (fourcc 's' 't' 's' 'c').val _ = _ from fstsc,
    show findBox (fourcc 's' 't' 's' 'z').val _ = _ from fstsz]
  dsimp only
  rw [stco_read hstco, stsc_read hstsc, stsz_read hstsz]

/-- a `trak` of `moov` is that of a written track -/
theorem moov_children {u : Box} (hu : u ∈ (moovBox env mov).children)
    (htag : u.tag = fourcc 't' 'r' 'a' 'k') :
    ∃ i ∈ writtenTracks mov, trakBox env mov (mov.tracks i) = u := by
  rcases List.mem_append.mp hu with hu | hu
  · unfold udtaBoxes at hu
    split at hu
    · rw [List.mem_singleton.mp hu] at htag
      exact absurd htag (by decide : fourcc 'u' 'd' 't' 'a' ≠ fourcc 't' 'r' 'a' 'k')
    · cases hu
  · rcases List.mem_cons.mp hu with rfl | hu
    · exact absurd htag (by decide : fourcc 'm' 'v' 'h' 'd' ≠ fourcc 't' 'r' 'a' 'k')
    · exact List.mem_map.mp hu

theorem trak_child {i : CodecType} (hi : i ∈ writtenTracks mov) :
    trakBox env mov (mov.tracks i) ∈ (moovBox env mov).children :=
  List.mem_append_right _ (List.mem_cons_of_mem _ (List.mem_map_of_mem hi))

theorem hdlrType_inj {i t : CodecType} (h : (hdlrType i).val = (hdlrType t).val) : i = t := by
  cases i with
  | video =>
    cases t with
    | video => rfl
    | audio => exact absurd h (by decide)
  | audio =>
    cases t with
    | video => exact absurd h (by decide)
    | audio => rfl

/-- the track of a stream in `moov` -/
theorem moov_trak (h : (moovBox env mov).encode.length < 2 ^ 32)
    (htype : ∀ i ∈ writtenTracks mov, (mov.tracks i).enc.codec_type = i) {t : CodecType}
    (ht : t ∈ writtenTracks mov) :
    trakOf (moovBox env mov).body t = some (trakBox env mov (mov.tracks t)).body ∧
      (trakBox env mov (mov.tracks t)).encode.length < 2 ^ 32 := by
  have hbody : (moovBox env mov).body = encodeAll (moovBox env mov).children := rfl
  have hlt := (body_le _).trans_lt h
  rw [hbody] at hlt
  have hlen : ∀ i ∈ writtenTracks mov, (trakBox env mov (mov.tracks i)).encode.length < 2 ^ 32 :=
    fun i hi => (mem_encode_le (trak_child hi)).trans_lt hlt
  have hhandler : ∀ i ∈ writtenTracks mov,
      handlerOf (trakBox env mov (mov.tracks i)).body = some (hdlrType i).val := by
    intro i hi
    rw [(trak_path (hlen i hi)).1, htype i hi]
  refine ⟨?_, hlen t ht⟩
  unfold trakOf
  rw [hbody, boxesOf_encodeAll hlt, List.find?_map, Option.map_map, find_unique (trak_child ht)]
  · rfl
  · exact decide_eq_true ⟨rfl, hhandler t ht⟩
  · intro u hu hp
    obtain ⟨htag, hhandle⟩ := of_decide_eq_true hp
    obtain ⟨i, hi, rfl⟩ := moov_children hu (Subtype.ext htag)
    rw [hdlrType_inj (Option.some.inj ((hhandler i hi).symm.trans hhandle))]

theorem moov_table (h : (moovBox env mov).encode.length < 2 ^ 32)
    (htype : ∀ i ∈ writtenTracks mov, (mov.tracks i).enc.codec_type = i) {t : CodecType}
    (ht : t ∈ writtenTracks mov) :
    trackTable (moovBox env mov).body t = some (tableOf mov (mov.tracks t)) := by
  obtain ⟨htrak, hlen⟩ := moov_trak h htype ht
  obtain ⟨-, hpath, hstbl⟩ := trak_path hlen
  unfold trackTable
  rw [htrak, Option.bind_some, hpath, Option.bind_some, stbl_table hstbl]

end

/-! ## the tables of a session -/

theorem toNat_words {l : List Nat} (h : ∀ v ∈ l, v < 2 ^ 32) :
    (l.map UInt32.ofNat).map UInt32.toNat = l := by
  rw [List.map_map]
  conv_rhs => rw [← List.map_id l]
  apply List.map_congr_left
  intro v hv
  exact UInt32.toNat_ofNat_of_lt' (h v hv)

/-- the chunks of a file shorter than 2³¹ bytes have small numbers -/
theorem chunks_small {file : Bytes} {cs : List Chunk} (hfile : file.length < 2 ^ 31)
    (hs : ∀ c ∈ cs, c.Stored file) (hcount : (samplesOf cs).length < 2 ^ 32) :
    (∀ v ∈ cs.map Chunk.offset, v < 2 ^ 32) ∧
      (∀ v ∈ cs.map (fun c => c.samples.length), v < 2 ^ 32) ∧
      ∀ v ∈ (samplesOf cs).map List.length, v < 2 ^ 32 := by
  refine ⟨?_, ?_, ?_⟩
  · intro v hv
    obtain ⟨c, hc, rfl⟩ := List.mem_map.mp hv
    have hle := (hs c hc).1
    omega
  · intro v hv
    have hsum : (cs.map fun c => c.samples.length).sum = (samplesOf cs).length := by
      rw [samplesOf, List.length_flatMap]
    have hle := List.le_sum_of_mem hv
    omega
  · intro v hv
    obtain ⟨b, hb, rfl⟩ := List.mem_map.mp hv
    obtain ⟨k, hk, rfl⟩ := List.getElem_of_mem hb
    obtain ⟨off, -, hle, -⟩ := tableOfChunks_resolve hs k hk
    omega

theorem prepared_entries (env : Env) (mov : MOVContext) (k : Table) (n : Nat) :
    (mov.prepared env).entries k n = mov.entries k n := by
  unfold MOVContext.prepared MOVContext.fillTitle
  split <;> rfl

/-- **What the trailer writes**: the tables of a track list the chunks of its layout. -/
theorem tableOf_layout (env : Env) {start : Setup} {mov : MOVContext}
    {es : List (CodecType × Bytes)} {durations : List UInt32} (hclosed : Closed start mov es)
    (hread : mov.cache_read_ptr = cacheStart)
    (hareas : Areas mov (layoutWords (layout mdatStart es) (layout mdatStart es).chunks durations))
    {file : Bytes} (hfile : file.length < 2 ^ 31) {t : CodecType} (ht : t ∈ writtenTracks mov)
    (hs : ∀ c ∈ (layout mdatStart es).chunks t, c.Stored file)
    (hcount : (samplesOf ((layout mdatStart es).chunks t)).length < 2 ^ 32) :
    tableOf (mov.prepared env) ((mov.prepared env).tracks t)
      = tableOfChunks ((layout mdatStart es).chunks t) := by
  obtain ⟨hoffsets, hlengths, hsizes⟩ := chunks_small hfile hs hcount
  have hstco := (hareas (.stco, t) (chunk_real .stco t (by decide))).entries (congrFun hread _)
  have hstsc := (hareas (.stsc, t) (chunk_real .stsc t (by decide))).entries (congrFun hread _)
  have hstsz := (hareas (.stsz, t) (chunk_real .stsz t (by decide))).entries (congrFun hread _)
  have nstco : (layoutWords (layout mdatStart es)
      (layout mdatStart es).chunks durations (.stco, t)).length
      = (mov.tracks t).stco_size := by
    rw [hclosed.stco]
    simp [layoutWords, tableWords, chunkOffsets]
  have nstsc : (layoutWords (layout mdatStart es)
      (layout mdatStart es).chunks durations (.stsc, t)).length
      = (mov.tracks t).stsc_size := by
    rw [hclosed.stsc]
    simp [layoutWords, tableWords, chunkLengths]
  have nstsz : (layoutWords (layout mdatStart es)
      (layout mdatStart es).chunks durations (.stsz, t)).length
      = (mov.tracks t).stsz_size := by
    rw [hclosed.stsz, ← (layout_of mdatStart es).samples]
    simp [layoutWords, tableWords, sampleSizes]
  rw [nstco] at hstco
  rw [nstsc] at hstsc
  rw [nstsz] at hstsz
  rw [prepared_tracks env mov t (written_below ht).1]
  unfold tableOf tableOfChunks
  dsimp only
  rw [prepared_entries, prepared_entries, prepared_entries, hstco, hstsc, hstsz]
  have h1 := toNat_words hoffsets
  have h2 := toNat_words hlengths
  have h3 := toNat_words hsizes
  unfold layoutWords tableWords chunkOffsets chunkLengths sampleSizes
  dsimp only
  rw [h1, h2, h3]

/-! ## every session -/

/-- a written track is of the type of its stream -/
theorem Closed.prepared_type (env : Env) {ctx : AVFormatContext} {mov : MOVContext}
    {es : List (CodecType × Bytes)} (h : Closed ctx.headed.priv_data.setup mov es)
    (hf : Fresh ctx) :
    ∀ i ∈ writtenTracks (mov.prepared env), ((mov.prepared env).tracks i).enc.codec_type = i := by
  rw [prepared_written]
  intro i hi
  rw [prepared_tracks env mov i (written_below hi).1]
  show (mov.tracks i).enc.codec_type = i
  rw [h.enc hi, hf.codec_type]

/-- the tables behind the closing packet -/
theorem Parts.areas {ctx : AVFormatContext} (hf : Fresh ctx)
    (h264 : (ctx.streams .video).codec_id = codecIdH264) {calls : List (Mem × AVPacket)}
    (hs : Streamed calls) (hp : Started calls) (hcap : Capacity calls) {total : Option Int}
    {body : List CacheWrite × AVFormatContext} {u : CodecType} {c : Chunk} {mov : MOVContext}
    (h : Parts ctx calls total body u c mov) :
    ∃ durations, Areas mov
      (layoutWords (layout mdatStart (samples calls)) (layout mdatStart (samples calls)).chunks
      durations) := by
  have hevents := events_samples h264 hp
  have hrec := packets_recorded hf h264 hs hp hcap h.packets
  obtain ⟨durations, -, hareas⟩ := hrec.areas
  have htotal : Areas (totalTime body.2 total).priv_data
      (layoutWords (layout mdatStart (samples calls))
      (layout mdatStart (samples calls)).closed durations) := by
    rw [totalTime_rest]
    exact hareas.congr rfl rfl
  have hroom := hcap.room ctx.streams
  have hcur := h.current
  rw [hevents] at hroom hcur
  refine ⟨durations, ?_⟩
  rw [h.context]
  exact htotal.close (hrec.toTracked.totalTime total).counted hroom hcur

/-- **Every sample is found.**  A session of an H.264 and an audio track has a result if and only if
each track in `moov` can be written.  If the file is shorter than 2³¹ bytes, a box `moov` then
stands in it, and for each track with a sample the tables in it resolve the `k`-th sample to the
place and size of the bytes of the `k`-th packet. -/
theorem samples_resolve (env : Env) {ctx : AVFormatContext} (ho : Opened ctx)
    (hn : ctx.mTrackCnt = 2) (h264 : (ctx.streams .video).codec_id = codecIdH264) {s : MmStreamInfo}
    (hfull : s.AlwaysFull) {mpCache : Bytes} {cacheSize : Int} (hcache : 0 < cacheSize)
    (hlen : (mpCache.length : Int) = cacheSize) {calls : List (Mem × AVPacket)}
    (hs : Streamed calls) (hne : calls ≠ []) (hp : Started calls) (hcap : Capacity calls)
    (total : Option Int) :
    ∃ body closed, packets ctx.headed calls = some body ∧
      movWritePacket (totalTime body.2 total) (fun _ => 0) lastPacket = some closed ∧
      ((mp4File env ctx s mpCache cacheSize calls total).isSome ↔
        ∀ i ∈ writtenTracks closed.2.2.priv_data, Writable env (closed.2.2.priv_data.tracks i)) ∧
      ∀ out, mp4File env ctx s mpCache cacheSize calls total = some out → out.2.1.length < 2 ^ 31 →
        ∃ moov rest, nextBox (out.2.1.drop (moovPlace env closed.2.2.priv_data (emitted body.1)))
            = some ((fourcc 'm' 'o' 'o' 'v').val, moov, rest) ∧
          ∀ t, track t (samples calls) ≠ [] → ∃ T, trackTable moov t = some T ∧
            T.offsets.length = T.runs.length ∧ (T.runs.map Prod.snd).sum = T.sizes.length ∧
            T.sizes.length = (track t (samples calls)).length ∧
            ∀ k (hk : k < (track t (samples calls)).length), ∃ off,
              T.resolve k = some (off, (track t (samples calls))[k].length) ∧
              off + (track t (samples calls))[k].length ≤ out.2.1.length ∧
              slice out.2.1 off (track t (samples calls))[k].length
                = (track t (samples calls))[k] := by
  have hf := ho.fresh
  obtain ⟨body, u, c, mov, hparts, hsome, hout⟩ :=
    mp4File_spec env hf hn.le hfull hlen hs hne hp total
  have hevents := events_samples h264 hp
  have hclosed := hparts.closed
  have hplain : ∀ i ∈ writtenTracks mov, Plain (mov.tracks i) := fun i hi => hclosed.plain hf hi
  obtain ⟨durations, hareas⟩ := hparts.areas hf h264 hs hp hcap
  refine ⟨body, _, hparts.packets, hparts.last, hsome.trans ⟨fun h => h.2, fun h => ⟨hcache, h⟩⟩,
    ?_⟩
  intro out heq hshort
  obtain ⟨box, hbox, hfile⟩ := hout out heq
  obtain ⟨hbytes, hsize, -⟩ := emitted_moov hplain hbox
  have hdata := hparts.data
  rw [hevents] at hdata hclosed
  have hboxPos : emitted box.1 ≠ [] := by
    rw [hbytes]
    exact encode_ne_nil _
  obtain ⟨hmoovLen, hdataLen, hdataFile, hbox'⟩ :=
    sessionFile_parts (hsize.trans (congrArg List.length hbytes.symm))
      hboxPos (hfile ▸ hshort)
  rw [← hfile] at hdataLen hdataFile hbox'
  rw [hbytes] at hbox'
  have hmoov32 : (moovBox env (mov.prepared env)).encode.length < 2 ^ 32 := by
    rw [← hbytes]
    omega
  refine ⟨_, _, nextBox_at hmoov32 hbox', ?_⟩
  -- the tables in it
  intro t hne
  have hsamples := (layout_of mdatStart (samples calls)).samples t
  have ht : t ∈ writtenTracks mov := by
    have hnb : mov.nb_streams = 2 := (congrArg Setup.nb_streams hclosed.setup).trans hn
    have hpos : 0 < (mov.tracks t).stsz_size := by
      rw [hclosed.stsz]
      exact List.length_pos_of_ne_nil hne
    refine List.mem_filter.mpr ⟨?_, decide_eq_true hpos⟩
    rw [hnb]
    cases t <;> decide
  rw [hdata] at hdataLen hdataFile
  have hstored := (layout_of mdatStart (samples calls)).stored hdataLen hdataFile t
  have hroom := (hcap.room ctx.streams).samples t
  rw [hevents] at hroom
  have hread : mov.cache_read_ptr = cacheStart :=
    (congrArg Setup.cache_read_ptr hclosed.setup).trans hf.placed.next
  have htable := tableOf_layout env hclosed hread hareas hshort ht hstored (by omega)
  have hfound :=
    moov_table hmoov32 (hparts.closed.prepared_type env hf) (by rw [prepared_written]; exact ht)
  rw [htable] at hfound
  obtain ⟨hruns, hsum⟩ := tableOfChunks_counts ((layout mdatStart (samples calls)).chunks t)
  refine ⟨_, hfound, hruns, hsum, ?_, ?_⟩
  · rw [← hsamples]
    exact List.length_map _
  · rw [← hsamples]
    exact tableOfChunks_resolve hstored

theorem samples_resolve_small :
    ∃ out moov rest T, mp4File smallEnv smallContext newFile [0, 0, 0, 0] 4 smallCalls
        (some 80) = some out ∧
      nextBox (out.2.1.drop 28) = some ((fourcc 'm' 'o' 'o' 'v').val, moov, rest) ∧
        trackTable moov .video = some T ∧
      ∃ off, T.resolve 1 = some (off, 7) ∧ slice out.2.1 off 7 = [0, 0, 0, 3, 4, 5, 100] := by
  obtain ⟨body, closed, hbody, hclosed, hsome, hfile⟩ :=
    samples_resolve smallEnv smallContext_opened rfl rfl newFile_full
      (by decide) small_cache (by decide : Streamed smallCalls) (List.cons_ne_nil _ _)
        (by decide) smallCalls_capacity (some 80)
  have hresults := small_results
  rw [hbody, Option.bind_some, hclosed, Option.map_some] at hresults
  obtain ⟨-, hrest⟩ := Prod.mk.inj (Option.some.inj hresults)
  obtain ⟨hsize, hready⟩ := Prod.mk.inj hrest
  obtain ⟨out, hout⟩ := Option.isSome_iff_exists.mp (hsome.mpr (of_decide_eq_true hready))
  obtain ⟨moov, rest, hbox, htracks⟩ := hfile out hout (small_short hout)
  have hfits : moovFits smallEnv closed.2.2.priv_data := by
    unfold moovFits moovSize
    simp only [hsize]
    decide
  rw [moovPlace, if_pos hfits] at hbox
  have htrack : track .video (samples smallCalls)
      = [[0, 0, 0, 2, 102, 103], [0, 0, 0, 3, 4, 5, 100]] := by decide
  obtain ⟨T, hT, -, -, -, hall⟩ := htracks .video (by rw [htrack]; exact List.cons_ne_nil _ _)
  rw [htrack] at hall
  obtain ⟨off, hres, -, hslice⟩ := hall 1 (by decide)
  exact ⟨out, moov, rest, T, hout, hbox, hT, off, hres, hslice⟩

end Pluto.Mp4

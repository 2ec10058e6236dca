import Pluto.Mp4.Tree
import Pluto.Mp4.Muxer

/-!
# The sample tables in the context

* `MOVContext.setup`     what no packet changes;
* `Filled`, `Areas`      the words of a table stand in its area, and the write pointer behind them;
* `Counted`, `Timed`     the counters of the tracks are those of a `Layout`, a table of the chunks
                         and samples that have been written (`Counted.packet`).
-/

namespace Pluto.Mp4
open Octets SampleTables

/-! ## what no packet changes -/

/-- the fields of a track that no packet changes -/
structure TrackSetup where
  timescale : Int
  tag : Nat
  enc : AVCodecContext
  csdData : Block
  pages : Nat × Nat × Nat × Nat

def MOVTrack.setup (trk : MOVTrack) : TrackSetup where
  timescale := trk.timescale
  tag := trk.tag
  enc := trk.enc
  csdData := trk.csdData
  pages := (trk.stsz_tiny_pages, trk.stco_tiny_pages, trk.stsc_tiny_pages, trk.stts_tiny_pages)

structure Setup where
  nb_streams : Nat
  mdat_pos : Nat
  mdat_start_pos : Nat
  free_pos : Nat
  geo_available : Bool
  title_info : Bytes
  cache_start_ptr : Table → Nat
  cache_end_ptr : Table → Nat
  cache_read_ptr : Table → Nat
  tracks : CodecType → TrackSetup

def MOVContext.setup (mov : MOVContext) : Setup where
  nb_streams := mov.nb_streams
  mdat_pos := mov.mdat_pos
  mdat_start_pos := mov.mdat_start_pos
  free_pos := mov.free_pos
  geo_available := mov.geo_available
  title_info := mov.title_info
  cache_start_ptr := mov.cache_start_ptr
  cache_end_ptr := mov.cache_end_ptr
  cache_read_ptr := mov.cache_read_ptr
  tracks t := (mov.tracks t).setup

@[simp] theorem wrap_setup (mov : MOVContext) (k : Table) : (mov.wrap k).setup = mov.setup := by
  unfold MOVContext.wrap
  split <;> rfl

theorem setTrack_setup (mov : MOVContext) (t : CodecType) {f : MOVTrack → MOVTrack}
    (hf : ∀ trk, (f trk).setup = trk.setup) : (mov.setTrack t f).setup = mov.setup := by
  have htracks : (fun u => ((mov.setTrack t f).tracks u).setup) = fun u =>
    (mov.tracks u).setup := by
    funext u
    by_cases hu : u = t
    · subst hu
      show (Function.update mov.tracks u (f (mov.tracks u)) u).setup = _
      rw [Function.update_self, hf]
    · show (Function.update mov.tracks t (f (mov.tracks t)) u).setup = _
      rw [Function.update_of_ne hu]
  unfold MOVContext.setup
  rw [htracks]
  rfl

theorem endChunk_setup (mov : MOVContext) (last : CodecType) :
    (mov.endChunk last).setup = mov.setup :=
  setTrack_setup _ _ fun _ => rfl

theorem switchStream_setup (mov : MOVContext) (idx : CodecType) :
    (mov.switchStream idx).setup = mov.setup := by
  have hstart :=
    setTrack_setup (mov.store (.stco, idx) (UInt32.ofNat (mov.mdat_size + mov.mdat_start_pos))) idx
      (f := fun trk => { trk with stco_size := trk.stco_size + 1 }) fun _ => rfl
  unfold MOVContext.switchStream
  rw [wrap_setup]
  split
  · exact hstart
  · rename_i last _
    have hend :=
      endChunk_setup
        ((mov.store (.stco, idx) (UInt32.ofNat (mov.mdat_size + mov.mdat_start_pos))).setTrack idx
          fun trk => { trk with stco_size := trk.stco_size + 1 }) last
    exact (wrap_setup _ _).trans (hend.trans hstart)

theorem countPacket_setup (mov : MOVContext) (idx : CodecType) (size : Nat) :
    (mov.countPacket idx size).setup = mov.setup := by
  have hcount : ∀ a : MOVContext, (a.countSample idx size).setup = a.setup := by
    intro a
    unfold MOVContext.countSample
    rw [wrap_setup]
    exact setTrack_setup ({ a with last_stream_idx := some idx }.store (.stsz, idx)
      (UInt32.ofNat size)) idx
      (f := fun trk => { trk with stsz_size := trk.stsz_size + 1 }) fun _ => rfl
  unfold MOVContext.countPacket
  rw [hcount]
  split
  · exact switchStream_setup mov idx
  · rfl

theorem countDuration_setup (mov : MOVContext) (duration : Int) :
    (mov.countDuration duration).setup = mov.setup := by
  unfold MOVContext.countDuration
  rw [wrap_setup]
  exact setTrack_setup _ _ fun _ => rfl

theorem countKeyFrame_setup (mov : MOVContext) (b : UInt8) :
    (mov.countKeyFrame b).setup = mov.setup := by
  unfold MOVContext.countKeyFrame
  split
  · exact setTrack_setup _ _ fun _ => rfl
  · rfl

/-! ## the words of a table -/

/-- the audio stream has no `stts` table -/
def Table.Real (k : Table) : Prop := k ≠ (.stts, .audio)

structure Filled (mov : MOVContext) (k : Table) (vals : List UInt32) : Prop where
  room : vals.length ≤ cacheSize k.1
  words : ∀ i (h : i < vals.length), mov.mov_inf_cache (cacheStart k + i) = vals[i]
  ptr : mov.cache_write_ptr k = cacheStart k + vals.length ∨
    vals.length = cacheSize k.1 ∧ mov.cache_write_ptr k = cacheStart k

/-- every table is filled -/
def Areas (mov : MOVContext) (V : Table → List UInt32) : Prop :=
  ∀ k : Table, k.Real → Filled mov k (V k)

/-- two areas have no word in common -/
theorem areas_disjoint {k k' : Table} (hk : k.Real) (hk' : k'.Real) (hne : k ≠ k') {i j : Nat}
    (hi : i < cacheSize k.1) (hj : j < cacheSize k'.1) : cacheStart k + i ≠ cacheStart k' + j := by
  obtain ⟨id, t⟩ := k
  obtain ⟨id', t'⟩ := k'
  cases id <;> cases t <;> cases id' <;> cases t' <;>
    first
      | exact absurd rfl hne
      | exact absurd rfl hk
      | exact absurd rfl hk'
      | (simp only [cacheStart, cacheSize] at *; omega)

theorem Areas.store {mov : MOVContext} {V : Table → List UInt32} (h : Areas mov V) {k : Table}
    (hk : k.Real) (hroom : (V k).length < cacheSize k.1) (v : UInt32) :
    Areas (mov.store k v) (Function.update V k (V k ++ [v])) := by
  have hf := h k hk
  have hptr : mov.cache_write_ptr k = cacheStart k + (V k).length := by
    rcases hf.ptr with hp | ⟨hp, -⟩
    · exact hp
    · omega
  intro k' hk'
  by_cases hkk : k' = k
  · subst hkk
    rw [Function.update_self]
    refine ⟨?_, ?_, Or.inl ?_⟩
    · rw [List.length_append]
      exact hroom
    · intro i hi
      show Function.update mov.mov_inf_cache (mov.cache_write_ptr k') v (cacheStart k' + i) = _
      rw [hptr]
      by_cases hlast : i = (V k').length
      · subst hlast
        rw [Function.update_self, List.getElem_concat_length rfl]
      · have hlt : i < (V k').length := by
          rw [List.length_append, List.length_singleton] at hi
          omega
        rw [Function.update_of_ne (by omega), List.getElem_append_left hlt]
        exact hf.words i hlt
    · show Function.update mov.cache_write_ptr k' (mov.cache_write_ptr k' + 1) k' = _
      rw [Function.update_self, hptr, List.length_append]
      rfl
  · have hf' := h k' hk'
    rw [Function.update_of_ne hkk]
    refine ⟨hf'.room, ?_, ?_⟩
    · intro i hi
      show Function.update mov.mov_inf_cache (mov.cache_write_ptr k) v (cacheStart k' + i) = _
      rw [hptr, Function.update_of_ne
        (areas_disjoint hk' hk hkk (lt_of_lt_of_le hi hf'.room) hroom)]
      exact hf'.words i hi
    · show Function.update mov.cache_write_ptr k (mov.cache_write_ptr k + 1) k' = _ ∨ _ ∧
        Function.update mov.cache_write_ptr k (mov.cache_write_ptr k + 1) k' = _
      rw [Function.update_of_ne hkk]
      exact hf'.ptr

theorem Areas.wrap {mov : MOVContext} {V : Table → List UInt32} (h : Areas mov V) {k : Table}
    (hk : k.Real) (hstart : mov.cache_start_ptr = cacheStart)
    (hend : mov.cache_end_ptr = cacheEnd) : Areas (mov.wrap k) V := by
  unfold MOVContext.wrap
  by_cases hpast : mov.cache_write_ptr k > mov.cache_end_ptr k
  · rw [if_pos hpast]
    intro k' hk'
    have hf := h k' hk'
    by_cases hkk : k' = k
    · subst hkk
      refine ⟨hf.room, hf.words, Or.inr ?_⟩
      have hroom := hf.room
      have hlast : cacheEnd k' = cacheStart k' + (cacheSize k'.1 - 1) := by
        obtain ⟨id, t⟩ := k'
        cases id <;> cases t <;> first | rfl | exact absurd rfl hk
      have hfull : (V k').length = cacheSize k'.1 := by
        rw [hend, hlast] at hpast
        rcases hf.ptr with hp | ⟨hp, hp'⟩
        · omega
        · omega
      refine ⟨hfull, ?_⟩
      show Function.update mov.cache_write_ptr k' (mov.cache_start_ptr k') k' = _
      rw [Function.update_self, hstart]
    · refine ⟨hf.room, hf.words, ?_⟩
      show Function.update mov.cache_write_ptr k (mov.cache_start_ptr k) k' = _ ∨ _ ∧
        Function.update mov.cache_write_ptr k (mov.cache_start_ptr k) k' = _
      rw [Function.update_of_ne hkk]
      exact hf.ptr
  · rw [if_neg hpast]
    exact h

/-- the rest of the context does not matter -/
theorem Areas.congr {mov mov' : MOVContext} {V : Table → List UInt32} (h : Areas mov V)
    (hmem : mov'.mov_inf_cache = mov.mov_inf_cache)
    (hptr : mov'.cache_write_ptr = mov.cache_write_ptr) :
    Areas mov' V := by
  intro k hk
  have hf := h k hk
  exact ⟨hf.room, fun i hi => by rw [hmem]; exact hf.words i hi, by rw [hptr]; exact hf.ptr⟩

/-- the reads of a filled table return its words -/
theorem Filled.entries {mov : MOVContext} {k : Table} {vals : List UInt32} (h : Filled mov k vals)
    (hread : mov.cache_read_ptr k = cacheStart k) : mov.entries k vals.length = vals := by
  unfold MOVContext.entries
  rw [hread]
  exact map_range_eq fun i hi => h.words i hi

/-! ## the counters -/

@[simp] theorem store_tracks (mov : MOVContext) (k : Table) (v : UInt32) :
    (mov.store k v).tracks = mov.tracks := rfl

@[simp] theorem wrap_tracks (mov : MOVContext) (k : Table) : (mov.wrap k).tracks = mov.tracks := by
  unfold MOVContext.wrap
  split <;> rfl

@[simp] theorem setTrack_tracks (mov : MOVContext) (t : CodecType) (f : MOVTrack → MOVTrack)
    (u : CodecType) :
    (mov.setTrack t f).tracks u = if u = t then f (mov.tracks t) else mov.tracks u :=
  Function.update_apply _ _ _ _

@[simp] theorem wrap_last (mov : MOVContext) (k : Table) :
    (mov.wrap k).last_stream_idx = mov.last_stream_idx := by
  unfold MOVContext.wrap
  split <;> rfl

@[simp] theorem wrap_cnt (mov : MOVContext) (k : Table) : (mov.wrap k).stsc_cnt = mov.stsc_cnt := by
  unfold MOVContext.wrap
  split <;> rfl

@[simp] theorem wrap_mdat (mov : MOVContext) (k : Table) :
    (mov.wrap k).mdat_size = mov.mdat_size := by
  unfold MOVContext.wrap
  split <;> rfl

@[simp] theorem store_mdat (mov : MOVContext) (k : Table) (v : UInt32) :
    (mov.store k v).mdat_size = mov.mdat_size := rfl

@[simp] theorem setTrack_mdat (mov : MOVContext) (t : CodecType) (f : MOVTrack → MOVTrack) :
    (mov.setTrack t f).mdat_size = mov.mdat_size := rfl

/-- the counters of a context are those of a layout -/
structure Counted (mov : MOVContext) (x : Layout CodecType) : Prop where
  last : mov.last_stream_idx = x.current.map Prod.fst
  stsc_cnt : ∀ u c, x.current = some (u, c) → mov.stsc_cnt = c.samples.length
  stsz : ∀ t, (mov.tracks t).stsz_size = (samplesOf (x.chunks t)).length
  stco : ∀ t, (mov.tracks t).stco_size = (x.chunks t).length
  stsc : ∀ t, (mov.tracks t).stsc_size = (x.closed t).length

/-- the counters of the video track that have no chunks -/
structure Timed (mov : MOVContext) : Prop where
  stts : (mov.tracks .video).stts_size = (mov.tracks .video).stsz_size
  key : (mov.tracks .video).keyFrame_num ≤ (mov.tracks .video).stsz_size

/-- a stream switch counts a chunk of the new stream, and the end of one of the old stream -/
theorem switch_counts (mov : MOVContext) (idx t : CodecType) :
    (mov.switchStream idx).tracks t = { mov.tracks t with
      stco_size := (mov.tracks t).stco_size + if idx = t then 1 else 0
      stsc_size := (mov.tracks t).stsc_size + if mov.last_stream_idx = some t then 1 else 0 } := by
  unfold MOVContext.switchStream MOVContext.endChunk
  rw [wrap_tracks]
  dsimp only
  rcases hlast : mov.last_stream_idx with _ | last
  · have hnone :
        ((mov.store (.stco, idx) (UInt32.ofNat (mov.mdat_size + mov.mdat_start_pos))).setTrack idx
            fun trk => { trk with stco_size := trk.stco_size + 1 }).last_stream_idx = none := hlast
    split
    · rw [setTrack_tracks, store_tracks]
      cases idx <;> cases t <;> rfl
    · rename_i l hl
      rw [hnone] at hl
      cases hl
  · have hsome :
        ((mov.store (.stco, idx) (UInt32.ofNat (mov.mdat_size + mov.mdat_start_pos))).setTrack idx
            fun trk => { trk with stco_size := trk.stco_size + 1 }).last_stream_idx = some last :=
      hlast
    split
    · rename_i hl
      rw [hsome] at hl
      cases hl
    · rename_i l hl
      rw [hsome] at hl
      cases hl
      rw [wrap_tracks, setTrack_tracks, store_tracks, setTrack_tracks, setTrack_tracks,
        store_tracks]
      cases idx <;> cases t <;> cases last <;> rfl

theorem switch_last (mov : MOVContext) (idx : CodecType) :
    (mov.switchStream idx).last_stream_idx = mov.last_stream_idx ∧
      (mov.switchStream idx).stsc_cnt = 0 := by
  unfold MOVContext.switchStream
  rw [wrap_last, wrap_cnt]
  refine ⟨?_, rfl⟩
  dsimp only
  split
  · rfl
  · rw [wrap_last]
    rfl

theorem countSample_tracks (mov : MOVContext) (idx : CodecType) (size : Nat) (t : CodecType) :
    (mov.countSample idx size).tracks t = { mov.tracks t with
      stsz_size := (mov.tracks t).stsz_size + if idx = t then 1 else 0 } := by
  unfold MOVContext.countSample
  rw [wrap_tracks]
  dsimp only
  rw [setTrack_tracks, store_tracks]
  cases idx <;> cases t <;> rfl

theorem switches_iff {mov : MOVContext} {x : Layout CodecType} (h : Counted mov x)
    (idx : CodecType) :
    some idx ≠ mov.last_stream_idx ↔ x.Switches idx := by
  unfold Layout.Switches
  rw [h.last]
  exact ne_comm

theorem countPacket_tracks {mov : MOVContext} {x : Layout CodecType} (h : Counted mov x)
    (idx : CodecType) (size : Nat) (t : CodecType) :
    (mov.countPacket idx size).tracks t = { mov.tracks t with
      stsz_size := (mov.tracks t).stsz_size + if idx = t then 1 else 0
      stco_size := (mov.tracks t).stco_size + if idx = t ∧ x.Switches t then 1 else 0
      stsc_size :=
      (mov.tracks t).stsc_size + if x.Switches idx ∧ mov.last_stream_idx = some t then 1
          else 0 } := by
  unfold MOVContext.countPacket
  rw [countSample_tracks]
  by_cases hs : x.Switches idx
  · rw [if_pos ((switches_iff h idx).mpr hs), switch_counts]
    have hstco : (idx = t ∧ x.Switches t) = (idx = t) :=
      propext ⟨fun hc => hc.1, fun hc => ⟨hc, hc ▸ hs⟩⟩
    have hstsc : (x.Switches idx ∧ mov.last_stream_idx = some t) = (mov.last_stream_idx = some t) :=
      propext ⟨fun hc => hc.2, fun hc => ⟨hs, hc⟩⟩
    simp only [hstco, hstsc]
  · have hstco : ¬ (idx = t ∧ x.Switches t) := by
      rintro ⟨rfl, hc⟩
      exact hs hc
    have hstsc : ¬ (x.Switches idx ∧ mov.last_stream_idx = some t) := fun hc => hs hc.1
    rw [if_neg fun hc => hs ((switches_iff h idx).mp hc), if_neg hstco, if_neg hstsc]
    rfl

theorem ended_length (x : Layout CodecType) (idx t : CodecType) :
    (x.ended idx t).length = if x.Switches idx ∧ x.current.map Prod.fst = some t then 1 else 0 := by
  unfold Layout.ended
  by_cases hit : idx = t
  · subst hit
    rw [if_pos rfl, if_neg fun hc => hc.1 hc.2]
    rfl
  · rw [if_neg hit]
    by_cases ht : x.Switches t
    · rw [open_switches ht, if_neg fun hc => ht hc.2]
      rfl
    · have hlast : x.current.map Prod.fst = some t := not_not.mp ht
      have hs : x.Switches idx := fun hc => hit (Option.some.inj (hc.symm.trans hlast))
      obtain ⟨⟨u, c⟩, hcur, hu⟩ := Option.map_eq_some_iff.mp hlast
      rw [if_pos ⟨hs, hlast⟩, hcur]
      exact congrArg List.length (if_pos hu)

/-- **One packet**: the counters are those of the layout with one more sample. -/
theorem Counted.packet {mov : MOVContext} {x : Layout CodecType} (h : Counted mov x) (base : Nat)
    (idx : CodecType) (b : Bytes) (size : Nat) :
    Counted (mov.countPacket idx size) (x.add base (idx, b)) := by
  refine ⟨?_, ?_, ?_, ?_, ?_⟩
  · rw [add_current]
    unfold MOVContext.countPacket MOVContext.countSample
    rw [wrap_last]
    rfl
  · intro u c hc
    have hcnt : (mov.countPacket idx size).stsc_cnt
        = (if some idx ≠ mov.last_stream_idx then mov.switchStream idx else mov).stsc_cnt + 1 := by
      unfold MOVContext.countPacket MOVContext.countSample
      rw [wrap_cnt]
      rfl
    rw [hcnt]
    by_cases hs : x.Switches idx
    · rw [if_pos ((switches_iff h idx).mpr hs), (switch_last mov idx).2]
      rw [add_switch hs] at hc
      cases hc
      rfl
    · obtain ⟨d, hd, hadd⟩ := add_stay base (e := (idx, b)) hs
      rw [if_neg fun hn => hs ((switches_iff h idx).mp hn), h.stsc_cnt _ _ hd]
      rw [hadd] at hc
      cases hc
      rw [List.length_append]
      rfl
  · intro t
    rw [countPacket_tracks h, add_samples, List.length_append, h.stsz]
    split <;> rfl
  · intro t
    rw [countPacket_tracks h, add_count, h.stco]
  · intro t
    rw [countPacket_tracks h, add_closed, List.length_append, ended_length, h.stsc, h.last]

end Pluto.Mp4

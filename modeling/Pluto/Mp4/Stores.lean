import Pluto.Mp4.Session

/-!
# The table stores of a session

* `packetStores`          the words that one packet stores, where each of them goes, in order;
* `movWritePacket_stores` they are all the words that the packet changes;
* `Within`                the write pointers stand in their own areas, behind each store at most one
                          word past the end, until the test of the pointer (`Within.store`,
                          `Within.wrap`);
* `stores_inside_iff`     the key-frame table has no such test, and 32768 words.
-/

namespace Pluto.Mp4
open Octets

/-- `KEYFRAME_CACHE_SIZE`, in bytes -/
def keyframeCacheSize : Nat := 8 * 1024 * 16

/-! ## the stores of a packet -/

/-- `*ptr = v` through the write pointer of a table, or `cache_keyframe_ptr[index] = v` -/
inductive TableStore where
  | word (k : Table) (ptr : Nat) (v : UInt32)
  | keyframe (index : Nat) (v : UInt32)
deriving DecidableEq

/-- the words behind the two allocations -/
def MOVContext.memory (mov : MOVContext) : (Nat → UInt32) × (Nat → UInt32) :=
  (mov.mov_inf_cache, mov.cache_keyframe)

def TableStore.apply (mem : (Nat → UInt32) × (Nat → UInt32)) :
    TableStore → (Nat → UInt32) × (Nat → UInt32)
  | .word _ ptr v => (Function.update mem.1 ptr v, mem.2)
  | .keyframe index v => (mem.1, Function.update mem.2 index v)

/-- the store goes into the area of its own table -/
def TableStore.Inside : TableStore → Prop
  | .word k ptr _ => k.Real ∧ cacheStart k ≤ ptr ∧ ptr ≤ cacheEnd k
  | .keyframe index _ => index < keyframeCacheSize / 4

/-- where `MOVContext.store` stores -/
def MOVContext.target (mov : MOVContext) (k : Table) (v : UInt32) : TableStore :=
  .word k (mov.cache_write_ptr k) v

def MOVContext.endStores (mov : MOVContext) (last : CodecType) : List TableStore :=
  [mov.target (.stsc, last) (UInt32.ofNat mov.stsc_cnt)]

def MOVContext.switchStores (mov : MOVContext) (idx : CodecType) : List TableStore :=
  mov.target (.stco, idx) (UInt32.ofNat (mov.mdat_size + mov.mdat_start_pos))
    :: mov.last_stream_idx.elim [] mov.endStores

def MOVContext.countStores (mov : MOVContext) (idx : CodecType) (size : Nat) : List TableStore :=
  if some idx ≠ mov.last_stream_idx then
    mov.switchStores idx ++ [(mov.switchStream idx).target (.stsz, idx) (UInt32.ofNat size)]
  else [mov.target (.stsz, idx) (UInt32.ofNat size)]

def MOVContext.keyStores (mov : MOVContext) (b : UInt8) : List TableStore :=
  if b &&& 0x1f = 5 then
    [.keyframe (mov.tracks .video).keyFrame_num (UInt32.ofNat (mov.tracks .video).stts_size)]
      else []

/-- the stores of a packet of stream `t` -/
def MOVContext.recordStores (mov : MOVContext) (streams : CodecType → AVCodecContext)
    (t : CodecType) (m : Mem) (pkt : AVPacket) : List TableStore :=
  let size := pkt.size0 + pkt.size1
  let stores := mov.countStores t size
  let mov := mov.countPacket t size
  match t with
  | .audio => stores
  | .video =>
    let stores := stores ++ [mov.target (.stts, .video) (UInt32.ofInt pkt.duration)]
    let mov := mov.countDuration pkt.duration
    if (streams .video).codec_id = codecIdH264 then stores ++ mov.keyStores (strmByte m pkt)
      else stores

def packetStores (ctx : AVFormatContext) (m : Mem) (pkt : AVPacket) : List TableStore :=
  if pkt.stream_idx = -1 then ctx.priv_data.last_stream_idx.elim [] ctx.priv_data.endStores
  else (codecType pkt.stream_idx).elim [] fun t => ctx.priv_data.recordStores ctx.streams t m pkt

/-! ## nothing else is stored -/

@[simp] theorem wrap_memory (mov : MOVContext) (k : Table) : (mov.wrap k).memory = mov.memory := by
  unfold MOVContext.wrap
  split <;> rfl

theorem store_ptr_of_ne (mov : MOVContext) {k k' : Table} (h : k' ≠ k) (v : UInt32) :
    (mov.store k v).cache_write_ptr k' = mov.cache_write_ptr k' :=
  Function.update_of_ne h ..

theorem endChunk_memory (mov : MOVContext) (last : CodecType) :
    (mov.endChunk last).memory = (mov.endStores last).foldl TableStore.apply mov.memory := rfl

/-- the start of a chunk of stream `idx` -/
def MOVContext.startChunk (mov : MOVContext) (idx : CodecType) : MOVContext :=
  (mov.store (.stco, idx) (UInt32.ofNat (mov.mdat_size + mov.mdat_start_pos))).setTrack idx
      fun trk => { trk with stco_size := trk.stco_size + 1 }

/-- a stream switch starts a chunk and, behind the first packet, ends one -/
theorem switchStream_eq (mov : MOVContext) (idx : CodecType) :
    mov.switchStream idx = { (mov.last_stream_idx.elim (mov.startChunk idx) fun last =>
      ((mov.startChunk idx).endChunk last).wrap (.stsc, last)) with stsc_cnt := 0 }.wrap
          (.stco, idx) := by
  obtain ⟨_, _, _, _, _, _, _, _, _, _, _, _, _, _, _, _, _, last, _, _⟩ := mov
  cases last with
  | none => rfl
  | some last => rfl

theorem switchStream_memory (mov : MOVContext) (idx : CodecType) :
    (mov.switchStream idx).memory = (mov.switchStores idx).foldl TableStore.apply mov.memory := by
  have hne : ∀ last, ((ChunkId.stsc, last) : Table) ≠ (.stco, idx) :=
    fun last h => nomatch congrArg Prod.fst h
  rw [switchStream_eq, wrap_memory, MOVContext.switchStores, List.foldl_cons]
  cases mov.last_stream_idx with
  | none => rfl
  | some last =>
    show (((mov.startChunk idx).endChunk last).wrap (.stsc, last)).memory = _
    rw [wrap_memory, endChunk_memory]
    have htarget : (mov.startChunk idx).endStores last = mov.endStores last := by
      have hptr :=
        store_ptr_of_ne mov (hne last) (UInt32.ofNat (mov.mdat_size + mov.mdat_start_pos))
      unfold MOVContext.endStores MOVContext.target
      rw [← hptr]
      rfl
    rw [htarget]
    rfl

theorem countPacket_memory (mov : MOVContext) (idx : CodecType) (size : Nat) :
    (mov.countPacket idx size).memory
      = (mov.countStores idx size).foldl TableStore.apply mov.memory := by
  have hcount : ∀ a : MOVContext, (a.countSample idx size).memory
      = (a.target (.stsz, idx) (UInt32.ofNat size)).apply a.memory := by
    intro a
    unfold MOVContext.countSample
    rw [wrap_memory]
    rfl
  unfold MOVContext.countPacket MOVContext.countStores
  rw [hcount]
  split
  · rw [List.foldl_append, ← switchStream_memory]
    rfl
  · rfl

theorem countDuration_memory (mov : MOVContext) (duration : Int) :
    (mov.countDuration duration).memory
      = (mov.target (.stts, .video) (UInt32.ofInt duration)).apply mov.memory := by
  unfold MOVContext.countDuration
  rw [wrap_memory]
  rfl

theorem countKeyFrame_memory (mov : MOVContext) (b : UInt8) :
    (mov.countKeyFrame b).memory = (mov.keyStores b).foldl TableStore.apply mov.memory := by
  unfold MOVContext.countKeyFrame MOVContext.keyStores
  split <;> rfl

theorem record_memory (mov : MOVContext) (streams : CodecType → AVCodecContext) (t : CodecType)
    (m : Mem) (pkt : AVPacket) :
    (mov.record streams t m pkt).memory
      = (mov.recordStores streams t m pkt).foldl TableStore.apply mov.memory := by
  have hcount := countPacket_memory mov t (pkt.size0 + pkt.size1)
  unfold MOVContext.record MOVContext.recordStores
  cases t with
  | audio => exact hcount
  | video =>
    have hduration :=
      countDuration_memory (mov.countPacket .video (pkt.size0 + pkt.size1)) pkt.duration
    dsimp only
    split
    · show ((_ : MOVContext).countKeyFrame (strmByte m pkt)).memory = _
      rw [countKeyFrame_memory, List.foldl_append, List.foldl_append, ← hcount, hduration]
      rfl
    · rw [List.foldl_append, ← hcount, hduration]
      rfl

/-- **What a packet stores** in the tables is what `packetStores` lists. -/
theorem movWritePacket_stores (ctx : AVFormatContext) (m : Mem) (pkt : AVPacket)
    {r : Int × List CacheWrite × AVFormatContext} (h : movWritePacket ctx m pkt = some r) :
    r.2.2.priv_data.memory = (packetStores ctx m pkt).foldl TableStore.apply
      ctx.priv_data.memory := by
  unfold packetStores
  by_cases hlast : pkt.stream_idx = -1
  · rw [if_pos hlast]
    unfold movWritePacket at h
    dsimp only at h
    rw [if_pos hlast] at h
    obtain ⟨last, hl, rfl⟩ := Option.map_eq_some_iff.mp h
    rw [hl]
    exact endChunk_memory ctx.priv_data last
  · rw [if_neg hlast]
    cases ht : codecType pkt.stream_idx with
    | none =>
      unfold movWritePacket at h
      dsimp only at h
      rw [if_neg hlast, ht] at h
      cases h
    | some t =>
      obtain ⟨code, heq⟩ := movWritePacket_eq ctx m ht
      rw [heq] at h
      cases h
      exact record_memory ctx.priv_data ctx.streams t m pkt

/-! ## the write pointers -/

/-- every write pointer stands in its own area; those of `late` may stand one word past the end -/
def Within (mov : MOVContext) (late : List Table) : Prop :=
  ∀ k : Table, k.Real → cacheStart k ≤ mov.cache_write_ptr k ∧
    mov.cache_write_ptr k ≤ cacheEnd k + if k ∈ late then 1 else 0

section
variable {mov : MOVContext} {k : Table} {late : List Table}

theorem Within.target (h : Within mov late) (hk : k.Real) (hfree : k ∉ late) (v : UInt32) :
    (mov.target k v).Inside := by
  obtain ⟨hstart, hend⟩ := h k hk
  rw [if_neg hfree] at hend
  exact ⟨hk, hstart, hend⟩

theorem Within.store (h : Within mov late) (hfree : k ∉ late) (v : UInt32) :
    Within (mov.store k v) (k :: late) := by
  intro k' hk'
  obtain ⟨hstart, hend⟩ := h k' hk'
  by_cases hkk : k' = k
  · subst hkk
    have hptr : (mov.store k' v).cache_write_ptr k' = mov.cache_write_ptr k' + 1 :=
      Function.update_self ..
    rw [if_neg hfree] at hend
    rw [hptr, if_pos List.mem_cons_self]
    omega
  · rw [store_ptr_of_ne mov hkk]
    simp only [List.mem_cons, hkk, false_or]
    exact ⟨hstart, hend⟩

theorem Within.wrap (h : Within mov (k :: late)) (hp : Placed mov) : Within (mov.wrap k) late := by
  intro k' hk'
  obtain ⟨hstart, hend⟩ := h k' hk'
  have hle : cacheStart k' ≤ cacheEnd k' := by
    obtain ⟨id, t⟩ := k'
    cases id <;> cases t <;> simp [cacheStart, cacheEnd]
  unfold MOVContext.wrap
  by_cases hkk : k' = k
  · subst hkk
    split
    · have hback : Function.update mov.cache_write_ptr k' (mov.cache_start_ptr k') k'
          = cacheStart k' := by
        rw [Function.update_self, hp.start]
      dsimp only
      rw [hback]
      exact ⟨le_rfl, hle.trans (Nat.le_add_right _ _)⟩
    · rename_i hpast
      rw [hp.stop] at hpast
      exact ⟨hstart, (Nat.le_of_not_gt hpast).trans (Nat.le_add_right _ _)⟩
  · simp only [List.mem_cons, hkk, false_or] at hend
    split
    · dsimp only
      rw [Function.update_of_ne hkk]
      exact ⟨hstart, hend⟩
    · exact ⟨hstart, hend⟩

theorem Within.congr {mov' : MOVContext} (h : Within mov late)
    (hptr : mov'.cache_write_ptr = mov.cache_write_ptr) :
    Within mov' late := by
  intro k hk
  rw [hptr]
  exact h k hk

end

section
variable {mov : MOVContext}

theorem Within.endStores (h : Within mov []) (last : CodecType) :
    ∀ st ∈ mov.endStores last, st.Inside := by
  intro st hst
  rw [List.mem_singleton.mp hst]
  exact h.target (chunk_real .stsc last (by decide)) List.not_mem_nil _

theorem Within.switchStores (h : Within mov []) (idx : CodecType) :
    ∀ st ∈ mov.switchStores idx, st.Inside := by
  intro st hst
  rcases List.mem_cons.mp hst with rfl | hst
  · exact h.target (chunk_real .stco idx (by decide)) List.not_mem_nil _
  · cases hlast : mov.last_stream_idx with
    | none =>
      rw [hlast] at hst
      cases hst
    | some last =>
      rw [hlast] at hst
      exact h.endStores last st hst

/-- both pointers of a stream switch are back in their areas at its end -/
theorem Within.switchStream (h : Within mov []) (hp : Placed mov) (idx : CodecType) :
    Within (mov.switchStream idx) [] := by
  have hstart : Within (mov.startChunk idx) [(.stco, idx)] :=
    (h.store List.not_mem_nil (UInt32.ofNat (mov.mdat_size + mov.mdat_start_pos))).congr rfl
  have hplaced : Placed (mov.startChunk idx) := ⟨hp.start, hp.stop, hp.next⟩
  rw [switchStream_eq]
  cases mov.last_stream_idx with
  | none => exact Within.wrap (hstart.congr rfl) ⟨hplaced.start, hplaced.stop, hplaced.next⟩
  | some last =>
    have hfree : ((.stsc, last) : Table) ∉ [((.stco, idx) : Table)] := by
      intro hmem
      exact nomatch congrArg Prod.fst (List.mem_singleton.mp hmem)
    have hend : Within ((mov.startChunk idx).endChunk last) [(.stsc, last), (.stco, idx)] :=
      (hstart.store hfree (UInt32.ofNat (mov.startChunk idx).stsc_cnt)).congr rfl
    have hended := hplaced.congr (endChunk_setup (mov.startChunk idx) last)
    have hback := hend.wrap hended
    have hwrapped := hended.congr (wrap_setup ((mov.startChunk idx).endChunk last) (.stsc, last))
    exact Within.wrap (hback.congr rfl) ⟨hwrapped.start, hwrapped.stop, hwrapped.next⟩

theorem Within.countSample (h : Within mov []) (hp : Placed mov) (idx : CodecType) (size : Nat) :
    Within (mov.countSample idx size) [] := by
  have hlast : Within { mov with last_stream_idx := some idx } [] := h.congr rfl
  have hstore := hlast.store (k := (.stsz, idx)) List.not_mem_nil (UInt32.ofNat size)
  unfold MOVContext.countSample
  exact Within.wrap (hstore.congr rfl) ⟨hp.start, hp.stop, hp.next⟩

theorem Within.countPacket (h : Within mov []) (hp : Placed mov) (idx : CodecType) (size : Nat) :
    Within (mov.countPacket idx size) [] ∧ ∀ st ∈ mov.countStores idx size, st.Inside := by
  have hreal := chunk_real .stsz idx (by decide)
  unfold MOVContext.countPacket MOVContext.countStores
  split
  · have hswitch := h.switchStream hp idx
    refine ⟨hswitch.countSample (hp.congr (switchStream_setup mov idx)) idx size, ?_⟩
    intro st hst
    rcases List.mem_append.mp hst with hst | hst
    · exact h.switchStores idx st hst
    · rw [List.mem_singleton.mp hst]
      exact hswitch.target hreal List.not_mem_nil _
  · refine ⟨h.countSample hp idx size, ?_⟩
    intro st hst
    rw [List.mem_singleton.mp hst]
    exact h.target hreal List.not_mem_nil _

theorem Within.countDuration (h : Within mov []) (hp : Placed mov) (duration : Int) :
    Within (mov.countDuration duration) [] := by
  have hstore := h.store (k := (.stts, .video)) List.not_mem_nil (UInt32.ofInt duration)
  unfold MOVContext.countDuration
  exact Within.wrap (hstore.congr rfl) ⟨hp.start, hp.stop, hp.next⟩

theorem countKeyFrame_ptr (mov : MOVContext) (b : UInt8) :
    (mov.countKeyFrame b).cache_write_ptr = mov.cache_write_ptr := by
  unfold MOVContext.countKeyFrame
  split <;> rfl

theorem Within.record (h : Within mov []) (hp : Placed mov) (streams : CodecType → AVCodecContext)
    (t : CodecType) (m : Mem) (pkt : AVPacket) : Within (mov.record streams t m pkt) [] := by
  obtain ⟨hcount, -⟩ := h.countPacket hp t (pkt.size0 + pkt.size1)
  have hplaced := hp.congr (countPacket_setup mov t (pkt.size0 + pkt.size1))
  unfold MOVContext.record
  cases t with
  | audio => exact hcount.congr rfl
  | video =>
    have hduration := hcount.countDuration hplaced pkt.duration
    dsimp only
    split
    · exact hduration.congr (countKeyFrame_ptr _ _)
    · exact hduration

end

/-! ## the key-frame table -/

/-- a packet that is entered in the key-frame table -/
def KeyFrame (streams : CodecType → AVCodecContext) (c : Mem × AVPacket) : Prop :=
  codecType c.2.stream_idx = some .video ∧ (streams .video).codec_id = codecIdH264 ∧
    strmByte c.1 c.2 &&& 0x1f = 5

instance (streams : CodecType → AVCodecContext) : DecidablePred (KeyFrame streams) := fun c =>
  inferInstanceAs (Decidable (codecType c.2.stream_idx = some .video ∧ _ ∧ _))

theorem keyFrame_iff (streams : CodecType → AVCodecContext) {t : CodecType} {c : Mem × AVPacket}
    (ht : codecType c.2.stream_idx = some t) :
    KeyFrame streams c ↔ t = .video ∧ (streams .video).codec_id = codecIdH264 ∧
      strmByte c.1 c.2 &&& 0x1f = 5 := by
  unfold KeyFrame
  rw [ht, Option.some.injEq]

theorem countPacket_keys (mov : MOVContext) (idx : CodecType) (size : Nat) (t : CodecType) :
    ((mov.countPacket idx size).tracks t).keyFrame_num = (mov.tracks t).keyFrame_num := by
  unfold MOVContext.countPacket
  rw [countSample_tracks]
  split
  · rw [switch_counts]
  · rfl

theorem record_keys (mov : MOVContext) (streams : CodecType → AVCodecContext) {t : CodecType}
    {c : Mem × AVPacket} (ht : codecType c.2.stream_idx = some t) :
    ((mov.record streams t c.1 c.2).tracks .video).keyFrame_num
      = (mov.tracks .video).keyFrame_num + if KeyFrame streams c then 1 else 0 := by
  have hcount := countPacket_keys mov t (c.2.size0 + c.2.size1) .video
  simp only [keyFrame_iff streams ht]
  unfold MOVContext.record
  cases t with
  | audio => exact hcount
  | video =>
    have hduration :
        (((mov.countPacket .video (c.2.size0 + c.2.size1)).countDuration c.2.duration).tracks
          .video).keyFrame_num
        = (mov.tracks .video).keyFrame_num := by
      rw [countDuration_tracks]
      exact hcount
    dsimp only
    split
    · rename_i hcodec
      dsimp only
      rw [countKeyFrame_tracks]
      dsimp only
      rw [hduration]
      simp only [hcodec, true_and]
    · rename_i hcodec
      rw [hduration, if_neg fun hkey => hcodec hkey.2.1, Nat.add_zero]

/-- the stores of a packet are inside, but for a key frame when the table is full -/
theorem recordStores_inside {mov : MOVContext} (h : Within mov []) (hp : Placed mov)
    (streams : CodecType → AVCodecContext) {t : CodecType} {c : Mem × AVPacket}
    (ht : codecType c.2.stream_idx = some t) :
    (∀ st ∈ mov.recordStores streams t c.1 c.2, st.Inside)
      ↔ (KeyFrame streams c → (mov.tracks .video).keyFrame_num < keyframeCacheSize / 4) := by
  obtain ⟨hwithin, hcount⟩ := h.countPacket hp t (c.2.size0 + c.2.size1)
  rw [keyFrame_iff streams ht]
  unfold MOVContext.recordStores
  cases t with
  | audio => exact ⟨fun _ hkey => (nomatch hkey.1), fun _ => hcount⟩
  | video =>
    have hduration : ∀ st ∈ mov.countStores .video (c.2.size0 + c.2.size1)
        ++ [(mov.countPacket .video (c.2.size0 + c.2.size1)).target (.stts, .video)
          (UInt32.ofInt c.2.duration)], st.Inside := by
      intro st hst
      rcases List.mem_append.mp hst with hst | hst
      · exact hcount st hst
      · rw [List.mem_singleton.mp hst]
        exact hwithin.target duration_real List.not_mem_nil _
    dsimp only
    split
    · rename_i hcodec
      have hkeys :
          (((mov.countPacket .video (c.2.size0 + c.2.size1)).countDuration c.2.duration).tracks
            .video).keyFrame_num
          = (mov.tracks .video).keyFrame_num := by
        rw [countDuration_tracks]
        exact countPacket_keys ..
      rw [List.forall_mem_append, and_iff_right hduration]
      unfold MOVContext.keyStores
      rw [hkeys]
      by_cases hb : strmByte c.1 c.2 &&& 0x1f = 5
      · rw [if_pos hb, List.forall_mem_singleton]
        exact ⟨fun hin _ => hin, fun hin => hin ⟨rfl, hcodec, hb⟩⟩
      · rw [if_neg hb]
        exact ⟨fun _ hkey => absurd hkey.2.2 hb, fun _ _ hst => nomatch hst⟩
    · rename_i hcodec
      exact ⟨fun _ hkey => absurd hkey.2.1 hcodec, fun _ => hduration⟩

/-! ## a session -/

/-- the stores of the packets of a session, and of the closing packet behind `SET_TOTAL_TIME` -/
def sessionStores (ctx : AVFormatContext) (total : Option Int) :
    List (Mem × AVPacket) → List TableStore
  | [] => packetStores (totalTime ctx total) (fun _ => 0) lastPacket
  | (m, pkt) :: calls =>
    packetStores ctx m pkt ++ (movWritePacket ctx m pkt).elim [] fun r =>
      sessionStores r.2.2 total calls

/-- the stores of a packet of one of the two streams -/
theorem packetStores_eq (ctx : AVFormatContext) (m : Mem) {pkt : AVPacket} {t : CodecType}
    (ht : codecType pkt.stream_idx = some t) :
    packetStores ctx m pkt = ctx.priv_data.recordStores ctx.streams t m pkt := by
  unfold packetStores
  rw [if_neg (stream_idx_ne_last ht), ht]
  rfl

theorem totalTime_memory (ctx : AVFormatContext) (total : Option Int) :
    (totalTime ctx total).priv_data.memory = ctx.priv_data.memory := by
  rw [totalTime_rest]
  rfl

/-- **The stores of a session** are all that it changes in the tables. -/
theorem sessionStores_memory (ctx : AVFormatContext) (total : Option Int)
    {calls : List (Mem × AVPacket)} {body : List CacheWrite × AVFormatContext}
    (hbody : packets ctx calls = some body) {closed : Int × List CacheWrite × AVFormatContext}
    (hclosed : movWritePacket (totalTime body.2 total) (fun _ => 0) lastPacket = some closed) :
    closed.2.2.priv_data.memory
      = (sessionStores ctx total calls).foldl TableStore.apply ctx.priv_data.memory := by
  induction calls generalizing ctx body with
  | nil =>
    cases hbody
    rw [movWritePacket_stores _ _ _ hclosed, totalTime_memory]
    rfl
  | cons c calls ih =>
    obtain ⟨r, hr, hrest⟩ := Option.bind_eq_some_iff.mp hbody
    obtain ⟨rest, hrun, rfl⟩ := Option.map_eq_some_iff.mp hrest
    rw [ih r.2.2 hrun hclosed, movWritePacket_stores ctx c.1 c.2 hr, ← List.foldl_append,
      sessionStores, hr]
    rfl

/-- the stores of a session are inside if and only if the key frames fit behind those of the
table -/
theorem sessionStores_inside (ctx : AVFormatContext) (hp : Placed ctx.priv_data)
    (h : Within ctx.priv_data []) {calls : List (Mem × AVPacket)} (hs : Streamed calls)
    (total : Option Int) :
    (∀ st ∈ sessionStores ctx total calls, st.Inside) ↔
      (calls.countP fun c => KeyFrame ctx.streams c) = 0 ∨
        (ctx.priv_data.tracks .video).keyFrame_num + (calls.countP fun c => KeyFrame ctx.streams c)
          ≤ keyframeCacheSize / 4 := by
  induction calls generalizing ctx with
  | nil =>
    refine ⟨fun _ => Or.inl rfl, fun _ st hst => ?_⟩
    have hwithin : Within (totalTime ctx total).priv_data [] := by
      rw [totalTime_rest]
      exact h.congr rfl
    unfold sessionStores packetStores at hst
    rw [if_pos (show lastPacket.stream_idx = -1 from rfl)] at hst
    cases hlast : (totalTime ctx total).priv_data.last_stream_idx with
    | none =>
      rw [hlast] at hst
      cases hst
    | some last =>
      rw [hlast] at hst
      exact hwithin.endStores last st hst
  | cons c calls ih =>
    obtain ⟨t, ht⟩ := hs.codec List.mem_cons_self
    obtain ⟨code, hone⟩ := movWritePacket_eq ctx c.1 ht
    have hnext := ih { ctx with priv_data := ctx.priv_data.record ctx.streams t c.1 c.2 }
      (hp.congr (record_setup ctx.priv_data ctx.streams t c.1 c.2))
        (h.record hp ctx.streams t c.1 c.2)
      fun d hd => hs d (List.mem_cons_of_mem c hd)
    have hfirst := recordStores_inside h hp ctx.streams ht
    have hkeys := record_keys ctx.priv_data ctx.streams ht
    unfold sessionStores
    rw [hone, packetStores_eq ctx c.1 ht, List.forall_mem_append, hfirst]
    dsimp only [Option.elim]
    rw [hnext, List.countP_cons]
    dsimp only
    rw [hkeys]
    by_cases hkey : KeyFrame ctx.streams c
    · simp only [hkey, if_true, decide_true, forall_const]
      omega
    · simp only [hkey, if_false, decide_false, false_implies, true_and, Bool.false_eq_true]
      omega

theorem Fresh.within {ctx : AVFormatContext} (h : Fresh ctx) : Within ctx.headed.priv_data [] := by
  intro k hk
  have hptr : ctx.headed.priv_data.cache_write_ptr k = cacheStart k := congrFun h.write k
  rw [hptr]
  refine ⟨le_rfl, ?_⟩
  obtain ⟨id, t⟩ := k
  cases id <;> cases t <;> simp [cacheStart, cacheEnd]

theorem Fresh.stores_inside {ctx : AVFormatContext} (h : Fresh ctx) {calls : List (Mem × AVPacket)}
    (hs : Streamed calls) (total : Option Int) :
    (∀ st ∈ sessionStores ctx.headed total calls, st.Inside) ↔
      (calls.countP fun c => KeyFrame ctx.streams c) ≤ keyframeCacheSize / 4 := by
  have hplaced : Placed ctx.headed.priv_data := ⟨h.placed.start, h.placed.stop, h.placed.next⟩
  have hkey := (h.headed_idle .video).key
  rw [sessionStores_inside ctx.headed hplaced h.within hs total, hkey, Nat.zero_add]
  exact ⟨fun hc => hc.elim (fun hzero => hzero.trans_le (Nat.zero_le _)) id, Or.inr⟩

/-- **Where the stores go.**  In every session, of any packets of the two streams, the words that
are stored in the tables are those of `sessionStores`.  Each of them goes into the area of its own
table if and only if at most 32768 packets are entered in the key-frame table. -/
theorem stores_inside_iff {ctx : AVFormatContext} (ho : Opened ctx) {calls : List (Mem × AVPacket)}
    (hs : Streamed calls) (hne : calls ≠ []) (total : Option Int) :
    (∃ body closed, packets ctx.headed calls = some body ∧
      movWritePacket (totalTime body.2 total) (fun _ => 0) lastPacket = some closed ∧
      closed.2.2.priv_data.memory
        = (sessionStores ctx.headed total calls).foldl TableStore.apply
          ctx.headed.priv_data.memory) ∧
      ((∀ st ∈ sessionStores ctx.headed total calls, st.Inside) ↔
        (calls.countP fun c => KeyFrame ctx.streams c) ≤ keyframeCacheSize / 4) := by
  obtain ⟨ws, mov, hbody, -⟩ := packets_some ctx.headed hs
  obtain ⟨u, c, -, hlast, -⟩ := packets_closed ho.fresh hs hne total hbody
  exact ⟨⟨_, _, hbody, hlast, sessionStores_memory ctx.headed total hbody hlast⟩,
    ho.fresh.stores_inside hs total⟩

/-- a key frame of nine bytes: start code, NAL header `0x65` -/
def keyCall : Mem × AVPacket := (fun a => [0, 0, 0, 1, 0x65].getD a.toNat 0, smallPacket 0 9 0)

/-- the key frame is entered in its table, under the number of its sample -/
theorem stores_inside_small :
    Streamed (keyCall :: smallCalls) ∧
      TableStore.keyframe 0 1 ∈ sessionStores smallContext.headed none (keyCall :: smallCalls) ∧
      ∀ st ∈ sessionStores smallContext.headed none (keyCall :: smallCalls), st.Inside := by
  have hs : Streamed (keyCall :: smallCalls) := by decide
  have hkeys : ((keyCall :: smallCalls).countP fun c => KeyFrame smallContext.streams c)
      ≤ keyframeCacheSize / 4 := by decide
  exact ⟨hs, by decide +kernel,
    (stores_inside_iff smallContext_opened hs (List.cons_ne_nil _ _) none).2.mpr hkeys⟩

/-- one key frame more than the table has words -/
theorem stores_outside : smallContext.mTrackCnt = 2 ∧ Streamed (List.replicate 32769 keyCall) ∧
    ¬ ∀ st ∈ sessionStores smallContext.headed none (List.replicate 32769 keyCall), st.Inside := by
  have hs : Streamed (List.replicate 32769 keyCall) := by
    intro c hc
    rw [List.eq_of_mem_replicate hc]
    exact Or.inl rfl
  have hkey : KeyFrame smallContext.streams keyCall := by decide
  refine ⟨rfl, hs, ?_⟩
  rw [smallContext_opened.fresh.stores_inside hs none, List.countP_replicate,
    if_pos (decide_eq_true hkey)]
  decide

end Pluto.Mp4

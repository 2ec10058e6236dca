import Pluto.Mp4.Stores

/-!
# The indices of a session

* `Handle`               what the driver keeps beside the context of the muxer;
* `IOCtrl`               the commands of `Mp4MuxerIOCtrl`;
* `sessionUses`          the indices into `streams`, `tracks` and the second dimension of the
                         tables, from `Mp4MuxerOpen` to `Mp4MuxerWriteTrailer`, in order;
* `indices_inside_iff`   when they are all `0` or `1`: `mTrackCnt` counts every `SET_TRACK_INFO`,
                         and the closing packet does not ask whether there was another.
-/

namespace Pluto.Mp4
open Octets

/-! ## the driver -/

/-- `CACHEMODE_SIMPLE` -/
def cachemodeSimple : Int := 1

/-- the context of the muxer, and the fields of `AVFormatContext` from which the cache writer is
made -/
structure Handle where
  ctx : AVFormatContext
  /-- there is a stream -/
  mpStream : Bool
  mFsCacheMode : Int
  mCacheSimpleSize : Int

/-- the commands; `created`: `stream_handle_create` returns a stream -/
inductive IOCtrl where
  | setTrackInfo (data : Option MediaTrackInfo)
  | setTotalTime (param : Int)
  | setFallocateLen (param : Int)
  | setStreamFd (created : Bool)
  | setStreamFilepath (created : Bool)
  | setTfcardState (param : Int)
  | setCacheSize (param : Int)
  | setCacheMode (param : Int)
  | setStreamCallback
  | unknown (cmd : Int)

def mp4MuxerIOCtrl (h : Handle) : IOCtrl → Int × Handle
  | .setTrackInfo none => (-1, h)
  | .setTrackInfo (some info) =>
    ((setTrackInfo h.ctx info).1, { h with ctx := (setTrackInfo h.ctx info).2 })
  | .setTotalTime param => (0, { h with ctx := setTotalTime h.ctx param })
  | .setStreamFd created => (if created then 0 else -1, { h with mpStream := created })
  | .setStreamFilepath created => (if created then 0 else -1, { h with mpStream := created })
  | .setCacheSize param => (0, { h with mCacheSimpleSize := param })
  | .setCacheMode param => (0, { h with mFsCacheMode := param })
  | .setFallocateLen _ => (0, h)
  | .setTfcardState _ => (0, h)
  | .setStreamCallback => (0, h)
  | .unknown _ => (0, h)

/-- the handle behind `Mp4MuxerOpen`, commands and codec-specific data -/
def prepared (ctx : AVFormatContext) (cmds : List IOCtrl) (csds : List (Block × CodecType)) :
    Handle :=
  let h := cmds.foldl (fun h cmd => (mp4MuxerIOCtrl h cmd).2)
    { ctx := ctx, mpStream := false, mFsCacheMode := 0, mCacheSimpleSize := 0 }
  { h with ctx := csds.foldl (fun ctx csd => mp4MuxerWriteCSD ctx csd.1 csd.2) h.ctx }

/-- `Mp4MuxerWriteHeader` gets a cache writer; `memory`: the allocations in `create_cache_simple`
succeed -/
def Handle.CacheWriter (h : Handle) (memory : Bool) : Prop :=
  h.mpStream = true ∧ h.mFsCacheMode = cachemodeSimple ∧ 0 < h.mCacheSimpleSize ∧ memory = true

instance (h : Handle) (memory : Bool) : Decidable (h.CacheWriter memory) :=
  inferInstanceAs (Decidable (_ ∧ _ ∧ _ ∧ _))

/-! ## the indices -/

inductive IndexedArray where
  | streams
  | tracks
  | tables
deriving DecidableEq

/-- an index into an array of two elements; where it is not `followed` only the address is formed -/
structure IndexUse where
  array : IndexedArray
  index : Int
  followed : Bool

def IndexUse.Inside (u : IndexUse) : Prop := u.index = 0 ∨ u.index = 1

instance (u : IndexUse) : Decidable u.Inside := inferInstanceAs (Decidable (_ ∨ _))

def element (array : IndexedArray) (index : Int) : IndexUse := ⟨array, index, true⟩

def streamIndex : CodecType → Int
  | .video => 0
  | .audio => 1

/-- `last_stream_idx` as the `int` it is -/
def MOVContext.lastIndex (mov : MOVContext) : Int := mov.last_stream_idx.elim (-1) streamIndex

/-- `for (i=0; i<n; i++)` -/
def loopUses (n : Nat) (arrays : List IndexedArray) : List IndexUse :=
  (List.range n).flatMap fun i : Nat => arrays.map fun a => element a i

def openUses : List IndexUse :=
  loopUses 2 [.streams, .tracks] ++ [element .tables 0, element .tables 1]

def ioctrlUses : IOCtrl → List IndexUse
  | .setTrackInfo (some info) =>
    [element .streams 0, element .tracks 0] ++
      if info.mVideoEncType = .vencH264 ∨ info.mVideoEncType = .vencJpeg then
        [element .streams 0, element .streams 1, element .tracks 1]
      else []
  | .setTotalTime _ => [element .tracks 0, element .tracks 1]
  | _ => []

/-- `mov_write_header` -/
def headerUses (ctx : AVFormatContext) : List IndexUse := loopUses ctx.mTrackCnt [.streams, .tracks]

/-- `mov_write_packet`, which forms the address of a track before it looks at anything -/
def packetUses (mov : MOVContext) (pkt : AVPacket) : List IndexUse :=
  ⟨.tracks, pkt.stream_idx, false⟩ ::
    if pkt.stream_idx = -1 then [element .tables mov.lastIndex, element .tracks mov.lastIndex]
    else
      (if pkt.stream_idx ≠ mov.lastIndex then
        [element .tables pkt.stream_idx, element .tracks pkt.stream_idx]
          ++ (if mov.lastIndex ≥ 0 then
            [element .tables mov.lastIndex, element .tracks mov.lastIndex] else [])
          ++ [element .tables pkt.stream_idx]
      else [])
      ++ [element .tables pkt.stream_idx, element .tracks pkt.stream_idx]
      ++ if pkt.stream_idx = 0 then
        [element .tables pkt.stream_idx, element .tracks pkt.stream_idx,
          element .streams pkt.stream_idx, element .streams 0]
      else []

/-- `mov_write_moov_tag`: the loop of `movGetMoovTagSize`, the one that sets the fields of the
tracks, the one in `mvhd`, and the one that writes the tracks, with the tables under the
`stream_type` of each -/
def moovUses (mov : MOVContext) : List IndexUse :=
  loopUses mov.nb_streams [.tracks] ++ loopUses mov.nb_streams [.tracks]
    ++ (loopUses mov.nb_streams [.tracks] ++ [element .tracks 0])
    ++ loopUses mov.nb_streams [.tracks] ++ (writtenTracks mov).map fun i =>
      element .tables (streamIndex i)

/-- packets and trailer of a session with a cache writer; nothing is known behind a call that has no
result -/
def runUses (ctx : AVFormatContext) : List (Mem × AVPacket) → List IndexUse
  | [] =>
    packetUses ctx.priv_data lastPacket
      ++ (movWritePacket ctx (fun _ => 0) lastPacket).elim [] fun r =>
      moovUses r.2.2.priv_data
  | c :: calls =>
    packetUses ctx.priv_data c.2 ++ (movWritePacket ctx c.1 c.2).elim [] fun r =>
      runUses r.2.2 calls

/-- header, packets and trailer.  Without a stream the first write of the header follows a null
pointer; without a cache writer the header and each packet return `-1`, and the first seek of the
trailer follows a null pointer. -/
def bodyUses (h : Handle) (memory : Bool) (calls : List (Mem × AVPacket)) : List IndexUse :=
  if h.mpStream = false then []
  else if h.CacheWriter memory then
    headerUses h.ctx ++ (movWriteHeader h.ctx).elim [] fun header => runUses header.2 calls
  else (calls.map fun c => ⟨.tracks, c.2.stream_idx, false⟩)
    ++ [⟨.tracks, lastPacket.stream_idx, false⟩]

def sessionUses (ctx : AVFormatContext) (cmds : List IOCtrl) (csds : List (Block × CodecType))
    (memory : Bool) (calls : List (Mem × AVPacket)) : List IndexUse :=
  openUses ++ cmds.flatMap ioctrlUses ++ (csds.map fun csd => element .tracks (streamIndex csd.2))
    ++ bodyUses (prepared ctx cmds csds) memory calls

/-- the command counts two tracks -/
def IOCtrl.CountsTracks : IOCtrl → Prop
  | .setTrackInfo (some info) => info.mVideoEncType = .vencH264 ∨ info.mVideoEncType = .vencJpeg
  | _ => False

instance : DecidablePred IOCtrl.CountsTracks
  | .setTrackInfo (some _) => inferInstanceAs (Decidable (_ ∨ _))
  | .setTrackInfo none => .isFalse id
  | .setTotalTime _ => .isFalse id
  | .setFallocateLen _ => .isFalse id
  | .setStreamFd _ => .isFalse id
  | .setStreamFilepath _ => .isFalse id
  | .setTfcardState _ => .isFalse id
  | .setCacheSize _ => .isFalse id
  | .setCacheMode _ => .isFalse id
  | .setStreamCallback => .isFalse id
  | .unknown _ => .isFalse id

/-! ## configuration -/

theorem trackInfo_count (ctx : AVFormatContext) (info : MediaTrackInfo) :
    (setTrackInfo ctx info).2.mTrackCnt
      = ctx.mTrackCnt + if info.mVideoEncType = .vencH264 ∨ info.mVideoEncType = .vencJpeg then 2
        else 0 := by
  unfold setTrackInfo
  cases info.mVideoEncType <;> rfl

theorem ioctrl_count (h : Handle) (cmd : IOCtrl) :
    (mp4MuxerIOCtrl h cmd).2.ctx.mTrackCnt = h.ctx.mTrackCnt + if cmd.CountsTracks then 2
      else 0 := by
  cases cmd with
  | setTrackInfo data =>
    cases data with
    | none => rfl
    | some info => exact trackInfo_count h.ctx info
  | _ => rfl

theorem ioctrl_fresh {h : Handle} (hf : Fresh h.ctx) (cmd : IOCtrl) :
    Fresh (mp4MuxerIOCtrl h cmd).2.ctx := by
  cases cmd with
  | setTrackInfo data =>
    cases data with
    | none => exact hf
    | some info => exact hf.trackInfo info
  | setTotalTime param => exact hf.command (.totalTime param)
  | _ => exact hf

/-- `mTrackCnt` is not bounded by anything but the number of commands -/
theorem prepared_count (ctx : AVFormatContext) (cmds : List IOCtrl)
    (csds : List (Block × CodecType)) :
    (prepared ctx cmds csds).ctx.mTrackCnt = ctx.mTrackCnt + 2 * cmds.countP fun c =>
      c.CountsTracks := by
  have hcmds : ∀ h : Handle, (cmds.foldl (fun h cmd => (mp4MuxerIOCtrl h cmd).2) h).ctx.mTrackCnt
      = h.ctx.mTrackCnt + 2 * cmds.countP fun c => c.CountsTracks := by
    induction cmds with
    | nil => exact fun _ => rfl
    | cons cmd cmds ih =>
      intro h
      rw [List.foldl_cons, ih, ioctrl_count, List.countP_cons]
      by_cases hc : cmd.CountsTracks
      · rw [if_pos hc, if_pos (decide_eq_true hc)]
        ring
      · rw [if_neg hc, if_neg fun h => hc (of_decide_eq_true h)]
        ring
  have hcsds : ∀ ctx : AVFormatContext,
      (csds.foldl (fun ctx csd => mp4MuxerWriteCSD ctx csd.1 csd.2) ctx).mTrackCnt
          = ctx.mTrackCnt := by
    induction csds with
    | nil => exact fun _ => rfl
    | cons csd csds ih =>
      intro ctx
      rw [List.foldl_cons, ih]
      rfl
  exact (hcsds _).trans (hcmds _)

theorem prepared_fresh {ctx : AVFormatContext} (hf : Fresh ctx) (cmds : List IOCtrl)
    (csds : List (Block × CodecType)) :
    Fresh (prepared ctx cmds csds).ctx := by
  have hcmds : ∀ h : Handle, Fresh h.ctx →
      Fresh (cmds.foldl (fun h cmd => (mp4MuxerIOCtrl h cmd).2) h).ctx := by
    induction cmds with
    | nil => exact fun _ hh => hh
    | cons cmd cmds ih => exact fun h hh => ih _ (ioctrl_fresh hh cmd)
  have hcsds : ∀ ctx : AVFormatContext, Fresh ctx →
      Fresh (csds.foldl (fun ctx csd => mp4MuxerWriteCSD ctx csd.1 csd.2) ctx) := by
    induction csds with
    | nil => exact fun _ hh => hh
    | cons csd csds ih => exact fun ctx hh => ih _ (hh.command (.csd csd.1 csd.2))
  exact hcsds _ (hcmds _ hf)

/-! ## what is used -/

theorem element_inside (array : IndexedArray) (t : CodecType) :
    (element array (streamIndex t)).Inside := by
  cases t
  · exact Or.inl rfl
  · exact Or.inr rfl

/-- a loop stays inside for up to two rounds -/
theorem loopUses_inside {n : Nat} {arrays : List IndexedArray} (hne : arrays ≠ []) :
    (∀ u ∈ loopUses n arrays, u.Inside) ↔ n ≤ 2 := by
  refine ⟨?_, ?_⟩
  · intro h
    by_contra hn
    obtain ⟨a, ha⟩ := List.exists_mem_of_ne_nil arrays hne
    have hmem : element a 2 ∈ loopUses n arrays :=
      List.mem_flatMap.mpr ⟨2, List.mem_range.mpr (by omega), List.mem_map.mpr ⟨a, ha, rfl⟩⟩
    have hout : ¬ ((2 : Int) = 0 ∨ (2 : Int) = 1) := by decide
    exact hout (h _ hmem)
  · intro hn u hu
    obtain ⟨i, hi, hu⟩ := List.mem_flatMap.mp hu
    obtain ⟨a, -, rfl⟩ := List.mem_map.mp hu
    have hlt := List.mem_range.mp hi
    show (i : Int) = 0 ∨ (i : Int) = 1
    omega

theorem loopUses_followed {n : Nat} {arrays : List IndexedArray} {u : IndexUse}
    (h : u ∈ loopUses n arrays) :
    u.followed = true := by
  obtain ⟨i, -, hu⟩ := List.mem_flatMap.mp h
  obtain ⟨a, -, rfl⟩ := List.mem_map.mp hu
  rfl

theorem ioctrlUses_inside (cmd : IOCtrl) : ∀ u ∈ ioctrlUses cmd, u.Inside := by
  cases cmd with
  | setTrackInfo data =>
    cases data with
    | none => exact fun u hu => nomatch hu
    | some info =>
      unfold ioctrlUses
      dsimp only
      split <;> decide
  | setTotalTime param =>
    show ∀ u ∈ [element .tracks 0, element .tracks 1], u.Inside
    decide
  | _ => exact fun u hu => nomatch hu

theorem lastIndex_inside {mov : MOVContext} {last : CodecType} (h : mov.last_stream_idx = some last)
    (array : IndexedArray) : (element array mov.lastIndex).Inside := by
  unfold MOVContext.lastIndex
  rw [h]
  exact element_inside array last

theorem streamIndex_eq {stream_idx : Int} {t : CodecType} (h : codecType stream_idx = some t) :
    stream_idx = streamIndex t := by
  cases t with
  | video => exact codecType_video.mp h
  | audio => exact codecType_audio.mp h

/-- a packet of one of the two streams uses its own index and that of the packet before, where there
is one -/
theorem packetUses_inside (mov : MOVContext) {pkt : AVPacket} {t : CodecType}
    (ht : codecType pkt.stream_idx = some t) :
    ∀ u ∈ packetUses mov pkt, u.Inside := by
  have hidx := streamIndex_eq ht
  unfold packetUses
  rw [hidx]
  cases hlast : mov.last_stream_idx with
  | none =>
    have hnone : mov.lastIndex = -1 := by
      unfold MOVContext.lastIndex
      rw [hlast]
      rfl
    rw [hnone]
    cases t <;> decide
  | some last =>
    have hsome : mov.lastIndex = streamIndex last := by
      unfold MOVContext.lastIndex
      rw [hlast]
      rfl
    rw [hsome]
    cases t <;> cases last <;> decide

theorem moovUses_inside {mov : MOVContext} (h : mov.nb_streams ≤ 2) :
    ∀ u ∈ moovUses mov, u.Inside := by
  have hloop : ∀ u ∈ loopUses mov.nb_streams [.tracks], u.Inside :=
    (loopUses_inside (List.cons_ne_nil _ _)).mpr h
  unfold moovUses
  simp only [List.forall_mem_append]
  refine ⟨⟨⟨⟨hloop, hloop⟩, hloop, by decide⟩, hloop⟩, ?_⟩
  intro u hu
  obtain ⟨i, -, rfl⟩ := List.mem_map.mp hu
  exact element_inside .tables i

/-- **A run**: what it reads or writes is inside if and only if a packet came before the closing
packet. -/
theorem runUses_inside (ctx : AVFormatContext) (hn : ctx.priv_data.nb_streams ≤ 2)
    {calls : List (Mem × AVPacket)} (hs : Streamed calls) :
    (∀ u ∈ runUses ctx calls, u.followed = true → u.Inside) ↔
      ctx.priv_data.last_stream_idx ≠ none ∨ calls ≠ [] := by
  induction calls generalizing ctx with
  | nil =>
    unfold runUses packetUses
    rw [if_pos (show lastPacket.stream_idx = -1 from rfl)]
    cases hlast : ctx.priv_data.last_stream_idx with
    | none =>
      have hout : ctx.priv_data.lastIndex = -1 := by
        unfold MOVContext.lastIndex
        rw [hlast]
        rfl
      refine ⟨?_, fun h => absurd h (by simp)⟩
      intro h
      have hmem := h (element .tables ctx.priv_data.lastIndex) (by simp) rfl
      rw [hout] at hmem
      exact absurd hmem (by decide)
    | some last =>
      refine ⟨fun _ => Or.inl (Option.some_ne_none last), fun _ u hu hfollow => ?_⟩
      rw [lastPacket_eq ctx hlast] at hu
      rcases List.mem_append.mp hu with hu | hu
      · simp only [List.mem_cons, List.not_mem_nil, or_false] at hu
        rcases hu with rfl | rfl | rfl
        · cases hfollow
        · exact lastIndex_inside hlast .tables
        · exact lastIndex_inside hlast .tracks
      · have hnb : (ctx.priv_data.endChunk last).nb_streams ≤ 2 := hn
        exact moovUses_inside hnb u hu
  | cons c calls ih =>
    obtain ⟨t, ht⟩ := hs.codec List.mem_cons_self
    obtain ⟨code, hone⟩ := movWritePacket_eq ctx c.1 ht
    have hnb : (ctx.priv_data.record ctx.streams t c.1 c.2).nb_streams = ctx.priv_data.nb_streams :=
      congrArg Setup.nb_streams (record_setup ctx.priv_data ctx.streams t c.1 c.2)
    have hnext :=
      (ih { ctx with priv_data := ctx.priv_data.record ctx.streams t c.1 c.2 } (hnb.trans_le hn)
        fun d hd => hs d (List.mem_cons_of_mem c hd)).mpr (Or.inl (by
          rw [record_last]
          exact Option.some_ne_none t))
    refine ⟨fun _ => Or.inr (List.cons_ne_nil _ _), fun _ u hu hfollow => ?_⟩
    unfold runUses at hu
    rw [hone] at hu
    rcases List.mem_append.mp hu with hu | hu
    · exact packetUses_inside ctx.priv_data ht u hu
    · exact hnext u hu hfollow

theorem lastPacket_formed (mov : MOVContext) : ⟨.tracks, -1, false⟩ ∈ packetUses mov lastPacket :=
  List.mem_cons_self

/-- every run forms the address of the track before the first -/
theorem runUses_formed (ctx : AVFormatContext) {calls : List (Mem × AVPacket)}
    (hs : Streamed calls) :
    ⟨.tracks, -1, false⟩ ∈ runUses ctx calls := by
  induction calls generalizing ctx with
  | nil => exact List.mem_append_left _ (lastPacket_formed ctx.priv_data)
  | cons c calls ih =>
    obtain ⟨t, ht⟩ := hs.codec List.mem_cons_self
    obtain ⟨code, hone⟩ := movWritePacket_eq ctx c.1 ht
    unfold runUses
    rw [hone]
    exact List.mem_append_right _ (ih _ fun d hd => hs d (List.mem_cons_of_mem c hd))

/-! ## sessions -/

section
variable {h : Handle} (memory : Bool) {calls : List (Mem × AVPacket)}

theorem bodyUses_followed (hf : Fresh h.ctx) (hs : Streamed calls) :
    (∀ u ∈ bodyUses h memory calls, u.followed = true → u.Inside) ↔
      (h.CacheWriter memory → h.ctx.mTrackCnt ≤ 2 ∧ calls ≠ []) := by
  unfold bodyUses
  split
  · rename_i hnone
    refine ⟨fun _ hw => ?_, fun _ u hu => nomatch hu⟩
    rw [hw.1] at hnone
    cases hnone
  · split
    · rename_i hw
      have hloop : (∀ u ∈ headerUses h.ctx, u.followed = true → u.Inside) ↔
          h.ctx.mTrackCnt ≤ 2 := by
        rw [← loopUses_inside (List.cons_ne_nil IndexedArray.streams [.tracks])]
        exact ⟨fun hu u hmem => hu u hmem (loopUses_followed hmem), fun hu u hmem _ => hu u hmem⟩
      rw [List.forall_mem_append, hloop, forall_prop_of_true hw]
      refine and_congr_right fun hle => ?_
      unfold movWriteHeader
      rw [if_pos hle]
      have hlast : h.ctx.headed.priv_data.last_stream_idx = none := hf.last
      refine (runUses_inside h.ctx.headed hle hs).trans ?_
      rw [hlast]
      exact or_iff_right fun hne => hne rfl
    · rename_i hw
      refine ⟨fun _ hc => absurd hc hw, fun _ u hu hfollow => ?_⟩
      rcases List.mem_append.mp hu with hu | hu
      · obtain ⟨c, -, rfl⟩ := List.mem_map.mp hu
        cases hfollow
      · rw [List.mem_singleton.mp hu] at hfollow
        cases hfollow

theorem bodyUses_inside (hs : Streamed calls) :
    (∀ u ∈ bodyUses h memory calls, u.Inside) ↔ h.mpStream = false := by
  have hout : ¬ (⟨.tracks, -1, false⟩ : IndexUse).Inside := by decide
  unfold bodyUses
  split
  · rename_i hnone
    exact ⟨fun _ => hnone, fun _ u hu => nomatch hu⟩
  · rename_i hstream
    refine ⟨fun hin => ?_, fun hnone => absurd hnone hstream⟩
    split at hin
    · rw [List.forall_mem_append] at hin
      have hle := (loopUses_inside (List.cons_ne_nil IndexedArray.streams [.tracks])).mp hin.1
      have hrun := hin.2
      unfold movWriteHeader at hrun
      rw [if_pos hle] at hrun
      exact absurd (hrun _ (runUses_formed h.ctx.headed hs)) hout
    · exact absurd (hin _ (List.mem_append_right _ List.mem_cons_self)) hout

end

/-- the calls in front of the header stay inside -/
theorem frontUses_inside (cmds : List IOCtrl) (csds : List (Block × CodecType)) :
    ∀ u ∈ openUses ++ cmds.flatMap ioctrlUses ++ csds.map (fun csd =>
      element .tracks (streamIndex csd.2)), u.Inside := by
  simp only [List.forall_mem_append]
  refine ⟨⟨by decide, ?_⟩, ?_⟩
  · intro u hu
    obtain ⟨cmd, -, hu⟩ := List.mem_flatMap.mp hu
    exact ioctrlUses_inside cmd u hu
  · intro u hu
    obtain ⟨csd, -, rfl⟩ := List.mem_map.mp hu
    exact element_inside .tracks csd.2

theorem sessionUses_followed (raw_time : Int) (words keyframes : Nat → UInt32) (cmds : List IOCtrl)
    (csds : List (Block × CodecType)) (memory : Bool) {calls : List (Mem × AVPacket)}
    (hs : Streamed calls) :
    (∀ u ∈ sessionUses (mp4MuxerOpen raw_time words keyframes) cmds csds memory calls,
      u.followed = true → u.Inside) ↔
      ((prepared (mp4MuxerOpen raw_time words keyframes) cmds csds).CacheWriter memory →
        (cmds.countP fun c => c.CountsTracks) ≤ 1 ∧ calls ≠ []) := by
  have hfront := frontUses_inside cmds csds
  have hbody :=
    bodyUses_followed memory (prepared_fresh (open_fresh raw_time words keyframes) cmds csds) hs
  have hcount : (prepared (mp4MuxerOpen raw_time words keyframes) cmds csds).ctx.mTrackCnt ≤ 2 ↔
      (cmds.countP fun c => c.CountsTracks) ≤ 1 := by
    rw [prepared_count]
    show 0 + _ ≤ 2 ↔ _
    omega
  rw [hcount] at hbody
  unfold sessionUses
  rw [List.forall_mem_append, and_iff_right fun u hu _ => hfront u hu]
  exact hbody

/-- **When the indices are `0` or `1`.**  In every session the elements that are read or written are
those of the arrays if and only if there is no cache writer, or at most one `SET_TRACK_INFO` was
accepted and a packet came.  With the addresses that are only formed it is so if and only if there
is no stream: the closing packet forms that of `tracks[-1]`. -/
theorem indices_inside_iff (raw_time : Int) (words keyframes : Nat → UInt32) (cmds : List IOCtrl)
    (csds : List (Block × CodecType)) (memory : Bool) {calls : List (Mem × AVPacket)}
    (hs : Streamed calls) :
    ((∀ u ∈ sessionUses (mp4MuxerOpen raw_time words keyframes) cmds csds memory calls,
      u.followed = true → u.Inside) ↔
      ((prepared (mp4MuxerOpen raw_time words keyframes) cmds csds).CacheWriter memory →
        (cmds.countP fun c => c.CountsTracks) ≤ 1 ∧ calls ≠ [])) ∧
      ((∀ u ∈ sessionUses (mp4MuxerOpen raw_time words keyframes) cmds csds memory calls,
        u.Inside) ↔
        (prepared (mp4MuxerOpen raw_time words keyframes) cmds csds).mpStream = false) := by
  refine ⟨sessionUses_followed raw_time words keyframes cmds csds memory hs, ?_⟩
  unfold sessionUses
  rw [List.forall_mem_append, and_iff_right (frontUses_inside cmds csds)]
  exact bodyUses_inside memory hs

/-- a configuration with a stream and a cache -/
def smallCommands : List IOCtrl :=
  [.setCacheMode 1, .setCacheSize 4096, .setStreamFilepath true, .setTrackInfo (some smallInfo)]

theorem indices_inside_small :
    Streamed smallCalls ∧
      ∀ u ∈ sessionUses (mp4MuxerOpen 0 (fun _ => 0)
        (fun _ => 0)) smallCommands [(smallCsd, .video)] true smallCalls,
        u.followed = true → u.Inside := by
  have hs : Streamed smallCalls := by decide
  refine ⟨hs, ?_⟩
  exact (indices_inside_iff 0 (fun _ => 0) (fun _ => 0) smallCommands [(smallCsd, .video)] true
      hs).1.mpr fun _ =>
    ⟨by decide, List.cons_ne_nil _ _⟩

/-- a second `SET_TRACK_INFO`; a session without a packet -/
theorem indices_outside :
    (¬ ∀ u ∈ sessionUses (mp4MuxerOpen 0 (fun _ => 0) (fun _ => 0))
        (smallCommands ++ [.setTrackInfo (some smallInfo)]) [] true smallCalls, u.followed = true →
          u.Inside) ∧
      ¬ ∀ u ∈ sessionUses (mp4MuxerOpen 0 (fun _ => 0) (fun _ => 0)) smallCommands [] true [],
        u.followed = true → u.Inside := by
  refine ⟨?_, ?_⟩
  · rw [sessionUses_followed _ _ _ _ _ _ (by decide : Streamed smallCalls)]
    intro h
    exact absurd (h (by decide)).1 (by decide)
  · rw [sessionUses_followed _ _ _ _ _ _ (by decide : Streamed [])]
    intro h
    exact (h (by decide)).2 rfl

end Pluto.Mp4

import Pluto.Bytes.Signed
import Pluto.Mp4.Timeline

/-!
# `mdat_size` is a signed integer of 32 bits

A packet adds its size to `mdat_size`; the offset of a chunk is `mdat_size` behind the start of
`mdat`; the trailer writes `mdat_size` and eight.  The tables are checked against their capacities,
these sums are not.

* `packetSums`, `mp4SessionChecked` the `int` sums of a packet, and a session that ends where one
  overflows;
* `chunkStarts`, `mdatTotal`          the exact offsets of the chunks, and the bytes of all packets;
* `packetsChecked_eq`                 which runs of packets overflow;
* `mdat_exact`                        the sessions without an overflow, and that their offsets are
  exact.
-/

namespace Pluto.Mp4
open Octets SampleTables Signed
open Boxes hiding Fits

/-! ## the sums of a session -/

/-- the exact values of the `int` sums of a packet: its size, the offset of a chunk, the new
`mdat_size` -/
def packetSums (ctx : AVFormatContext) (pkt : AVPacket) : List Int :=
  let mov := ctx.priv_data
  let size : Int := pkt.size0 + pkt.size1
  match codecType pkt.stream_idx with
  | none => [size]
  | some idx =>
    [size] ++ (if some idx ≠ mov.last_stream_idx then [(mov.mdat_size : Int) + mov.mdat_start_pos]
      else [])
      -- a video packet other than H.264 has returned
      ++ if idx = .video ∧ (ctx.streams .video).codec_id ≠ codecIdH264 then []
        else [mov.mdat_size + size]

/-- no result where a sum overflows -/
def movWritePacketChecked (ctx : AVFormatContext) (m : Mem) (pkt : AVPacket) :
    Option (Int × List CacheWrite × AVFormatContext) :=
  if ∀ x ∈ packetSums ctx pkt, Fits 32 x then movWritePacket ctx m pkt else none

def packetsChecked (ctx : AVFormatContext) :
    List (Mem × AVPacket) → Option (List CacheWrite × AVFormatContext)
  | [] => some ([], ctx)
  | (m, pkt) :: calls =>
    (movWritePacketChecked ctx m pkt).bind fun r =>
      (packetsChecked r.2.2 calls).map fun rest => (r.2.1 ++ rest.1, rest.2)

/-- `mov->mdat_size+8` is added behind `moov` -/
def movWriteTrailerChecked (env : Env) (ctx : AVFormatContext) :
    Option (List CacheOp × AVFormatContext) :=
  (movWriteTrailer env ctx).bind fun trailer =>
    (check 32 (trailer.2.priv_data.mdat_size + 8)).map fun _ => trailer

def mp4SessionChecked (env : Env) (ctx : AVFormatContext) (calls : List (Mem × AVPacket))
    (total : Option Int) :
    Option (List CacheOp × AVFormatContext) :=
  (movWriteHeader ctx).bind fun header =>
    (packetsChecked header.2 calls).bind fun body =>
      (movWriteTrailerChecked env (total.elim body.2 (setTotalTime body.2))).map fun trailer =>
        (header.1 ++ writeOps body.1 ++ trailer.1, trailer.2)

/-! ## the exact values -/

/-- what a packet adds to `mdat_size` -/
def packetBytes (streams : CodecType → AVCodecContext) (c : Mem × AVPacket) : Nat :=
  if codecType c.2.stream_idx = some .video ∧ (streams .video).codec_id ≠ codecIdH264 then
    0 else c.2.size0 + c.2.size1

def mdatTotal (streams : CodecType → AVCodecContext) (calls : List (Mem × AVPacket)) : Nat :=
  (calls.map (packetBytes streams)).sum

/-- the streams of the chunks and where they start, behind a packet of `last` and `pos` bytes of the
file -/
def startsFrom (streams : CodecType → AVCodecContext) :
    Option CodecType → Nat → List (Mem × AVPacket) → List (CodecType × Nat)
  | _, _, [] => []
  | last, pos, c :: calls =>
    match codecType c.2.stream_idx with
    | none => startsFrom streams last pos calls
    | some t =>
      (if some t ≠ last then [(t, pos)] else [])
        ++ startsFrom streams (some t) (pos + packetBytes streams c) calls

/-- where the chunks of a session start -/
def chunkStarts (streams : CodecType → AVCodecContext) (calls : List (Mem × AVPacket)) :
    List (CodecType × Nat) :=
  startsFrom streams none mdatStart calls

/-- every chunk starts, and `mdat` ends, below 2³¹ -/
def MdatFits (streams : CodecType → AVCodecContext) (calls : List (Mem × AVPacket)) : Prop :=
  (∀ x ∈ chunkStarts streams calls, x.2 < 2 ^ 31) ∧ mdatTotal streams calls + 8 < 2 ^ 31

instance (streams : CodecType → AVCodecContext) (calls : List (Mem × AVPacket)) :
    Decidable (MdatFits streams calls) :=
  inferInstanceAs (Decidable (_ ∧ _))

/-! ## a run of packets -/

theorem fits_nat {n : Nat} : Fits 32 (n : Int) ↔ n < 2 ^ 31 := by
  unfold Fits
  norm_num

/-- a list of one element that stands there under a condition -/
theorem forall_mem_guarded {α : Type*} {p : Prop} [Decidable p] {a : α} {P : α → Prop} :
    (∀ x ∈ if p then [a] else [], P x) ↔ (p → P a) := by
  split
  · rename_i hp
    rw [List.forall_mem_singleton, forall_prop_of_true hp]
  · rename_i hp
    exact ⟨fun _ h => absurd h hp, fun _ => nofun⟩

section
variable {ctx : AVFormatContext} {c : Mem × AVPacket} {t : CodecType}

theorem packetBytes_eq (streams : CodecType → AVCodecContext)
    (ht : codecType c.2.stream_idx = some t) :
    packetBytes streams c
      = if t = .video ∧ (streams .video).codec_id ≠ codecIdH264 then
        0 else c.2.size0 + c.2.size1 := by
  unfold packetBytes
  simp only [ht, Option.some.injEq]

theorem startsFrom_cons (streams : CodecType → AVCodecContext) (last : Option CodecType) (pos : Nat)
    (ht : codecType c.2.stream_idx = some t) (calls : List (Mem × AVPacket)) :
    startsFrom streams last pos (c :: calls)
      = (if some t ≠ last then [(t, pos)] else [])
        ++ startsFrom streams (some t) (pos + packetBytes streams c) calls := by
  rw [startsFrom, ht]

/-- a packet whose size is an `int` overflows if a chunk starts, or `mdat` ends, behind 2³¹ -/
theorem packetSums_fit (ht : codecType c.2.stream_idx = some t)
    (hsize : c.2.size0 + c.2.size1 < 2 ^ 31) (hmdat : ctx.priv_data.mdat_size < 2 ^ 31) :
    (∀ x ∈ packetSums ctx c.2, Fits 32 x) ↔
      (some t ≠ ctx.priv_data.last_stream_idx →
        ctx.priv_data.mdat_size + ctx.priv_data.mdat_start_pos < 2 ^ 31) ∧
        ctx.priv_data.mdat_size + packetBytes ctx.streams c < 2 ^ 31 := by
  have hfits : Fits 32 ((c.2.size0 : Int) + c.2.size1) := by
    rw [← Nat.cast_add]
    exact fits_nat.mpr hsize
  have hstart : Fits 32 ((ctx.priv_data.mdat_size : Int) + ctx.priv_data.mdat_start_pos) ↔
      ctx.priv_data.mdat_size + ctx.priv_data.mdat_start_pos < 2 ^ 31 := by
    rw [← Nat.cast_add]
    exact fits_nat
  have hsum : Fits 32 ((ctx.priv_data.mdat_size : Int) + (c.2.size0 + c.2.size1)) ↔
      ctx.priv_data.mdat_size + (c.2.size0 + c.2.size1) < 2 ^ 31 := by
    rw [← Nat.cast_add, ← Nat.cast_add]
    exact fits_nat
  unfold packetSums
  rw [packetBytes_eq ctx.streams ht, ht]
  dsimp only
  rw [List.forall_mem_append, List.forall_mem_append, List.forall_mem_singleton,
    and_iff_right hfits]
  refine and_congr ?_ ?_
  · rw [forall_mem_guarded, hstart]
  · split
    · exact ⟨fun _ => hmdat, fun _ => nofun⟩
    · rw [List.forall_mem_singleton, hsum]

end

/-- **A run of packets** overflows if a chunk of it starts, or its data ends, behind 2³¹. -/
theorem packetsChecked_eq (ctx : AVFormatContext) {calls : List (Mem × AVPacket)}
    (hs : Streamed calls) (hsize : ∀ c ∈ calls, c.2.size0 + c.2.size1 < 2 ^ 31)
    (hmdat : ctx.priv_data.mdat_size < 2 ^ 31) :
    packetsChecked ctx calls
      = if (∀ x ∈ startsFrom ctx.streams ctx.priv_data.last_stream_idx
            (ctx.priv_data.mdat_size + ctx.priv_data.mdat_start_pos) calls, x.2 < 2 ^ 31) ∧
          ctx.priv_data.mdat_size + mdatTotal ctx.streams calls < 2 ^ 31
        then packets ctx calls else none := by
  induction calls generalizing ctx with
  | nil => exact (if_pos ⟨nofun, hmdat⟩).symm
  | cons c calls ih =>
    obtain ⟨t, ht⟩ := hs.codec List.mem_cons_self
    obtain ⟨code, hone⟩ := movWritePacket_eq ctx c.1 ht
    have hfit := packetSums_fit ht (hsize c List.mem_cons_self) hmdat
    have hnext : (ctx.priv_data.record ctx.streams t c.1 c.2).mdat_size
        = ctx.priv_data.mdat_size + packetBytes ctx.streams c := by
      rw [record_size, packetBytes_eq ctx.streams ht]
    have hstart : (ctx.priv_data.record ctx.streams t c.1 c.2).mdat_start_pos
        = ctx.priv_data.mdat_start_pos :=
      congrArg Setup.mdat_start_pos (record_setup ctx.priv_data ctx.streams t c.1 c.2)
    have htotal : mdatTotal ctx.streams (c :: calls)
        = packetBytes ctx.streams c + mdatTotal ctx.streams calls :=
      List.sum_cons
    -- the first packet, and those behind it
    have hcond : ((∀ x ∈ startsFrom ctx.streams ctx.priv_data.last_stream_idx
          (ctx.priv_data.mdat_size + ctx.priv_data.mdat_start_pos) (c :: calls), x.2 < 2 ^ 31) ∧
          ctx.priv_data.mdat_size + mdatTotal ctx.streams (c :: calls) < 2 ^ 31) ↔
        (∀ x ∈ packetSums ctx c.2, Fits 32 x) ∧
          (∀ x ∈ startsFrom ctx.streams (some t)
              (ctx.priv_data.mdat_size + packetBytes ctx.streams c + ctx.priv_data.mdat_start_pos)
              calls, x.2 < 2 ^ 31) ∧
          ctx.priv_data.mdat_size + packetBytes ctx.streams c + mdatTotal ctx.streams calls
            < 2 ^ 31 := by
      rw [hfit, startsFrom_cons _ _ _ ht, htotal, List.forall_mem_append, forall_mem_guarded,
        Nat.add_right_comm ctx.priv_data.mdat_size, ← Nat.add_assoc]
      constructor
      · rintro ⟨⟨h1, h2⟩, h3⟩
        exact ⟨⟨h1, by omega⟩, h2, h3⟩
      · rintro ⟨⟨h1, -⟩, h2, h3⟩
        exact ⟨⟨h1, h2⟩, h3⟩
    rw [packetsChecked, packets, movWritePacketChecked, hone]
    by_cases hpacket : ∀ x ∈ packetSums ctx c.2, Fits 32 x
    · have hrest := ih { ctx with priv_data := ctx.priv_data.record ctx.streams t c.1 c.2 }
        (fun d hd => hs d (List.mem_cons_of_mem c hd))
          (fun d hd => hsize d (List.mem_cons_of_mem c hd))
        (by rw [hnext]; exact (hfit.mp hpacket).2)
      dsimp only at hrest
      rw [hnext, hstart, record_last] at hrest
      rw [if_pos hpacket, Option.bind_some, Option.bind_some, hrest]
      rw [and_iff_right hpacket] at hcond
      rw [if_congr hcond rfl rfl]
      split <;> rfl
    · rw [if_neg hpacket, if_neg fun h => hpacket (hcond.mp h).1, Option.bind_none]

/-! ## the offsets of the chunks -/

/-- the stream of the last packet -/
def lastFrom (last : Option CodecType) (calls : List (Mem × AVPacket)) : Option CodecType :=
  calls.foldl (fun last c => (codecType c.2.stream_idx).or last) last

/-- where the chunks of a track start -/
def startsOf (streams : CodecType → AVCodecContext) (calls : List (Mem × AVPacket))
    (t : CodecType) : List Nat :=
  ((chunkStarts streams calls).filter fun x => x.1 = t).map Prod.snd

theorem mdatTotal_concat (streams : CodecType → AVCodecContext) (cs : List (Mem × AVPacket))
    (c : Mem × AVPacket) :
    mdatTotal streams (cs ++ [c]) = mdatTotal streams cs + packetBytes streams c := by
  unfold mdatTotal
  rw [List.map_append, List.sum_append, List.map_singleton, List.sum_singleton]

/-- one more packet starts a chunk if it is of another stream -/
theorem startsFrom_concat (streams : CodecType → AVCodecContext) (last : Option CodecType)
    (pos : Nat) {cs : List (Mem × AVPacket)} {c : Mem × AVPacket} (hs : Streamed cs) {t : CodecType}
    (ht : codecType c.2.stream_idx = some t) :
    startsFrom streams last pos (cs ++ [c])
      = startsFrom streams last pos cs
        ++ if some t ≠ lastFrom last cs then [(t, pos + mdatTotal streams cs)] else [] := by
  induction cs generalizing last pos with
  | nil =>
    rw [List.nil_append, startsFrom_cons _ _ _ ht]
    exact List.append_nil _
  | cons d cs ih =>
    obtain ⟨u, hu⟩ := hs.codec List.mem_cons_self
    have hrest :=
      ih (some u) (pos + packetBytes streams d) (fun e he => hs e (List.mem_cons_of_mem d he))
    have hlast : lastFrom last (d :: cs) = lastFrom (some u) cs := by
      unfold lastFrom
      rw [List.foldl_cons, hu, Option.some_or]
    have htotal : pos + mdatTotal streams (d :: cs)
        = pos + packetBytes streams d + mdatTotal streams cs := by
      rw [mdatTotal, List.map_cons, List.sum_cons, Nat.add_assoc]
      rfl
    rw [List.cons_append, startsFrom_cons _ _ _ hu, startsFrom_cons _ _ _ hu, hrest, hlast, htotal,
      List.append_assoc]

theorem startsOf_concat (streams : CodecType → AVCodecContext) {cs : List (Mem × AVPacket)}
    {c : Mem × AVPacket} (hs : Streamed cs) {t : CodecType}
    (ht : codecType c.2.stream_idx = some t) :
    startsOf streams (cs ++ [c])
      = if some t ≠ lastFrom none cs then
          Function.update (startsOf streams cs) t
            (startsOf streams cs t ++ [mdatTotal streams cs + mdatStart])
        else startsOf streams cs := by
  funext u
  have hstarts := startsFrom_concat streams none mdatStart hs ht
  unfold startsOf chunkStarts
  rw [hstarts, Nat.add_comm mdatStart]
  split
  · rw [List.filter_append, List.map_append, Function.update_apply]
    by_cases hu : u = t
    · rw [if_pos hu, hu]
      simp
    · have hne : ¬ t = u := fun h => hu h.symm
      rw [if_neg hu]
      simp [hne]
  · rw [List.append_nil]

/-- the counters and the offsets behind the calls `cs` -/
structure Measured (start : Setup) (streams : CodecType → AVCodecContext) (mov : MOVContext)
    (cs : List (Mem × AVPacket)) : Prop extends Tracked start mov (events streams cs) where
  streamed : Streamed cs
  located : Located mov (layout mdatStart (events streams cs)) (startsOf streams cs) (durations cs)
  mdat_size : mov.mdat_size = mdatTotal streams cs
  last_stream : mov.last_stream_idx = lastFrom none cs

theorem Fresh.measured {ctx : AVFormatContext} (h : Fresh ctx) :
    Measured ctx.headed.priv_data.setup ctx.streams ctx.headed.priv_data [] where
  toTracked := h.tracked
  streamed := nofun
  located := ⟨fun _ => [], fun _ => [], h.areas, ⟨fun _ => rfl, fun _ => rfl, fun _ => rfl⟩⟩
  mdat_size := h.mdat_size
  last_stream := h.last

/-- **The packets of a session**: the offsets of the chunks. -/
theorem packets_measured {ctx : AVFormatContext} (h : Fresh ctx) {calls : List (Mem × AVPacket)}
    (hs : Streamed calls) (hcap : Capacity calls) {r : List CacheWrite × AVFormatContext}
    (hr : packets ctx.headed calls = some r) :
    Measured ctx.headed.priv_data.setup ctx.streams r.2.priv_data calls := by
  refine packets_prefix (P := Measured ctx.headed.priv_data.setup ctx.streams) ctx.headed []
    rfl rfl hs ?_ h.measured hr
  intro mov cs t c hc ht hpre hmov
  have hevents := events_concat ctx.streams cs ht
  obtain ⟨hroom, hplaced⟩ := prefix_room h hcap hpre hmov.setup
  have hstart : mov.mdat_start_pos = mdatStart := congrArg Setup.mdat_start_pos hmov.setup
  rw [hevents, layout_snoc] at hroom
  have hlocated :=
    hmov.located.record (durations_length ctx.streams cs) hplaced hmov.counted hroom ctx.streams c.1
      c.2
  rw [hmov.mdat_size, hstart, hmov.last_stream, ← startsOf_concat ctx.streams hmov.streamed ht,
    ← durations_concat cs ht, ← layout_snoc, ← hevents] at hlocated
  refine ⟨?_, ?_, hlocated, ?_, ?_⟩
  · rw [hevents]
    exact hmov.toTracked.record ctx.headed.streams t _ c.1 c.2
  · intro d hd
    rcases List.mem_append.mp hd with hd | hd
    · exact hmov.streamed d hd
    · rw [List.mem_singleton.mp hd]
      exact hs c hc
  · rw [mdatTotal_concat, ← hmov.mdat_size, packetBytes_eq ctx.streams ht]
    exact record_size mov ctx.streams t c.1 c.2
  · rw [record_last]
    unfold lastFrom
    rw [List.foldl_append, List.foldl_cons, List.foldl_nil, ht, Option.some_or]

/-! ## every session -/

section
variable {env : Env} {ctx : AVFormatContext} {calls : List (Mem × AVPacket)} {total : Option Int}
  {body : List CacheWrite × AVFormatContext} {u : CodecType} {c : Chunk} {mov : MOVContext}

theorem Parts.mdat_size (hf : Fresh ctx) (hs : Streamed calls) (hcap : Capacity calls)
    (h : Parts ctx calls total body u c mov) : mov.mdat_size = mdatTotal ctx.streams calls := by
  rw [h.context]
  show (totalTime body.2 total).priv_data.mdat_size = _
  rw [totalTime_rest]
  exact (packets_measured hf hs hcap h.packets).mdat_size

/-- `stco` of a track, as it is read -/
theorem Parts.offsets_read (env : Env) (hf : Fresh ctx) (hs : Streamed calls)
    (hcap : Capacity calls) (h : Parts ctx calls total body u c mov) {t : CodecType}
    (ht : t ∈ writtenTracks mov) (hstarts : ∀ x ∈ chunkStarts ctx.streams calls, x.2 < 2 ^ 32) :
    stcoEntries (stcoBox (mov.prepared env) ((mov.prepared env).tracks t)).body
      = startsOf ctx.streams calls t := by
  have hmeasured := packets_measured hf hs hcap h.packets
  have hcounted := (hmeasured.toTracked.totalTime total).counted
  have hlast : (totalTime body.2 total).priv_data.last_stream_idx = some u := by
    rw [hcounted.last, h.current]
    rfl
  obtain ⟨counts, sizes, hareas, hwords⟩ := hmeasured.located
  have hlocated : Located (totalTime body.2 total).priv_data
      (layout mdatStart (events ctx.streams calls))
      (startsOf ctx.streams calls) (Mp4.durations calls) := by
    rw [totalTime_rest]
    exact ⟨counts, sizes, hareas.congr rfl rfl, hwords⟩
  obtain ⟨counts, sizes, hareas⟩ := hlocated.endChunk hcounted hlast (hcap.room ctx.streams)
  rw [← h.context] at hareas
  -- the words of the table are the offsets
  have hread : mov.cache_read_ptr = cacheStart :=
    (congrArg Setup.cache_read_ptr h.closed.setup).trans hf.placed.next
  have hentries := (hareas (.stco, t) (chunk_real .stco t (by decide))).entries (congrFun hread _)
  have hnumber : (tableWords (startsOf ctx.streams calls) counts sizes (Mp4.durations calls)
      (.stco, t)).length
      = (mov.tracks t).stco_size := by
    rw [h.closed.stco, ← hwords.offsets]
    exact List.length_map _
  have hshort : (stcoBox (mov.prepared env) ((mov.prepared env).tracks t)).encode.length
      < 2 ^ 32 := by
    have hb := (h.closed.bounded hf hcap ht).stco
    rw [← stco_length, movGetStcoTagSize, prepared_tracks env mov t (written_below ht).1]
    dsimp only
    omega
  rw [hnumber] at hentries
  rw [stco_read hshort, tableOf, prepared_tracks env mov t (written_below ht).1]
  dsimp only
  rw [prepared_entries, hentries]
  refine toNat_words fun v hv => ?_
  obtain ⟨x, hx, rfl⟩ := List.mem_map.mp hv
  exact hstarts x (List.mem_filter.mp hx).1

/-- the last operations of a session: the size of `mdat` -/
theorem Parts.finish (hf : Fresh ctx) (hs : Streamed calls) (hcap : Capacity calls)
    (h : Parts ctx calls total body u c mov) {moov : List CacheOp × MOVContext}
    (hmoov : movWriteMoovTag env mov = some moov) :
    moov.2.mdat_size = mdatTotal ctx.streams calls ∧
      finishOps moov.2 = [CacheOp.seek movHeaderReserveSize .seekSet]
        ++ writeOps (putBe32 (mdatTotal ctx.streams calls + 8)) ++ [.flush, .seek 0 .seekEnd] := by
  obtain ⟨box, hbox, hmoov⟩ := Option.map_eq_some_iff.mp hmoov
  obtain ⟨hpos, hsize⟩ := moov_keeps (fun i hi => h.closed.plain hf hi) hbox
  have hreserve : mov.mdat_pos = movHeaderReserveSize := congrArg Setup.mdat_pos h.closed.setup
  have hmdat := hsize.trans (h.mdat_size hf hs hcap)
  rw [← hmoov]
  refine ⟨hmdat, ?_⟩
  unfold finishOps
  dsimp only
  rw [hmdat, hpos, hreserve]

/-- the checked session ends where the sizes are too large -/
theorem mp4SessionChecked_eq (hf : Fresh ctx) (hs : Streamed calls)
    (hsize : ∀ c ∈ calls, c.2.size0 + c.2.size1 < 2 ^ 31) (hcap : Capacity calls)
    {session : List CacheOp × AVFormatContext} (h : mp4Session env ctx calls total = some session) :
    mp4SessionChecked env ctx calls total = if MdatFits ctx.streams calls then
      some session else none := by
  have hn := (session_some hf h).1
  obtain ⟨body, u, c, mov, hparts, -, -⟩ := session_parts env hf hs h
  have hzero : ctx.headed.priv_data.mdat_size = 0 := hf.mdat_size
  have hnone : ctx.headed.priv_data.last_stream_idx = none := hf.last
  have hrun : packetsChecked ctx.headed calls
      = if (∀ x ∈ chunkStarts ctx.streams calls, x.2 < 2 ^ 31) ∧
        mdatTotal ctx.streams calls < 2 ^ 31
        then some body else none := by
    have hchecked := packetsChecked_eq ctx.headed hs hsize (by rw [hzero]; norm_num)
    rw [hzero, hnone, Nat.zero_add, Nat.zero_add, hparts.packets] at hchecked
    exact hchecked
  -- the trailer behind the packets
  unfold mp4Session at h
  rw [show movWriteHeader ctx = some (_, ctx.headed) from if_pos hn, Option.bind_some,
    hparts.packets, Option.bind_some] at h
  obtain ⟨trailer, htrailer, rfl⟩ := Option.map_eq_some_iff.mp h
  have hend : trailer.2.priv_data.mdat_size = mdatTotal ctx.streams calls := by
    have hclosing := htrailer
    unfold movWriteTrailer at hclosing
    rw [show Option.elim total _ _ = totalTime body.2 total from rfl, hparts.last,
      Option.bind_some] at hclosing
    obtain ⟨moov, hmoov, rfl⟩ := Option.map_eq_some_iff.mp hclosing
    exact (hparts.finish hf hs hcap hmoov).1
  unfold mp4SessionChecked movWriteTrailerChecked
  rw [show movWriteHeader ctx = some (_, ctx.headed) from if_pos hn, Option.bind_some, hrun]
  by_cases hstarts : (∀ x ∈ chunkStarts ctx.streams calls, x.2 < 2 ^ 31) ∧
    mdatTotal ctx.streams calls < 2 ^ 31
  · have hlast : Fits 32 ((trailer.2.priv_data.mdat_size : Int) + 8) ↔
        MdatFits ctx.streams calls := by
      rw [show ((trailer.2.priv_data.mdat_size : Int) + 8)
          = ((mdatTotal ctx.streams calls + 8 : Nat) : Int) by
        rw [hend, Nat.cast_add]; rfl, fits_nat]
      exact ⟨fun h => ⟨hstarts.1, h⟩, fun h => h.2⟩
    rw [if_pos hstarts, Option.bind_some, htrailer, Option.bind_some, check, if_congr hlast rfl rfl]
    split <;> rfl
  · rw [if_neg hstarts, if_neg fun h => hstarts ⟨h.1, lt_of_le_of_lt (Nat.le_add_right _ 8) h.2⟩,
      Option.bind_none]

end

/-- **The sums of a session.**  In a session within the capacities of the tables no sum of
`mdat_size` overflows its 32 bits if and only if every chunk starts, and the payload with its header
ends, below 2³¹.  Then every offset in `stco` is the place of its chunk, and the size that the
trailer writes in front of `mdat` is eight more than the payload. -/
theorem mdat_exact (env : Env) {ctx : AVFormatContext} (ho : Opened ctx)
    {calls : List (Mem × AVPacket)} (hs : Streamed calls)
    (hsize : ∀ c ∈ calls, c.2.size0 + c.2.size1 < 2 ^ 31) (hcap : Capacity calls)
    {total : Option Int} {session : List CacheOp × AVFormatContext}
    (h : mp4Session env ctx calls total = some session) :
    (mp4SessionChecked env ctx calls total = some session ↔ MdatFits ctx.streams calls) ∧
      (MdatFits ctx.streams calls →
        ∃ (moov : Box) (front back start : List CacheOp) (ws : List CacheWrite),
          session.1 = front ++ writeOps ws ++ back ∧ emitted ws = moov.encode ∧
            moov.tag = fourcc 'm' 'o' 'o' 'v' ∧
          (∀ t ∈ streamsBelow ctx.mTrackCnt, packetsOf t calls ≠ [] →
            ∃ stco, tableBox moov t (fourcc 's' 't' 'c' 'o') = some stco ∧
              stcoEntries stco.body = startsOf ctx.streams calls t) ∧
          session.1 = start ++ ([CacheOp.seek movHeaderReserveSize .seekSet]
            ++ writeOps (putBe32 (mdatTotal ctx.streams calls + 8))
              ++ [.flush, .seek 0 .seekEnd, .tell]) ∧
          ofBe (emitted (putBe32 (mdatTotal ctx.streams calls + 8)))
            = mdatTotal ctx.streams calls + 8) := by
  have hf := ho.fresh
  constructor
  · rw [mp4SessionChecked_eq hf hs hsize hcap h]
    by_cases hfits : MdatFits ctx.streams calls
    · rw [if_pos hfits]
      exact ⟨fun _ => hfits, fun _ => rfl⟩
    · rw [if_neg hfits]
      exact ⟨nofun, fun hc => absurd hc hfits⟩
  · rintro ⟨hstarts, htotal⟩
    obtain ⟨body, u, c, mov, hparts, hsession, front, back, ws, hwrites, hbytes⟩ :=
      session_parts env hf hs h
    obtain ⟨moov, hmoov, hops⟩ := Option.map_eq_some_iff.mp hsession.symm
    have hfinish := (hparts.finish hf hs hcap hmoov).2
    refine ⟨moovBox env (mov.prepared env), front, back, bodyOps body.1 ++ moov.1, ws, hwrites,
      hbytes, rfl, ?_, ?_, ?_⟩
    · intro t hbelow hpackets
      obtain ⟨ht, -⟩ := hparts.mem_written hbelow hpackets
      have hprepared : t ∈ writtenTracks (mov.prepared env) := by
        rw [prepared_written]
        exact ht
      have hstco : stcoBox (mov.prepared env) ((mov.prepared env).tracks t)
          ∈ [sttsBox (mov.prepared env) ((mov.prepared env).tracks t),
            stscBox (mov.prepared env) ((mov.prepared env).tracks t),
            stszBox (mov.prepared env) ((mov.prepared env).tracks t),
            stcoBox (mov.prepared env) ((mov.prepared env).tracks t)] := by simp
      exact ⟨_, moov_tableBox (hparts.closed.prepared_type env hf) hprepared hstco,
        hparts.offsets_read env hf hs hcap ht fun x hx => (hstarts x hx).trans (by norm_num)⟩
    · rw [← hops, hfinish]
      simp only [List.append_assoc, List.cons_append, List.nil_append]
    · rw [emitted_putBe32]
      exact ofBe_be 4 _ (by omega)

theorem mdat_exact_timed :
    ∃ session moov stco, mp4Session smallEnv smallContext timedCalls (some 100) = some session ∧
      mp4SessionChecked smallEnv smallContext timedCalls (some 100) = some session ∧
      tableBox moov .audio (fourcc 's' 't' 'c' 'o') = some stco ∧
      stcoEntries stco.body = [mdatStart + 12] := by
  obtain ⟨session, hsession⟩ := timed_session
  obtain ⟨hchecked, hexact⟩ :=
    mdat_exact smallEnv smallContext_opened (by decide : Streamed timedCalls) (by decide)
      timedCalls_capacity hsession
  have hfits : MdatFits smallContext.streams timedCalls := by decide
  obtain ⟨moov, -, -, -, -, -, -, -, htables, -, -⟩ := hexact hfits
  obtain ⟨stco, hstco, hoffsets⟩ := htables .audio (by decide) (by decide)
  exact ⟨session, moov, stco, hsession, hchecked.mpr hfits, hstco, hoffsets.trans (by decide)⟩

/-- four audio packets of a GiB each, and a video packet -/
def bigCalls : List (Mem × AVPacket) :=
  List.replicate 4 (fun _ => 0, smallPacket 1 (2 ^ 30) 0) ++ [(fun _ => 0, smallPacket 0 6 0)]

/-- `mdat_size` overflows in the second packet, and the offset of the video chunk is not what its
word holds -/
theorem mdat_overflow :
    Streamed bigCalls ∧ (∀ c ∈ bigCalls, c.2.size0 + c.2.size1 < 2 ^ 31) ∧ Capacity bigCalls ∧
      (∃ session, mp4Session smallEnv smallContext bigCalls (some 100) = some session ∧
        mp4SessionChecked smallEnv smallContext bigCalls (some 100) = none) ∧
      startsOf smallContext.streams bigCalls .video = [mdatStart + 2 ^ 32] ∧
      (UInt32.ofNat (mdatStart + 2 ^ 32)).toNat = mdatStart := by
  have hs : Streamed bigCalls := by decide
  have hsize : ∀ c ∈ bigCalls, c.2.size0 + c.2.size1 < 2 ^ 31 := by decide
  have hcap : Capacity bigCalls := by
    intro t
    cases t <;> decide
  have hfits : ¬ MdatFits smallContext.streams bigCalls := by decide
  obtain ⟨session, hsession⟩ : ∃ session, mp4Session smallEnv smallContext bigCalls (some 100)
      = some session :=
    session_ready smallContext_opened.fresh (by decide) hs (by decide) (by decide +kernel)
  refine ⟨hs, hsize, hcap, ⟨session, hsession, ?_⟩, by decide, by decide⟩
  rw [mp4SessionChecked_eq smallContext_opened.fresh hs hsize hcap hsession, if_neg hfits]

end Pluto.Mp4

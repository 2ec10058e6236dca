import Pluto.Avbs.Records
import Pluto.Mp4.DecoderSetup

/-!
# `muxer_test.c`: a recording becomes an MP4 file

* `muxerTest`            `main`: the muxer is opened, gets the recording call by call, and is
  closed;
* `content`              what the muxer sees of a packet;
* `muxBody_keeps`        the packets that the muxer gets have the contents of the records;
* `Recording.Playable`   a recording that the muxer can write;
* `test_played`          a player gets the recording out of the file.
-/

namespace Pluto.Avbs
open Octets AnnexB Boxes SampleTables Mp4

/-! ## the program -/

/-- `track_info` -/
def testTrackInfo : MediaTrackInfo where
  mWidth := 1280
  mHeight := 720
  mRotateDegree := 0
  mVideoEncType := .vencH264
  mChannelCnt := 1
  mBitWidth := 16
  mSampleRate := 8000
  mFrameSize := 1024

/-- the memory while `buf` is at the address `base` -/
def bufMem (base : Int) (buf : Bytes) : Mem :=
  fun a => if base ≤ a then buf.getD (a - base).toNat 0 else 0

/-- `MuxerWriteCSD(muxer, buf, size0, idx)`: `none` where the muxer would copy bytes outside `buf`,
and for an `idx` without a track -/
def writeCsd (r : Reader) : Option Command :=
  (codecType r.vars.idx).bind fun t =>
    (fwrite r.buf r.vars.size0).bind fun b => if h : b.length < 2 ^ 31 then
      some (.csd ⟨b, h⟩ t) else none

/-- `pkt` -/
def packetOf (base : Int) (v : Vars) : AVPacket where
  pts := v.pts
  data0 := base
  size0 := v.size0.toNat
  data1 := if v.size1 ≠ 0 then base + v.size0 else 0
  size1 := v.size1.toNat
  stream_idx := v.idx
  flags := v.flag
  duration := v.dura

/-- both segments are inside `buf` -/
def Inside (v : Vars) (buf : Bytes) : Prop :=
  0 ≤ v.size0 ∧ 0 ≤ v.size1 ∧ v.size0 + v.size1 ≤ buf.length

instance (v : Vars) (buf : Bytes) : Decidable (Inside v buf) := inferInstanceAs (Decidable (_ ∧ _))

/-- the body of the loop: the packets that the muxer has got; `none` where it would read outside
`buf` -/
def muxPacket (base : Int) (r : Reader) (calls : List (Mem × AVPacket)) :
    Option (Reader × List (Mem × AVPacket)) :=
  r.packet.bind fun r =>
    (if r.vars.size1 ≠ 0 then r.readBuf r.vars.size0 r.vars.size1 else some r).bind fun r =>
      if Inside r.vars r.buf then some (r, calls ++ [(bufMem base r.buf, packetOf base r.vars)])
        else none

theorem muxPacket_fp0 {base : Int} {r : Reader} {calls : List (Mem × AVPacket)}
    {x : Reader × List (Mem × AVPacket)} (h : muxPacket base r calls = some x) :
    x.1.fp0.length ≤ r.fp0.length := by
  obtain ⟨r₁, hpacket, h⟩ := Option.bind_eq_some_iff.mp h
  obtain ⟨r₂, hsecond, h⟩ := Option.bind_eq_some_iff.mp h
  have hle : r₂.fp0.length ≤ r₁.fp0.length := by
    split at hsecond
    · exact readBuf_fp0 hsecond
    · cases hsecond
      exact le_rfl
  split at h
  · cases h
    exact hle.trans (packet_fp0 hpacket)
  · cases h

def muxBody (base : Int) : Body (List (Mem × AVPacket)) where
  run := muxPacket base
  reads := muxPacket_fp0

/-- `main`, for the file `V3_avbs`, the bytes and the address of the allocation `buf` and what is in
the variables at first; `s` is the stream of `test_muxer.mp4`, `mpCache` the cache that the header
makes.  The `int` of `SET_TOTAL_TIME` is made of the variables that the last packet has left. -/
def muxerTest (env : Env) (raw_time : Int) (words keyframes : Nat → UInt32) (s : MmStreamInfo)
    (mpCache : Bytes) (base : Int) (file buf : Bytes) (v : Vars) :
    Option (Seen × Bytes × AVFormatContext) :=
  (Reader.csd ⟨file, zeros 64, buf, v⟩).bind fun r =>
    (writeCsd r).bind fun vcsd =>
      r.csd.bind fun r =>
        (writeCsd r).bind fun acsd =>
          (whileText (muxBody base) r []).bind fun x =>
            mp4File env ((mp4MuxerOpen raw_time words keyframes).commands
              [.trackInfo testTrackInfo, vcsd, acsd]) s mpCache
              4096 x.2 (some ((x.1.vars.pts + x.1.vars.dura).bmod (2 ^ 32)))

/-! ## the contents of packets -/

/-- what a muxer sees of a packet, wherever its segments lie -/
structure Content where
  pts : Int
  stream_idx : Int
  flags : Int
  duration : Int
  size0 : Nat
  size1 : Nat
  payload : Bytes

def content (c : Mem × AVPacket) : Content :=
  ⟨c.2.pts, c.2.stream_idx, c.2.flags, c.2.duration, c.2.size0, c.2.size1, c.2.payload c.1⟩

def Record.content (p : Record) : Content :=
  ⟨p.pts, trackIdx p.track, p.flag, p.dura, p.seg0.length, p.seg1.length, p.payload⟩

/-- the bytes of a buffer, read as memory -/
theorem read_bufMem (base : Int) (a b c : Bytes) :
    Pluto.read (bufMem base (a ++ b ++ c)) (base + a.length) b.length = b := by
  apply List.ext_getElem
  · rw [read_length]
  · intro i hi hb
    have hle : base ≤ base + a.length + i := by omega
    have hidx : (base + (a.length : Int) + i - base).toNat = a.length + i := by omega
    simp only [Pluto.read, List.getElem_map, List.getElem_range, bufMem]
    rw [if_pos hle, hidx, List.getD_eq_getElem?_getD, List.append_assoc,
      List.getElem?_append_right (by omega), Nat.add_sub_cancel_left, List.getElem?_append_left hb,
      List.getElem?_eq_getElem hb]
    rfl

/-- the packet of a record, when its segments are at the start of `buf` -/
theorem content_record (base : Int) (p : Record) (rest : Bytes) :
    content (bufMem base (p.seg0 ++ p.seg1 ++ rest), packetOf base p.vars) = p.content := by
  have h0 : (packetOf base p.vars).seg0 (bufMem base (p.seg0 ++ p.seg1 ++ rest)) = p.seg0 := by
    have hread := read_bufMem base [] p.seg0 (p.seg1 ++ rest)
    rw [List.nil_append, ← List.append_assoc, List.length_nil] at hread
    show Pluto.read _ base p.seg0.length = _
    rwa [show base + ((0 : Nat) : Int) = base from add_zero base] at hread
  have h1 : (packetOf base p.vars).seg1 (bufMem base (p.seg0 ++ p.seg1 ++ rest)) = p.seg1 := by
    by_cases hne : p.seg1 = []
    · show Pluto.read _ _ p.seg1.length = p.seg1
      rw [hne]
      rfl
    · have hpos : p.vars.size1 ≠ 0 := by
        have := List.length_pos_of_ne_nil hne
        show (p.seg1.length : Int) ≠ 0
        omega
      have hdata : (packetOf base p.vars).data1 = base + p.seg0.length := if_pos hpos
      show Pluto.read _ (packetOf base p.vars).data1 p.seg1.length = _
      rw [hdata]
      exact read_bufMem base p.seg0 p.seg1 rest
  unfold content
  rw [show (packetOf base p.vars).payload _ = _ from congrArg₂ (· ++ ·) h0 h1]
  rfl

/-- one packet of a recording -/
theorem muxPacket_record (base : Int) {r : Reader} {p : Record} {rest : Bytes} (h : Ready 42 r)
    (htext : r.text = p.text ++ zeros 22) (hfp : r.fp0 = p.seg0 ++ (p.seg1 ++ rest))
    (calls : List (Mem × AVPacket)) :
    ∃ r' c, muxPacket base r calls = some (r', calls ++ [c]) ∧ r'.fp0 = rest ∧ Ready 42 r' ∧
      r'.vars = p.vars ∧
      content c = p.content := by
  have hroom := p.room
  have hboth : 0 + (p.seg0 ++ p.seg1).length ≤ bufSize := by rw [List.length_append]; omega
  have hseg0 : 0 + p.seg0.length ≤ bufSize := by omega
  -- the buffer behind both reads
  have hbuf : ∃ r', (if p.vars.size1 ≠ 0 then
        Reader.readBuf p.vars.size0 p.vars.size1
          { r with fp0 := p.seg1 ++ rest, buf := overlay r.buf 0 p.seg0, vars := p.vars }
      else some { r with fp0 := p.seg1 ++ rest, buf := overlay r.buf 0 p.seg0, vars := p.vars })
        = some r' ∧
      r' = { r with fp0 := rest, buf := overlay r.buf 0 (p.seg0 ++ p.seg1), vars := p.vars } := by
    by_cases hne : p.seg1 = []
    · have hzero : ¬ p.vars.size1 ≠ 0 := by
        show ¬ (p.seg1.length : Int) ≠ 0
        rw [hne]
        simp
      rw [if_neg hzero, hne, List.nil_append, List.append_nil]
      exact ⟨_, rfl, rfl⟩
    · have hpos : p.vars.size1 ≠ 0 := by
        have := List.length_pos_of_ne_nil hne
        show (p.seg1.length : Int) ≠ 0
        omega
      have hready : Ready 42
          { r with fp0 := p.seg1 ++ rest, buf := overlay r.buf 0 p.seg0, vars := p.vars } :=
        ⟨h.text, h.nul, h.stored hseg0⟩
      have hread := hready.readBuf hroom rfl
      have happend := overlay_append r.buf p.seg0 p.seg1 0
      rw [Nat.zero_add] at happend
      rw [if_pos hpos, ← happend]
      exact ⟨_, hread, rfl⟩
  obtain ⟨r', hsecond, rfl⟩ := hbuf
  have hlong : (p.seg0 ++ p.seg1).length ≤ r.buf.length := by rw [h.buf]; omega
  have hstart := overlay_start r.buf (p.seg0 ++ p.seg1) hlong
  have hinside : Inside p.vars (overlay r.buf 0 (p.seg0 ++ p.seg1)) := by
    refine ⟨Int.natCast_nonneg _, Int.natCast_nonneg _, ?_⟩
    rw [h.stored hboth]
    show (p.seg0.length : Int) + p.seg1.length ≤ bufSize
    omega
  refine ⟨⟨rest, r.text, overlay r.buf 0 (p.seg0 ++ p.seg1), p.vars⟩,
    (bufMem base (overlay r.buf 0 (p.seg0 ++ p.seg1)), packetOf base p.vars), ?_, rfl,
    ⟨h.text, h.nul, h.stored hboth⟩, rfl, ?_⟩
  · unfold muxPacket
    rw [h.packet htext hfp, Option.bind_some]
    dsimp only
    rw [hsecond, Option.bind_some]
    exact if_pos hinside
  · rw [hstart]
    exact content_record base p _

/-- the packets of the muxer have the contents of the records, and the variables are those of the
last one -/
structure Handed (ps : List Record) (v : Vars) (calls : List (Mem × AVPacket)) : Prop where
  contents : calls.map content = ps.map Record.content
  vars : ∀ p ∈ ps.getLast?, v = p.vars

theorem muxBody_keeps (base : Int) : Keeps (muxBody base) Handed := by
  intro done p r calls rest hI hr htext hfp
  obtain ⟨r', c, hrun, hfp', hready', hvars, hc⟩ := muxPacket_record base hr htext hfp calls
  refine ⟨r', _, hrun, hfp', hready', ?_, ?_⟩
  · rw [List.map_append, List.map_append, hI.contents, List.map_singleton, List.map_singleton, hc]
  · intro q hq
    rw [List.getLast?_concat] at hq
    cases hq
    exact hvars

/-! ## the recording, for the muxer -/

/-- the context behind the calls in front of the header -/
def testContext (raw_time : Int) (words keyframes : Nat → UInt32) (vcsd acsd : Block) :
    AVFormatContext :=
  (mp4MuxerOpen raw_time words keyframes).commands
    [.trackInfo testTrackInfo, .csd vcsd .video, .csd acsd .audio]

/-- a recording that the muxer can write -/
structure Recording.Playable (env : Env) (R : Recording) : Prop where
  nonempty : R.packets ≠ []
  avcc : AvccWritable env.heap R.video.csd
  started : ∀ p ∈ R.packets, p.track = .video → 1 ≤ p.seg0.length ∧ 5 ≤ p.payload.length
  capacity : ∀ t, (R.track t).length ≤ 32768 ∧ runCount t none (R.packets.map Record.track) ≤ 8192
  data : (R.packets.map fun p => p.payload.length).sum < 2 ^ 28

theorem codecType_trackIdx (t : CodecType) : codecType (trackIdx t) = some t := by
  cases t <;> rfl

/-- the bytes of a packet in the file, by its content -/
def Content.sample (x : Content) : CodecType → Bytes
  | .video => be 4 (x.size0 + x.size1 - 4) ++ x.payload.drop 4
  | .audio => x.payload

theorem content_sample (c : Mem × AVPacket) (t : CodecType) :
    (content c).sample t = sample c.1 c.2 t := by
  cases t <;> rfl

section
variable {ps : List Record} {v : Vars} {calls : List (Mem × AVPacket)} (h : Handed ps v calls)
include h

theorem Handed.mem {c : Mem × AVPacket} (hc : c ∈ calls) : ∃ p ∈ ps, content c = p.content := by
  have hmem : content c ∈ ps.map Record.content := h.contents ▸ List.mem_map_of_mem hc
  obtain ⟨p, hp, heq⟩ := List.mem_map.mp hmem
  exact ⟨p, hp, heq.symm⟩

theorem Handed.streams_eq : streamsOf calls = ps.map Record.track := by
  have hview : streamsOf calls = (calls.map content).filterMap fun x => codecType x.stream_idx := by
    rw [List.filterMap_map]
    rfl
  rw [hview, h.contents, List.filterMap_map, ← List.filterMap_eq_map]
  congr 1
  funext p
  exact codecType_trackIdx p.track

theorem Handed.samples_eq :
    samples calls = ps.map fun p => (p.track, p.content.sample p.track) := by
  have hview : samples calls
      = (calls.map content).filterMap fun x => (codecType x.stream_idx).map fun t =>
        (t, x.sample t) := by
    rw [List.filterMap_map]
    unfold samples
    apply List.filterMap_congr
    intro c _
    apply Option.map_congr
    intro t _
    show (t, sample c.1 c.2 t) = (t, (content c).sample t)
    rw [content_sample]
  rw [hview, h.contents, List.filterMap_map, ← List.filterMap_eq_map]
  congr 1
  funext p
  show (codecType (trackIdx p.track)).map _ = _
  rw [codecType_trackIdx]
  rfl

/-- the packets of a track -/
theorem Handed.track (t : CodecType) :
    (callsOf t calls).map content = (ps.filter (·.track = t)).map Record.content := by
  have hview : (callsOf t calls).map content = (calls.map content).filter fun x =>
    codecType x.stream_idx = some t := by
    rw [List.filter_map]
    rfl
  rw [hview, h.contents, List.filter_map]
  congr 1
  apply List.filter_congr
  intro p _
  show decide (codecType (trackIdx p.track) = some t) = _
  rw [codecType_trackIdx]
  exact decide_eq_decide.mpr Option.some_inj

theorem Handed.started (hstarted : ∀ p ∈ ps, p.track = .video →
    1 ≤ p.seg0.length ∧ 5 ≤ p.payload.length) :
    Streamed calls ∧ Started calls := by
  constructor
  · intro c hc
    obtain ⟨p, -, hp⟩ := h.mem hc
    have hidx : c.2.stream_idx = trackIdx p.track := congrArg Content.stream_idx hp
    rw [hidx]
    cases p.track with
    | video => exact .inl rfl
    | audio => exact .inr rfl
  · intro c hc hvideo
    obtain ⟨p, hmem, hp⟩ := h.mem hc
    have hidx : c.2.stream_idx = trackIdx p.track := congrArg Content.stream_idx hp
    have h0 : c.2.size0 = p.seg0.length := congrArg Content.size0 hp
    have h1 : c.2.size1 = p.seg1.length := congrArg Content.size1 hp
    have htrack : p.track = .video := by
      rw [hvideo] at hidx
      cases ht : p.track with
      | video => rfl
      | audio =>
        rw [ht] at hidx
        exact absurd hidx (by decide)
    have hsizes := hstarted p hmem htrack
    rw [Record.payload, List.length_append] at hsizes
    omega

/-- the size of the file is that of the packets -/
theorem Handed.payload_length (hstarted : ∀ p ∈ ps, p.track = .video →
    1 ≤ p.seg0.length ∧ 5 ≤ p.payload.length) :
    (payload (samples calls)).length = (ps.map fun p => p.payload.length).sum := by
  rw [h.samples_eq, payload, List.length_flatMap, List.map_map]
  congr 1
  apply List.map_congr_left
  intro p hp
  show (p.content.sample p.track).length = _
  have hlen : p.seg0.length + p.seg1.length = p.payload.length := (List.length_append).symm
  cases ht : p.track with
  | audio => rfl
  | video =>
    have hfive := (hstarted p hp ht).2
    show (be 4 (p.seg0.length + p.seg1.length - 4) ++ p.payload.drop 4).length = _
    rw [List.length_append, be_length, List.length_drop]
    omega

end

section
variable {env : Env} {R : Recording} {v : Vars} {calls : List (Mem × AVPacket)} (raw_time : Int)
  (words keyframes : Nat → UInt32) (vcsd acsd : Block)

theorem Recording.Playable.recordable (h : R.Playable env) (hc : Handed R.packets v calls)
    (hv : vcsd.val = R.video.csd) (ha : acsd.val = R.audio.csd) :
    Recordable env (testContext raw_time words keyframes vcsd acsd) calls where
  opened := ⟨raw_time, words, keyframes, _, rfl⟩
  count := le_rfl
  h264 := rfl
  scales := by
    intro t _
    cases t with
    | video => exact (by decide : (1000 : Int) ≠ 0)
    | audio => exact (by decide : (8000 : Int) ≠ 0)
  csd := by
    have hroom : bufSize < 2 ^ 27 := by decide
    intro t
    cases t with
    | video =>
      show vcsd.val.length < 2 ^ 27
      rw [hv]
      exact R.video.room.trans_lt hroom
    | audio =>
      show acsd.val.length < 2 ^ 27
      rw [ha]
      exact R.audio.room.trans_lt hroom
  avcc := by
    show AvccWritable env.heap vcsd.val
    rw [hv]
    exact h.avcc
  nonempty := by
    intro hnil
    have hlen := congrArg List.length hc.contents
    rw [hnil, List.length_map, List.length_map] at hlen
    exact h.nonempty (List.eq_nil_of_length_eq_zero hlen.symm)
  streamed := (hc.started h.started).1
  started := (hc.started h.started).2
  capacity := by
    intro t
    rw [hc.streams_eq]
    refine ⟨?_, (h.capacity t).2⟩
    have hcount : (R.packets.map Record.track).count t = (R.track t).length := by
      rw [List.count, List.countP_map, List.countP_eq_length_filter]
      rfl
    rw [hcount]
    exact (h.capacity t).1
  data := by
    rw [hc.payload_length h.started]
    exact h.data

end

/-! ## the samples of a recording -/

/-- what a player should get of a packet: a video packet without its start code -/
def Content.unit (x : Content) : CodecType → Bytes
  | .video => x.payload.drop 4
  | .audio => x.payload

/-- in milliseconds behind the first picture, or in samples of sound -/
def Recording.time (R : Recording) (k : Nat) : CodecType → Nat
  | .video =>
    (((R.track .video).map Record.pts).getD k 0 - ((R.track .video).map Record.pts).getD 0 0).toNat
  | .audio => k * 1024

/-- a picture with an IDR unit behind the start code, or any sound -/
def Content.sync (x : Content) : CodecType → Bool
  | .video => decide (byteAt x.payload 4 &&& 0x1f = 5)
  | .audio => true

def Recording.samples (R : Recording) (t : CodecType) : List Sample :=
  (R.track t).mapIdx fun k p => ⟨p.content.unit t, R.time k t, p.content.sync t⟩

/-- the durations of the pictures are the times between them, but for the first one -/
def Recording.Gaps (R : Recording) : Prop :=
  ∀ k (_ : k + 1 < (R.track .video).length),
    (R.track .video)[k + 1].dura = (R.track .video)[k + 1].pts - (R.track .video)[k].pts ∧
    0 ≤ (R.track .video)[k + 1].dura ∧ (R.track .video)[k + 1].dura < 2 ^ 31

theorem mapIdx_map {α β γ : Type} (f : α → β) (g : Nat → β → γ) (l : List α) :
    (l.map f).mapIdx g = l.mapIdx fun k a => g k (f a) := by
  apply List.ext_getElem
  · simp
  · simp

section
variable {R : Recording} {v : Vars} {calls : List (Mem × AVPacket)} (hc : Handed R.packets v calls)
include hc

theorem Handed.pts :
    (packetsOf .video calls).map AVPacket.pts = (R.track .video).map Record.pts := by
  have hmap := congrArg (List.map Content.pts) (hc.track .video)
  rw [List.map_map, List.map_map] at hmap
  rw [← callsOf_packets, List.map_map]
  exact hmap

theorem Handed.duration :
    (packetsOf .video calls).map AVPacket.duration = (R.track .video).map Record.dura := by
  have hmap := congrArg (List.map Content.duration) (hc.track .video)
  rw [List.map_map, List.map_map] at hmap
  rw [← callsOf_packets, List.map_map]
  exact hmap

theorem Handed.gaps (hgaps : R.Gaps) : Gaps (packetsOf .video calls) := by
  intro k hk
  have hlen : (packetsOf .video calls).length = (R.track .video).length := by
    have := congrArg List.length hc.pts
    rwa [List.length_map, List.length_map] at this
  have hpts : ∀ i (hi : i < (packetsOf .video calls).length),
      (packetsOf .video calls)[i].pts = (R.track .video)[i].pts := by
    intro i hi
    have hget := List.getElem_of_eq hc.pts (by rwa [List.length_map])
    rwa [List.getElem_map, List.getElem_map] at hget
  have hdura : (packetsOf .video calls)[k + 1].duration = (R.track .video)[k + 1].dura := by
    have hget := List.getElem_of_eq hc.duration (by rwa [List.length_map])
    rwa [List.getElem_map, List.getElem_map] at hget
  rw [hdura, hpts (k + 1) hk, hpts k (by omega)]
  exact hgaps k (by omega)

theorem Handed.recorded_eq {ctx : AVFormatContext} (hframe : (ctx.streams .audio).frame_size = 1024)
    (t : CodecType) :
    recorded ctx calls t = R.samples t := by
  have hview : recorded ctx calls t = ((callsOf t calls).map content).mapIdx fun k x =>
      ⟨x.unit t, timeOf ctx calls k t, x.sync t⟩ := by
    rw [mapIdx_map]
    cases t <;> rfl
  have htime : ∀ k, timeOf ctx calls k t = R.time k t := by
    intro k
    cases t with
    | video =>
      unfold timeOf ptsOf Recording.time
      dsimp only
      rw [hc.pts]
    | audio =>
      unfold timeOf Recording.time
      dsimp only
      rw [hframe]
      rfl
  rw [hview, hc.track t, mapIdx_map]
  unfold Recording.samples
  congr 1
  funext k p
  rw [htime]

end

/-! ## the file -/

section
variable {env : Env} {R : Recording} (raw_time : Int) (words keyframes : Nat → UInt32)
  {s : MmStreamInfo} {mpCache buf : Bytes} (base : Int) (v : Vars)

theorem Ready.writeCsd {k : Nat} {r r' : Reader} (h : Ready k r) {t : CodecType} (c : CsdRecord t)
    (hbuf : r'.buf = overlay r.buf 0 c.csd)
    (hvars : r'.vars = { r.vars with idx := trackIdx t, size0 := c.csd.length }) :
    ∃ b : Block, writeCsd r' = some (.csd b t) ∧ b.val = c.csd := by
  have hshort : c.csd.length < 2 ^ 31 := c.room.trans_lt (by decide)
  have hroom : c.csd.length ≤ r.buf.length := c.room.trans h.buf.ge
  have hidx : r'.vars.idx = trackIdx t := by rw [hvars]
  have hsize : r'.vars.size0 = c.csd.length := by rw [hvars]
  have hlong : (c.csd.length : Int) ≤ r'.buf.length := by
    rw [hbuf, overlay_start _ _ hroom, List.length_append]
    omega
  have hwrite : fwrite r'.buf c.csd.length = some c.csd := by
    unfold fwrite
    rw [if_pos ⟨Int.natCast_nonneg _, hlong⟩, Int.toNat_natCast, hbuf, overlay_start _ _ hroom,
      List.take_left]
  refine ⟨⟨c.csd, hshort⟩, ?_, rfl⟩
  unfold Avbs.writeCsd
  rw [hidx, codecType_trackIdx, Option.bind_some, hsize, hwrite, Option.bind_some, dif_pos hshort]

/-- the program is a session of the muxer with the packets of the recording -/
theorem muxerTest_file (env : Env) (R : Recording) (s : MmStreamInfo) (mpCache : Bytes)
    (hbuf : buf.length = bufSize) :
    ∃ vcsd acsd calls v', vcsd.val = R.video.csd ∧ acsd.val = R.audio.csd ∧
      Handed R.packets v' calls ∧
      muxerTest env raw_time words keyframes s mpCache base R.file buf v
        = mp4File env (testContext raw_time words keyframes vcsd acsd) s mpCache 4096 calls
            (some ((v'.pts + v'.dura).bmod (2 ^ 32))) := by
  have hready : Ready 0 ⟨R.file, zeros 64, buf, v⟩ := ⟨rfl, rfl, hbuf⟩
  obtain ⟨r₁, hcsd₁, hfp₁, hready₁, hbuf₁, hvars₁⟩ := hready.csd (by omega) R.video rfl
  obtain ⟨r₂, hcsd₂, hfp₂, hready₂, hbuf₂, hvars₂⟩ := hready₁.csd le_rfl R.audio hfp₁
  obtain ⟨vcsd, hv, hvval⟩ := hready.writeCsd R.video hbuf₁ hvars₁
  obtain ⟨acsd, ha, haval⟩ := hready₁.writeCsd R.audio hbuf₂ hvars₂
  have hstart : Handed [] r₂.vars [] := ⟨rfl, fun p hp => absurd hp (by simp)⟩
  obtain ⟨r', calls, hloop, hhanded⟩ :=
    whileText_records (muxBody base) (muxBody_keeps base) (by decide) hready₂ hstart hfp₂
  refine ⟨vcsd, acsd, calls, r'.vars, hvval, haval, hhanded, ?_⟩
  unfold muxerTest
  rw [hcsd₁, Option.bind_some, hv, Option.bind_some, hcsd₂, Option.bind_some, ha, Option.bind_some,
    hloop, Option.bind_some]
  rfl

/-- **A recording is recorded.**  The test program makes an MP4 file of every playable recording.  A
player gets out of it the packets of each track, in their order and at their times; and it finds the
size of the picture and the last parameter sets of the codec-specific data of the video track, if
these are NAL units behind start codes of four bytes, and the sound format and the codec-specific
data of the audio track. -/
theorem test_played (h : R.Playable env) (hbuf : buf.length = bufSize) (hfull : s.AlwaysFull)
    (hempty : s.contents = []) (hpos : s.pos = 0) (hlen : mpCache.length = 4096) :
    ∃ out, muxerTest env raw_time words keyframes s mpCache base R.file buf v = some out ∧
      (∀ t, R.track t ≠ [] → (t = .video → R.Gaps) → play out.2.1 t = some (R.samples t)) ∧
      (R.track .video ≠ [] → ∀ (us : List Bytes) (sps pps : Bytes),
        R.video.csd = stream (us.map (true, ·)) →
        (∀ u ∈ us, Payload u ∧ 4 ≤ u.length ∧ u.length ≤ 65535) →
        (us.filter (nalType · = 7)).getLast? = some sps →
        (us.filter (nalType · = 8)).getLast? = some pps →
        videoSetup out.2.1 = some ⟨(fourcc 'a' 'v' 'c' '1').val, 1280, 720, sps, pps⟩) ∧
      (R.track .audio ≠ [] → R.audio.csd ≠ [] →
        audioSetup out.2.1 = some ⟨(fourcc 'm' 'p' '4' 'a').val, 1, 16, 8000, R.audio.csd⟩) := by
  obtain ⟨vcsd, acsd, calls, v', hv, ha, hc, hfile⟩ :=
    muxerTest_file raw_time words keyframes base v env R s mpCache hbuf
  have hrecordable := h.recordable raw_time words keyframes vcsd acsd hc hv ha
  have hcache : (mpCache.length : Int) = 4096 := by rw [hlen]; rfl
  obtain ⟨out, hout, hplay⟩ :=
    hrecordable.plays hfull hempty hpos (by decide) hcache (some ((v'.pts + v'.dura).bmod (2 ^ 32)))
  obtain ⟨out', hout', hvideo, haudio⟩ :=
    hrecordable.sets_up hfull hempty hpos (by decide) hcache
      (some ((v'.pts + v'.dura).bmod (2 ^ 32)))
  have hsame : out' = out := Option.some.inj (hout'.symm.trans hout)
  have hcalls : ∀ t, R.track t ≠ [] → callsOf t calls ≠ [] := by
    intro t ht hnil
    have htrack := hc.track t
    rw [hnil] at htrack
    exact ht (List.map_eq_nil_iff.mp htrack.symm)
  have hbelow : ∀ t, t ∈ streamsBelow
      (testContext raw_time words keyframes vcsd acsd).mTrackCnt := by
    intro t
    show t ∈ [CodecType.video, CodecType.audio]
    cases t <;> simp
  rw [hsame] at hvideo haudio
  refine ⟨out, hfile.trans hout, ?_, ?_, ?_⟩
  · intro t ht hgaps
    rw [hplay t (hbelow t) (hcalls t ht) fun hvideo => hc.gaps (hgaps hvideo), hc.recorded_eq rfl]
  · intro ht us sps pps hcsd hu hsps hpps
    exact hvideo (hbelow _) (hcalls _ ht) us sps pps (hv.trans hcsd) hu hsps hpps
  · intro ht hne
    have hset := haudio (hbelow _) (hcalls _ ht) rfl (by show acsd.val ≠ []; rw [ha]; exact hne)
    rw [show ((testContext raw_time words keyframes vcsd acsd).priv_data.tracks .audio).csdData.val
      = R.audio.csd from ha]
      at hset
    exact hset

end

theorem smallRecording_playable : smallRecording.Playable smallEnv where
  nonempty := List.cons_ne_nil _ _
  avcc := by decide +kernel
  started := by
    intro p hp _
    simp only [smallRecording, List.mem_cons, List.not_mem_nil, or_false] at hp
    rcases hp with rfl | rfl | rfl
    · exact ⟨by decide, by decide⟩
    · contradiction
    · exact ⟨by decide, by decide⟩
  capacity := by
    intro t
    cases t <;> decide
  data := by decide

theorem smallRecording_gaps : smallRecording.Gaps := by
  intro k hk
  have hlen : (smallRecording.track .video).length = 2 := by decide
  have hk0 : k = 0 := by omega
  subst hk0
  decide +revert

/-- the three packets of the recording -/
theorem test_played_small :
    ∃ out, muxerTest smallEnv 0 (fun _ => 0) (fun _ => 0) newFile (zeros 4096) 4096
        smallRecording.file (zeros bufSize) ⟨0, 0, 0, 0, 0, 0⟩ = some out ∧
      play out.2.1 .video = some [⟨[0x65, 7, 8], 0, true⟩, ⟨[0x41], 40, false⟩] ∧
      play out.2.1 .audio = some [⟨[1, 2, 3], 0, true⟩] ∧
      videoSetup out.2.1 = some ⟨[0x61, 0x76, 0x63, 0x31], 1280, 720, [0x67, 0x42, 0xc0, 0x1e],
        [0x68, 0xce, 0x3c, 0x80]⟩ ∧
      audioSetup out.2.1 = some ⟨[0x6d, 0x70, 0x34, 0x61], 1, 16, 8000, [0x14, 0x08]⟩ := by
  obtain ⟨out, hout, hplay, hvideo, haudio⟩ :=
    test_played (R := smallRecording) 0 (fun _ => 0) (fun _ => 0) 4096
      ⟨0, 0, 0, 0, 0, 0⟩ smallRecording_playable (zeros_length bufSize) newFile_full
        rfl rfl (zeros_length 4096)
  have htrack : ∀ t, smallRecording.track t ≠ [] := by
    intro t
    cases t <;> decide
  refine ⟨out, hout, ?_, ?_, ?_, ?_⟩
  · rw [hplay .video (htrack .video) fun _ => smallRecording_gaps]
    exact congrArg some (by decide)
  · rw [hplay .audio (htrack .audio) fun h => absurd h (by decide)]
    exact congrArg some (by decide)
  · exact hvideo (htrack .video) [[0x67, 0x42, 0xc0, 0x1e], [0x68, 0xce, 0x3c, 0x80]]
      _ _ rfl (by decide) rfl rfl
  · exact haudio (htrack .audio) (List.cons_ne_nil _ _)

end Pluto.Avbs

import Pluto.Bytes.Signed
import Pluto.Mp4.Timeline

/-!
# The durations of a session

`SET_TOTAL_TIME` turns milliseconds into the time scale of each track, rounded down, and `tkhd`
turns the duration of the track back into milliseconds, rounded up.

* `totalTimeChecked`, `avRescaleChecked` the two conversions with their 64-bit operations, none
                         where one of them overflows;
* `ceil_floor`           they cancel where the scale is at least 1000;
* `MOVContext.clock`     what a track keeps from the commands to the trailer;
* `durations_exact`      `mvhd` and both `tkhd` hold the total time.
-/

namespace Pluto.Mp4
open Octets Boxes SampleTables Signed

/-! ## the two conversions -/

/-- `((int64_t)param * timescale) / 1000` -/
def totalTimeChecked (param timescale : Int) : Option Int :=
  (check 64 (param * timescale)).map fun x => x.tdiv 1000

/-- `av_rescale_rnd`: three operations of `int64_t`, a division, and the `int` that it returns -/
def avRescaleChecked (a b c : Int) : Option Int :=
  (check 64 (a * b)).bind fun x => (check 64 (x + c)).bind fun x => (check 64 (x - 1)).bind fun x =>
    check 32 (x.tdiv c)

theorem totalTimeChecked_some {param timescale d : Int}
    (h : totalTimeChecked param timescale = some d) :
    (param * timescale).tdiv 1000 = d := by
  obtain ⟨x, hx, rfl⟩ := Option.map_eq_some_iff.mp h
  rw [(check_some.mp hx).2]

theorem avRescaleChecked_some {a b c d : Int} (h : avRescaleChecked a b c = some d) :
    avRescaleRnd a b c = d := by
  obtain ⟨x, hx, h⟩ := Option.bind_eq_some_iff.mp h
  obtain ⟨y, hy, h⟩ := Option.bind_eq_some_iff.mp h
  obtain ⟨z, hz, h⟩ := Option.bind_eq_some_iff.mp h
  rw [avRescaleRnd, (check_some.mp hx).2, (check_some.mp hy).2, (check_some.mp hz).2,
    (check_some.mp h).2]

/-- what is lost below is less than one unit above -/
theorem ceil_floor (p : Int) {n : Int} (hn : 1000 ≤ n) : (p * n / 1000 * 1000 + n - 1) / n = p := by
  have hmod := Int.emod_nonneg (p * n) (by norm_num : (1000 : Int) ≠ 0)
  have hlt := Int.emod_lt_of_pos (p * n) (by norm_num : (0 : Int) < 1000)
  have hdiv := Int.mul_ediv_add_emod (p * n) 1000
  have hsum : p * n / 1000 * 1000 + n - 1 = n * p + (n - 1 - p * n % 1000) := by
    rw [mul_comm n p]
    omega
  rw [hsum, Int.add_ediv_of_dvd_left (dvd_mul_right n p), Int.mul_ediv_cancel_left p (by omega),
    Int.ediv_eq_zero_of_lt (by omega) (by omega), add_zero]

/-- **The conversions cancel**, and none of their operations overflows. -/
theorem conversions_exact {p n : Int} (h0 : 0 ≤ p) (hp : p < 2 ^ 31) (hn : 1000 ≤ n)
    (hlt : n < 2 ^ 31) :
    ∃ d, totalTimeChecked p n = some d ∧ avRescaleChecked d globalTimescale n = some p := by
  have hprod : 0 ≤ p * n ∧ p * n < 2 ^ 62 := by
    refine ⟨mul_nonneg h0 (by omega), ?_⟩
    calc p * n ≤ (2 ^ 31 - 1) * n := mul_le_mul_of_nonneg_right (by omega) (by omega)
      _ ≤ (2 ^ 31 - 1) * 2 ^ 31 := mul_le_mul_of_nonneg_left (by omega) (by norm_num)
      _ < 2 ^ 62 := by norm_num
  have hround := ceil_floor p hn
  have hdown : (p * n).tdiv 1000 = p * n / 1000 := Int.tdiv_eq_ediv_of_nonneg hprod.1
  have hback : p * n / 1000 * 1000 ≤ p * n := Int.ediv_mul_le _ (by norm_num)
  have hpos : 0 ≤ p * n / 1000 * 1000 := by omega
  refine ⟨p * n / 1000, ?_, ?_⟩
  · unfold totalTimeChecked
    rw [check_eq ⟨by norm_num; omega, by norm_num; omega⟩, Option.map_some, hdown]
  · unfold avRescaleChecked globalTimescale
    have hup : (p * n / 1000 * 1000 + n - 1).tdiv n = p := by
      rw [Int.tdiv_eq_ediv_of_nonneg (by omega), hround]
    rw [check_eq ⟨by norm_num; omega, by norm_num; omega⟩, Option.bind_some,
      check_eq ⟨by norm_num; omega, by norm_num; omega⟩, Option.bind_some,
      check_eq ⟨by norm_num; omega, by norm_num; omega⟩, Option.bind_some, hup,
      check_eq ⟨by norm_num; omega, by norm_num; omega⟩]

/-! ## the fields -/

theorem mvhd_fields (mov : MOVContext) :
    slice (mvhdBox mov).body 12 4 = be 4 (u32 mov.timescale) ∧
      slice (mvhdBox mov).body 16 4 = be 4 (u32 (mov.tracks .video).trackDuration) := by
  obtain ⟨back, hback⟩ : ∃ back, emitted (mvhdFields mov)
      = (be 1 0 ++ be 3 0 ++ be 4 (u32 mov.create_time) ++ be 4 (u32 mov.create_time))
        ++ be 4 (u32 mov.timescale)
        ++ (be 4 (u32 (mov.tracks .video).trackDuration) ++ back) := by
    unfold mvhdFields
    simp only [emitted_append, emitted_putBe32, emitted_putBe24, emitted_putBe16, emitted_putByte,
      List.append_assoc]
    exact ⟨_, rfl⟩
  rw [mvhdBox, leaf_body, hback]
  constructor
  · exact slice_mid (be 1 0 ++ be 3 0 ++ be 4 (u32 mov.create_time) ++ be 4 (u32 mov.create_time))
      _ _
  · rw [← List.append_assoc]
    exact slice_mid (be 1 0 ++ be 3 0 ++ be 4 (u32 mov.create_time) ++ be 4 (u32 mov.create_time)
      ++ be 4 (u32 mov.timescale)) _ _

theorem tkhd_field (track : MOVTrack) :
    slice (tkhdBox track).body 20 4
      = be 4 (u32 (avRescaleRnd track.trackDuration globalTimescale track.timescale)) := by
  obtain ⟨back, hback⟩ : ∃ back, emitted (tkhdFields track)
      = (be 1 0 ++ be 3 0xf ++ be 4 (u32 track.time) ++ be 4 (u32 track.time)
        ++ be 4 (u32 track.trackID) ++ be 4 0)
        ++ be 4 (u32 (avRescaleRnd track.trackDuration globalTimescale track.timescale))
            ++ back := by
    unfold tkhdFields
    dsimp only
    simp only [emitted_append, emitted_putBe32, emitted_putBe24, emitted_putBe16, emitted_putByte,
      List.append_assoc]
    exact ⟨_, rfl⟩
  rw [tkhdBox, leaf_body, hback]
  exact slice_mid (be 1 0 ++ be 3 0xf ++ be 4 (u32 track.time) ++ be 4 (u32 track.time)
    ++ be 4 (u32 track.trackID)
    ++ be 4 0) _ _

/-- the boxes in the tree -/
theorem moov_mvhd (env : Env) (mov : MOVContext) :
    (moovBox env mov).child (fourcc 'm' 'v' 'h' 'd') = some (mvhdBox mov) := by
  show (udtaBoxes mov ++ mvhdBox mov :: _).find? _ = _
  unfold udtaBoxes
  split <;> rfl

theorem trak_tkhd (env : Env) (mov : MOVContext) (track : MOVTrack) :
    (trakBox env mov track).child (fourcc 't' 'k' 'h' 'd') = some (tkhdBox track) := rfl

/-! ## the clock of a track -/

/-- the time scale and the duration of a track -/
def MOVContext.clock (mov : MOVContext) (t : CodecType) : Int × Int :=
  ((mov.tracks t).timescale, (mov.tracks t).trackDuration)

theorem setTrack_clock (mov : MOVContext) (t : CodecType) {f : MOVTrack → MOVTrack}
    (hscale : ∀ trk, (f trk).timescale = trk.timescale)
    (hduration : ∀ trk, (f trk).trackDuration = trk.trackDuration) :
    (mov.setTrack t f).clock = mov.clock := by
  funext u
  unfold MOVContext.clock
  rw [setTrack_tracks]
  split
  · rename_i hu
    rw [hscale, hduration, hu]
  · rfl

/-- no packet changes the clock -/
theorem record_clock {mov : MOVContext} {x : Layout CodecType} (hx : Counted mov x)
    (streams : CodecType → AVCodecContext) (t : CodecType) (m : Mem) (pkt : AVPacket) :
    (mov.record streams t m pkt).clock = mov.clock := by
  have hcount : (mov.countPacket t (pkt.size0 + pkt.size1)).clock = mov.clock := by
    funext u
    unfold MOVContext.clock
    rw [countPacket_tracks hx]
  unfold MOVContext.record
  cases t with
  | audio => exact hcount
  | video =>
    have hduration : ((mov.countPacket .video (pkt.size0 + pkt.size1)).countDuration
        pkt.duration).clock = mov.clock := by
      rw [← hcount]
      funext u
      unfold MOVContext.clock
      rw [countDuration_tracks]
    dsimp only
    split
    · rw [← hduration]
      funext u
      unfold MOVContext.clock
      rw [countKeyFrame_tracks]
    · exact hduration

theorem packets_clock {ctx : AVFormatContext} (h : Fresh ctx) {calls : List (Mem × AVPacket)}
    (hs : Streamed calls) {r : List CacheWrite × AVFormatContext}
    (hr : packets ctx.headed calls = some r) :
    r.2.priv_data.clock = ctx.headed.priv_data.clock := by
  have hrun :=
    packets_run (P := fun mov es => Tracked ctx.headed.priv_data.setup mov es ∧
      mov.clock = ctx.headed.priv_data.clock)
    ctx.headed [] rfl rfl hs (fun mov es t c _ _ _ hmov => ?_) ⟨h.tracked, rfl⟩ hr
  · exact hrun.2
  · exact ⟨hmov.1.record ctx.streams t _ c.1 c.2,
      (record_clock hmov.1.counted ctx.streams t c.1 c.2).trans hmov.2⟩

theorem headed_clock (ctx : AVFormatContext) :
    ctx.headed.priv_data.clock = ctx.priv_data.clock := by
  funext t
  unfold MOVContext.clock
  rw [headed_tracks]
  split <;> rfl

/-- `SET_TOTAL_TIME` in terms of the clock -/
def timed (param : Int) (clock : CodecType → Int × Int) (t : CodecType) : Int × Int :=
  ((clock t).1, (param * (clock t).1).tdiv 1000)

theorem setTotalTime_clock (ctx : AVFormatContext) (param : Int) :
    (setTotalTime ctx param).priv_data.clock = timed param ctx.priv_data.clock := by
  funext t
  unfold MOVContext.clock timed setTotalTime
  dsimp only
  rw [setTrack_tracks, setTrack_tracks]
  cases t <;> rfl

/-- the clock in front of `moov` is that of the commands, `SET_TOTAL_TIME` of the session among
them -/
theorem Parts.clock {ctx : AVFormatContext} (hf : Fresh ctx) {calls : List (Mem × AVPacket)}
    (hs : Streamed calls) {total : Option Int} {body : List CacheWrite × AVFormatContext}
    {u : CodecType} {c : Chunk} {mov : MOVContext} (h : Parts ctx calls total body u c mov) :
    mov.clock = (ctx.commands (total.toList.map .totalTime)).priv_data.clock := by
  have hbody : body.2.priv_data.clock = ctx.priv_data.clock :=
    (packets_clock hf hs h.packets).trans (headed_clock ctx)
  have hend : mov.clock = (totalTime body.2 total).priv_data.clock := by
    rw [h.context]
    exact setTrack_clock _ _ (fun _ => rfl) fun _ => rfl
  rw [hend]
  cases total with
  | none => exact hbody
  | some param =>
    show (setTotalTime body.2 param).priv_data.clock = (setTotalTime ctx param).priv_data.clock
    rw [setTotalTime_clock, setTotalTime_clock, hbody]

theorem prepared_clock (env : Env) (mov : MOVContext) :
    (mov.prepared env).clock = mov.clock ∧ (mov.prepared env).timescale = globalTimescale := by
  refine ⟨?_, ?_⟩
  · funext t
    unfold MOVContext.prepared MOVContext.fillTitle MOVContext.nameTracks MOVContext.clock
    dsimp only
    split <;> split <;> rfl
  · unfold MOVContext.prepared MOVContext.fillTitle
    split <;> rfl

/-! ## the commands -/

/-- `SET_TRACK_INFO` -/
def Command.IsTrackInfo : Command → Prop
  | .trackInfo _ => True
  | _ => False

/-- `SET_TOTAL_TIME` -/
def Command.IsTotalTime : Command → Prop
  | .totalTime _ => True
  | _ => False

theorem commands_append (ctx : AVFormatContext) (cs ds : List Command) :
    ctx.commands (cs ++ ds) = (ctx.commands cs).commands ds := List.foldl_append

theorem commands_cons (ctx : AVFormatContext) (c : Command) (cs : List Command) :
    ctx.commands (c :: cs) = (ctx.command c).commands cs := rfl

theorem writeCSD_clock (ctx : AVFormatContext) (data : Block) (idx : CodecType) :
    (mp4MuxerWriteCSD ctx data idx).priv_data.clock = ctx.priv_data.clock :=
  setTrack_clock ctx.priv_data idx (f := fun trk => { trk with csdData := data })
    (fun _ => rfl) fun _ => rfl

/-- only `SET_TRACK_INFO` changes a time scale, and only these two a duration -/
theorem commands_scale (ctx : AVFormatContext) (cs : List Command) (h : ∀ c ∈ cs, ¬ c.IsTrackInfo)
    (t : CodecType) :
    ((ctx.commands cs).priv_data.clock t).1 = (ctx.priv_data.clock t).1 := by
  induction cs generalizing ctx with
  | nil => rfl
  | cons c cs ih =>
    rw [commands_cons, ih _ fun d hd => h d (List.mem_cons_of_mem c hd)]
    cases c with
    | trackInfo info => exact absurd trivial (h _ List.mem_cons_self)
    | totalTime param =>
      have hclock := congrArg Prod.fst (congrFun (setTotalTime_clock ctx param) t)
      exact hclock
    | csd data idx =>
      have hclock := congrArg Prod.fst (congrFun (writeCSD_clock ctx data idx) t)
      exact hclock

theorem commands_clock (ctx : AVFormatContext) (cs : List Command)
    (h : ∀ c ∈ cs, ¬ c.IsTrackInfo ∧ ¬ c.IsTotalTime) :
    (ctx.commands cs).priv_data.clock = ctx.priv_data.clock := by
  induction cs generalizing ctx with
  | nil => rfl
  | cons c cs ih =>
    rw [commands_cons, ih _ fun d hd => h d (List.mem_cons_of_mem c hd)]
    have hc := h c List.mem_cons_self
    cases c with
    | trackInfo info => exact absurd trivial hc.1
    | totalTime param => exact absurd trivial hc.2
    | csd data idx => exact writeCSD_clock ctx data idx

/-- the codecs that `SET_TRACK_INFO` knows -/
def MediaTrackInfo.Supported (info : MediaTrackInfo) : Prop :=
  info.mVideoEncType = .vencH264 ∨ info.mVideoEncType = .vencJpeg

/-- the time scales that `SET_TRACK_INFO` sets -/
def scaleOf (info : MediaTrackInfo) : CodecType → Int
  | .video => 1000
  | .audio => info.mSampleRate

theorem trackInfo_scale (ctx : AVFormatContext) {info : MediaTrackInfo} (h : info.Supported)
    (t : CodecType) :
    ((setTrackInfo ctx info).2.priv_data.clock t).1 = scaleOf info t ∧
      2 ≤ (setTrackInfo ctx info).2.mTrackCnt := by
  unfold setTrackInfo
  rcases h with h | h <;>
    · rw [h]
      refine ⟨?_, Nat.le_add_left _ _⟩
      cases t <;> rfl

theorem commands_count (ctx : AVFormatContext) (cs : List Command) :
    ctx.mTrackCnt ≤ (ctx.commands cs).mTrackCnt := by
  induction cs generalizing ctx with
  | nil => exact le_rfl
  | cons c cs ih =>
    refine le_trans ?_ (ih (ctx.command c))
    cases c with
    | trackInfo info =>
      show ctx.mTrackCnt ≤ (setTrackInfo ctx info).2.mTrackCnt
      unfold setTrackInfo
      cases info.mVideoEncType <;> first | exact le_rfl | exact Nat.le_add_right ctx.mTrackCnt 2
    | totalTime param => exact le_rfl
    | csd data idx => exact le_rfl

/-- **The clock of the commands**, where the last `SET_TOTAL_TIME` stands behind the last
`SET_TRACK_INFO`. -/
theorem commands_timed (ctx : AVFormatContext) {before between behind : List Command}
    {info : MediaTrackInfo} {p : Int} (hinfo : info.Supported)
    (hbetween : ∀ c ∈ between, ¬ c.IsTrackInfo)
    (hbehind : ∀ c ∈ behind, ¬ c.IsTrackInfo ∧ ¬ c.IsTotalTime) (t : CodecType) :
    (ctx.commands (before ++ .trackInfo info
      :: (between ++ .totalTime p :: behind))).priv_data.clock t
      = (scaleOf info t, (p * scaleOf info t).tdiv 1000) := by
  rw [commands_append, commands_cons, commands_append, commands_cons,
    commands_clock _ behind hbehind]
  have hscale := commands_scale ((ctx.commands before).command (.trackInfo info)) between hbetween t
  rw [show ((ctx.commands before).command (.trackInfo info))
    = (setTrackInfo (ctx.commands before) info).2 from rfl,
    (trackInfo_scale _ hinfo t).1] at hscale
  show (setTotalTime _ p).priv_data.clock t = _
  rw [setTotalTime_clock, timed]
  exact congrArg₂ Prod.mk hscale (congrArg (fun n => (p * n).tdiv 1000) hscale)

/-- both streams are counted before the session, or the command behind its packets would count
them -/
theorem commands_below (ctx : AVFormatContext) {cmds before behind : List Command}
    {total : Option Int} {info : MediaTrackInfo}
    (hcmds : cmds ++ total.toList.map .totalTime = before ++ .trackInfo info :: behind)
    (hinfo : info.Supported) (hn : (ctx.commands cmds).mTrackCnt ≤ 2) (t : CodecType) :
    t ∈ streamsBelow (ctx.commands cmds).mTrackCnt := by
  have hcount : (ctx.commands (cmds ++ total.toList.map .totalTime)).mTrackCnt
      = (ctx.commands cmds).mTrackCnt := by
    rw [commands_append]
    cases total <;> rfl
  have h2 : 2 ≤ (ctx.commands cmds).mTrackCnt := by
    rw [← hcount, hcmds, commands_append, commands_cons]
    exact (trackInfo_scale _ hinfo .video).2.trans (commands_count _ _)
  rw [le_antisymm hn h2]
  cases t <;> decide

/-- the conversions of both tracks -/
theorem scales_exact {info : MediaTrackInfo} {p : Int} (hrate : 1000 ≤ info.mSampleRate)
    (hint : info.mSampleRate < 2 ^ 31) (h0 : 0 ≤ p) (hp : p < 2 ^ 31) (t : CodecType) :
    ∃ d, totalTimeChecked p (scaleOf info t) = some d ∧
      avRescaleChecked d globalTimescale (scaleOf info t) = some p := by
  cases t with
  | video => exact conversions_exact h0 hp (by norm_num [scaleOf]) (by norm_num [scaleOf])
  | audio => exact conversions_exact h0 hp hrate hint

/-- a field of four bytes holds every `int` that is not negative -/
theorem ofBe_be_u32 {p : Int} (h0 : 0 ≤ p) (hp : p < 2 ^ 31) : (ofBe (be 4 (u32 p)) : Int) = p := by
  rw [ofBe_be 4 _ (u32_lt p), u32]
  omega

/-! ## every session -/

/-- **The durations of a session.**  `SET_TOTAL_TIME` with `p` milliseconds comes behind
`SET_TRACK_INFO`, in front of the session or of its trailer, and no other of the two comes behind
it.  If the sample rate is at least 1000, every session with a result writes a box `moov` whose
`mvhd` has the scale 1000 and the duration `p`, and whose `tkhd` has the duration `p` for each
stream with packets; no operation of the conversions overflows. -/
theorem durations_exact (env : Env) (raw_time : Int) (words keyframes : Nat → UInt32)
    {cmds before between behind : List Command} {total : Option Int} {info : MediaTrackInfo}
    {p : Int} (hcmds : cmds ++ total.toList.map .totalTime
      = before ++ .trackInfo info :: (between ++ .totalTime p :: behind))
    (hinfo : info.Supported) (hbetween : ∀ c ∈ between, ¬ c.IsTrackInfo)
    (hbehind : ∀ c ∈ behind, ¬ c.IsTrackInfo ∧ ¬ c.IsTotalTime)
    (hrate : 1000 ≤ info.mSampleRate) (hint : info.mSampleRate < 2 ^ 31) (h0 : 0 ≤ p)
    (hp : p < 2 ^ 31) {calls : List (Mem × AVPacket)} (hs : Streamed calls)
    {session : List CacheOp × AVFormatContext}
    (h : mp4Session env ((mp4MuxerOpen raw_time words keyframes).commands cmds) calls total
      = some session) :
    (∀ t, ∃ d, totalTimeChecked p (scaleOf info t) = some d ∧
      avRescaleChecked d globalTimescale (scaleOf info t) = some p) ∧
      ∃ (moov : Box) (front back : List CacheOp) (ws : List CacheWrite),
        session.1 = front ++ writeOps ws ++ back ∧
        emitted ws = moov.encode ∧ moov.tag = fourcc 'm' 'o' 'o' 'v' ∧
        (∃ mvhd, moov.child (fourcc 'm' 'v' 'h' 'd') = some mvhd ∧
        ofBe (slice mvhd.body 12 4) = 1000 ∧
          (ofBe (slice mvhd.body 16 4) : Int) = p) ∧
        ∀ t, packetsOf t calls ≠ [] →
          ∃ tkhd, (trakBoxOf moov t).bind (Box.child (fourcc 't' 'k' 'h' 'd')) = some tkhd ∧
            (ofBe (slice tkhd.body 20 4) : Int) = p := by
  refine ⟨scales_exact hrate hint h0 hp, ?_⟩
  have hf := (Opened.fresh ⟨raw_time, words, keyframes, cmds, rfl⟩ :
    Fresh ((mp4MuxerOpen raw_time words keyframes).commands cmds))
  have hbelow :=
    commands_below (mp4MuxerOpen raw_time words keyframes) hcmds hinfo (session_some hf h).1
  obtain ⟨body, u, c, mov, hparts, -, front, back, ws, hwrites, hbytes⟩ := session_parts env hf hs h
  have hclock := hparts.clock hf hs
  rw [← commands_append, hcmds] at hclock
  have hprepared : ∀ t, (mov.prepared env).clock t
      = (scaleOf info t, (p * scaleOf info t).tdiv 1000) := fun t => by
    rw [(prepared_clock env mov).1, hclock]
    exact commands_timed _ hinfo hbetween hbehind t
  refine ⟨moovBox env (mov.prepared env), front, back, ws, hwrites, hbytes, rfl,
    ⟨_, moov_mvhd env _, ?_, ?_⟩, ?_⟩
  · rw [(mvhd_fields _).1, (prepared_clock env mov).2]
    rfl
  · have hvideo : ((mov.prepared env).tracks .video).trackDuration = (p * 1000).tdiv 1000 :=
      congrArg Prod.snd (hprepared .video)
    rw [(mvhd_fields _).2, hvideo, Int.mul_tdiv_cancel p (by norm_num), ofBe_be_u32 h0 hp]
  · intro t hpackets
    obtain ⟨ht, -⟩ := hparts.mem_written (hbelow t) hpackets
    have htrack : trakBoxOf (moovBox env (mov.prepared env)) t
        = some (trakBox env (mov.prepared env) ((mov.prepared env).tracks t)) :=
      moov_trakBox (hparts.closed.prepared_type env hf) (by rw [prepared_written]; exact ht)
    obtain ⟨d, hd, hback⟩ := scales_exact hrate hint h0 hp t
    have hscale : ((mov.prepared env).tracks t).timescale = scaleOf info t :=
      congrArg Prod.fst (hprepared t)
    have hduration : ((mov.prepared env).tracks t).trackDuration = d :=
      (congrArg Prod.snd (hprepared t)).trans (totalTimeChecked_some hd)
    refine ⟨tkhdBox ((mov.prepared env).tracks t), ?_, ?_⟩
    · rw [htrack, Option.bind_some, trak_tkhd]
    · rw [tkhd_field, hscale, hduration, avRescaleChecked_some hback, ofBe_be_u32 h0 hp]

/-- the total time comes between the packets and the trailer -/
theorem durations_exact_small :
    ∃ session moov tkhd, mp4Session smallEnv smallContext timedCalls (some 100) = some session ∧
      (trakBoxOf moov .audio).bind (Box.child (fourcc 't' 'k' 'h' 'd')) = some tkhd ∧
      ofBe (slice tkhd.body 20 4) = 100 := by
  obtain ⟨session, hsession⟩ := timed_session
  have hcmds : [.trackInfo smallInfo, .csd smallCsd .video]
      ++ (some 100).toList.map Command.totalTime
      = [] ++ Command.trackInfo smallInfo :: ([.csd smallCsd .video] ++ .totalTime 100 :: []) := rfl
  obtain ⟨-, moov, -, -, -, -, -, -, -, htracks⟩ :=
    durations_exact smallEnv 0 (fun _ => 0) (fun _ => 0) hcmds
      (Or.inl rfl) (by simp [Command.IsTrackInfo]) (by simp) (by norm_num [smallInfo])
        (by norm_num [smallInfo])
      (by norm_num) (by norm_num) (by decide : Streamed timedCalls) hsession
  obtain ⟨tkhd, htkhd, hduration⟩ := htracks .audio (by decide)
  exact ⟨session, moov, tkhd, hsession, htkhd, Int.ofNat_inj.mp hduration⟩

end Pluto.Mp4

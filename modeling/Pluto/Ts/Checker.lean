import Pluto.Ts.Multiplex

/-!
# `check_ts_muxer`: the checker of a file

The program reads a transport stream packet by packet, first for the PIDs of the tracks, then for
their elementary streams, which it writes into two files.

* `fread`, `fwrite`       a packet read into the buffer, and bytes of the buffer written;
* `lookAt`, `searchRound`, `search` the first loop: `none` where an `assert` fails;
* `extractPacket`, `extract`  the second loop: `none` also where bytes behind the buffer would be
  written;
* `checkTsMuxer`          `main`, with a bound on the rounds of the first loop, which may not end;
* `Muxed`, `Searched`     the packets of a session, and the variables after they were looked at;
* `search_reading`, `extract_stream`  the two loops on the packets of a session.
-/

namespace Pluto.Ts
open Octets Transport

/-! ## the program -/

/-- `TS_PKT_SIZE` -/
def tsPktSize : Nat := 188

/-- `fp0` behind what has been read, and `buf`; a short read leaves the rest of the buffer -/
structure Input where
  rest : Bytes
  buf : Bytes

/-- `fread(buf, 1, TS_PKT_SIZE, fp0)`: the count, and the input behind it -/
def fread (i : Input) : Nat × Input :=
  let cnt := min tsPktSize i.rest.length
  (cnt, ⟨i.rest.drop tsPktSize, i.rest.take tsPktSize ++ i.buf.drop cnt⟩)

/-- `fwrite(buf + off, 1, n, fp)`: a negative `n` is a huge `size_t` -/
def fwrite (buf : Bytes) (off n : Int) : Option Bytes :=
  if 0 ≤ off ∧ 0 ≤ n ∧ off + n ≤ buf.length then some (slice buf off.toNat n.toNat) else none

/-- the variables of the first loop: `audio_found`, `video_found` say that the PID is set -/
structure Search where
  input : Input
  pat_found : Bool
  pmt_found : Bool
  audio_pid : Option Nat
  video_pid : Option Nat

/-- `((buf[1] & 0xf) << 8) + buf[2]` -/
def bufPid (buf : Bytes) : Nat := ((byteAt buf 1 &&& 0xf) <<< 8) + byteAt buf 2

/-- `AUDIO_STREAM_ID` -/
def audioStreamId : Nat := 0xC0

/-- `VIDEO_STREAM_ID` -/
def videoStreamId : Nat := 0xE0

/-- a start of a track is looked at: `id` is its `stream_id` -/
def foundTrack (s : Search) (id : Nat) : Search :=
  if id = audioStreamId then
    if s.audio_pid.isSome then s else { s with audio_pid := some (bufPid s.input.buf) }
  else if id = videoStreamId then
    if s.video_pid.isSome then s else { s with video_pid := some (bufPid s.input.buf) }
  else s

/-- the branches of the first loop -/
def lookAt (s : Search) : Option Search :=
  let buf := s.input.buf
  if byteAt buf 0 = 0x47 ∧ byteAt buf 1 = 0x40 ∧ byteAt buf 2 = 0x00 then
    some { s with pat_found := true }
  else if byteAt buf 0 = 0x47 ∧ byteAt buf 1 = 0x41 ∧ byteAt buf 2 = 0xE0 then
    some { s with pmt_found := true }
  else if byteAt buf 0 = 0x47 ∧ byteAt buf 1 = 0x41 ∧ byteAt buf 2 &&& 0xE0 = 0xE0 then
    if byteAt buf 4 = 0x07 then
      if byteAt buf 12 = 0 ∧ byteAt buf 13 = 0 ∧ byteAt buf 14 = 1 then
        some (foundTrack s (byteAt buf 15)) else none
    else
      if byteAt buf 4 = 0 ∧ byteAt buf 5 = 0 ∧ byteAt buf 6 = 1 then
        some (foundTrack s (byteAt buf 7)) else none
  else some s

/-- one round of the first loop; at the end of the file it looks at the same bytes again -/
def searchRound (s : Search) : Option Search := lookAt { s with input := (fread s.input).2 }

/-- the condition that ends the first loop -/
def Search.found (s : Search) : Bool :=
  s.pat_found && s.pmt_found && s.audio_pid.isSome && s.video_pid.isSome

/-- at most so many rounds of the first loop -/
def search : Nat → Search → Option Search
  | 0, s => some s
  | n + 1, s => if s.found then some s else (searchRound s).bind (search n)

/-- `fp1` and `fp2`: `check_ts_audio.aac`, `check_ts_video.h264` -/
structure Tracks where
  audio : Bytes
  video : Bytes

/-- a packet behind the first one of an access unit -/
def extractRest (buf : Bytes) : Option Bytes :=
  if byteAt buf 3 &&& 0xf0 = 0x10 then fwrite buf 4 (tsPktSize - 4)
  else if byteAt buf 3 &&& 0xf0 = 0x30 then
    let padding_sz := byteAt buf 4 + 1
    fwrite buf (4 + padding_sz) (tsPktSize - 4 - padding_sz)
  else none

def extractVideo (buf : Bytes) : Option Bytes :=
  if byteAt buf 1 = 0x41 then fwrite buf 32 (tsPktSize - 32) else extractRest buf

def extractAudio (buf : Bytes) : Option Bytes :=
  if byteAt buf 1 = 0x41 then
    let pes_len := (byteAt buf 16 <<< 8) + byteAt buf 17
    if pes_len ≥ 170 then fwrite buf 26 (tsPktSize - 26)
    else
      let padding_sz : Int := byteAt buf 4 - 7
      fwrite buf (26 + padding_sz) (pes_len - 8)
  else extractRest buf

/-- one packet of the second loop -/
def extractPacket (audio_pid video_pid : Nat) (buf : Bytes) (out : Tracks) : Option Tracks :=
  if byteAt buf 0 = 0x47 ∧ bufPid buf = video_pid then
    (extractVideo buf).map fun b => { out with video := out.video ++ b }
  else if byteAt buf 0 = 0x47 ∧ bufPid buf = audio_pid then
    (extractAudio buf).map fun b => { out with audio := out.audio ++ b }
  else some out

/-- the second loop: it ends with a read of nothing -/
def extract (audio_pid video_pid : Nat) (i : Input) (out : Tracks) : Option Tracks :=
  if i.rest = [] then some out
  else (extractPacket audio_pid video_pid (fread i).2.buf out).bind
    (extract audio_pid video_pid (fread i).2)
termination_by i.rest.length
decreasing_by
  have := List.length_pos_of_ne_nil ‹_›
  show (i.rest.drop tsPktSize).length < i.rest.length
  rw [List.length_drop, tsPktSize]
  omega

/-- the state in front of the first loop; `buf` is what `malloc` returned -/
def searchStart (file buf : Bytes) : Search := ⟨⟨file, buf⟩, false, false, none, none⟩

/-- what is known after a number of rounds of the first loop -/
inductive Checked where
  | searching
  | done (out : Tracks)

/-- `main` -/
def checkTsMuxer (rounds : Nat) (file buf : Bytes) : Option Checked :=
  (search rounds (searchStart file buf)).bind fun s =>
    match s.found, s.audio_pid, s.video_pid with
    | true, some audio_pid, some video_pid =>
      (extract audio_pid video_pid ⟨file, s.input.buf⟩ ⟨[], []⟩).map .done
    | _, _, _ => some .searching

/-! ## a packet in the buffer -/

/-- the bytes of a packet stand at the start of the buffer -/
def Shows (buf : Bytes) (p : Packet) : Prop := ∃ c tail, buf = p.encode c ++ tail

theorem fread_stream (cc : Counters) (p : Packet) (ps : List Packet) (buf : Bytes) :
    (fread ⟨stream cc (p :: ps), buf⟩).2.rest = stream (cc.advance p) ps ∧
      Shows (fread ⟨stream cc (p :: ps), buf⟩).2.buf p := by
  have hlen : (p.encode (cc p.pid)).length = tsPktSize := p.encode_length _
  unfold fread
  rw [stream_cons]
  dsimp only
  constructor
  · rw [← hlen, List.drop_left]
  · rw [← hlen, List.take_left]
    exact ⟨_, _, rfl⟩

section
variable {buf : Bytes} {p : Packet}

theorem Shows.byte (h : Shows buf p) :
    ∃ c : Fin 16, ∀ i, i < 188 → byteAt buf i = byteAt (p.encode c) i := by
  obtain ⟨c, tail, rfl⟩ := h
  refine ⟨c, fun i hi => ?_⟩
  unfold byteAt
  rw [List.getD_append _ _ _ _ (by rw [p.encode_length]; exact hi)]

theorem Shows.drop (h : Shows buf p) (off n : Nat) (hn : off + n = 188) :
    ∃ c : Fin 16, slice buf off n = (p.encode c).drop off := by
  obtain ⟨c, tail, rfl⟩ := h
  refine ⟨c, ?_⟩
  have hlen := p.encode_length c
  rw [slice_append_left _ _ _ _ (by omega), slice,
    List.take_of_length_le (by rw [List.length_drop]; omega)]

theorem Shows.long (h : Shows buf p) : 188 ≤ buf.length := by
  obtain ⟨c, tail, rfl⟩ := h
  rw [List.length_append, p.encode_length]
  exact Nat.le_add_right _ _

/-- the header, as the program reads it -/
theorem Shows.header (h : Shows buf p) :
    byteAt buf 0 = 0x47 ∧ byteAt buf 1 = (if p.start then 0x40 else 0) + p.pid / 256 ∧
      byteAt buf 2 = p.pid % 256 ∧
      ∃ c : Fin 16, byteAt buf 3 = 16 * p.control + c := by
  obtain ⟨c, hb⟩ := h.byte
  refine ⟨?_, ?_, ?_, c, ?_⟩
  · rw [hb 0 (by decide)]
    rfl
  · rw [hb 1 (by decide), p.byteAt_one]
  · rw [hb 2 (by decide)]
    show (UInt8.ofNat _).toNat = _
    rw [UInt8.toNat_ofNat', Nat.mod_mod]
  · rw [hb 3 (by decide), p.byteAt_three]

theorem Shows.pid (h : Shows buf p) (hp : (p.pid : Nat) < 4096) : bufPid buf = p.pid := by
  obtain ⟨-, h1, h2, -⟩ := h.header
  have hand : byteAt buf 1 &&& 0xf = byteAt buf 1 % 16 := Nat.and_two_pow_sub_one_eq_mod _ 4
  have hlow : byteAt buf 1 % 16 = p.pid / 256 := by
    rw [h1]
    split <;> omega
  unfold bufPid
  rw [hand, hlow, h2, Nat.shiftLeft_eq]
  omega

theorem Shows.control (h : Shows buf p) : byteAt buf 3 &&& 0xf0 = 16 * p.control := by
  obtain ⟨-, -, -, c, h3⟩ := h.header
  have hall : ∀ c : Fin 16, (16 * 1 + (c : Nat)) &&& 0xf0 = 16 * 1 ∧
      (16 * 3 + (c : Nat)) &&& 0xf0 = 16 * 3 := by decide
  rw [h3]
  rcases p.control_cases with hc | hc <;> rw [hc]
  · exact (hall c).1
  · exact (hall c).2

/-- without an adaptation field the payload stands behind the header -/
theorem Shows.plain (h : Shows buf p) (ha : p.adaptation = none) : slice buf 4 184 = p.payload := by
  obtain ⟨c, hs⟩ := h.drop 4 184 rfl
  rw [hs, Packet.encode, ha]
  rfl

/-- with one, behind that -/
theorem Shows.adapted (h : Shows buf p) {a : Bytes} (ha : p.adaptation = some a) :
    byteAt buf 4 = a.length ∧ a.length + p.payload.length = 183 ∧
      ∀ off n, off + n = 183 → a.length ≤ off →
        slice buf (5 + off) n = p.payload.drop (off - a.length) := by
  have hfills := p.fills
  rw [ha, adaptationField, List.length_cons] at hfills
  refine ⟨?_, by omega, fun off n hn hoff => ?_⟩
  · obtain ⟨c, hb⟩ := h.byte
    rw [hb 4 (by decide), Packet.encode, ha]
    show (UInt8.ofNat a.length).toNat = a.length
    rw [UInt8.toNat_ofNat', Nat.mod_eq_of_lt (by omega)]
  · obtain ⟨c, hs⟩ := h.drop (5 + off) n (by omega)
    rw [hs, Packet.encode, ha, adaptationField, ← List.drop_drop]
    show ((a ++ p.payload).drop off) = _
    rw [List.drop_append, List.drop_eq_nil_of_le hoff, List.nil_append]

end

/-- a byte at the start of the payload -/
theorem Shows.payload_byte {buf : Bytes} {p : Packet} (h : Shows buf p) {a : Bytes}
    (ha : p.adaptation = some a) (hlen : a.length = 7) {head body : Bytes}
    (hpayload : p.payload = head ++ body) {j : Nat} (hj : j < head.length) :
    byteAt buf (12 + j) = byteAt head j := by
  obtain ⟨-, hsize, hslice⟩ := h.adapted ha
  have hall := hslice 7 176 rfl hlen.le
  rw [hlen, Nat.sub_self, List.drop_zero, hpayload] at hall
  rw [hpayload, List.length_append] at hsize
  have hread : byteAt (slice buf 12 176) j = byteAt buf (12 + j) := by
    unfold byteAt slice
    rw [List.getD_eq_getElem?_getD, List.getElem?_take_of_lt (by omega), List.getElem?_drop,
      ← List.getD_eq_getElem?_getD]
  rw [← hread, hall]
  unfold byteAt
  rw [List.getD_append _ _ _ _ hj]

/-! ## the packets of a session -/

/-- what the muxer writes: a table, the first packet of an access unit with its clock value, or a
packet behind it -/
inductive Muxed : Packet → Prop where
  | pat : Muxed patPacket
  | pmt : Muxed pmtPacket
  | first {p : Packet} (t : CodecType) (hstart : p.start = true) (hpid : p.pid = trackPid t)
    {a : Bytes}
      (ha : p.adaptation = some a) (hlen : a.length = 7) {body : Bytes} {n pts : Nat}
      (hpayload : p.payload = pesHeader (streamId t) n pts ++ body) : Muxed p
  | rest {p : Packet} (t : CodecType) (hstart : p.start = false) (hpid : p.pid = trackPid t) :
    Muxed p

/-- `audio_pid` or `video_pid` -/
def Search.pidOf (s : Search) : CodecType → Option Nat
  | .audio => s.audio_pid
  | .video => s.video_pid

theorem trackPid_lt (t : CodecType) : (trackPid t : Nat) < 4096 := by
  cases t <;> decide

theorem Muxed.pid_lt {p : Packet} (h : Muxed p) : (p.pid : Nat) < 4096 := by
  cases h with
  | pat => decide
  | pmt => decide
  | first t _ hpid => rw [hpid]; exact trackPid_lt t
  | rest t _ hpid => rw [hpid]; exact trackPid_lt t

/-- the clock value in the first packet of an access unit -/
theorem Muxed.clock {p : Packet} (h : Muxed p) (hstart : p.start = true) {t : CodecType}
    (hpid : p.pid = trackPid t) :
    ∃ a, p.adaptation = some a ∧ a.length = 7 := by
  cases h with
  | pat => exact absurd hpid.symm (trackPid_ne_pat t)
  | pmt => exact absurd hpid.symm (trackPid_ne_pmt t)
  | first _ _ _ ha hlen => exact ⟨_, ha, hlen⟩
  | rest _ hcontinue => exact absurd (hcontinue.symm.trans hstart) Bool.false_ne_true

/-- a packet in which an access unit of a track starts -/
def Starts (t : CodecType) (p : Packet) : Prop := p.start = true ∧ p.pid = trackPid t

instance (t : CodecType) (p : Packet) : Decidable (Starts t p) :=
  inferInstanceAs (Decidable (_ ∧ _))

/-- the variables of the first loop are those after it has looked at these packets -/
structure Searched (seen : List Packet) (s : Search) : Prop where
  pat : s.pat_found = true ↔ ∃ p ∈ seen, p.pid = patPid
  pmt : s.pmt_found = true ↔ ∃ p ∈ seen, p.pid = pmtPid
  track : ∀ t, s.pidOf t = if ∃ p ∈ seen, Starts t p then some (trackPid t : Nat) else none

/-- **The start of a track.** -/
theorem searched_first {seen : List Packet} {s : Search} (h : Searched seen s) {p : Packet}
    {t : CodecType} (hstarts : Starts t p) (hp : Shows s.input.buf p) :
    Searched (p :: seen) (foundTrack s (streamId t).toNat) ∧
      (foundTrack s (streamId t).toNat).input = s.input := by
  have hpid : bufPid s.input.buf = trackPid t := by
    rw [hp.pid (by rw [hstarts.2]; exact trackPid_lt t), hstarts.2]
  have hpat : ¬ p.pid = patPid := fun e => trackPid_ne_pat t (hstarts.2.symm.trans e)
  have hpmt : ¬ p.pid = pmtPid := fun e => trackPid_ne_pmt t (hstarts.2.symm.trans e)
  -- the other track
  have hother : ∀ u, u ≠ t → ¬ Starts u p :=
    fun u hu hs => hu (trackPid_injective (hs.2.symm.trans hstarts.2))
  have hset : (foundTrack s (streamId t).toNat).pidOf t = some (trackPid t : Nat) ∧
      (∀ u, u ≠ t → (foundTrack s (streamId t).toNat).pidOf u = s.pidOf u) ∧
      (foundTrack s (streamId t).toNat).pat_found = s.pat_found ∧
      (foundTrack s (streamId t).toNat).pmt_found = s.pmt_found ∧
      (foundTrack s (streamId t).toNat).input = s.input := by
    have hsome : (s.pidOf t).isSome = true → s.pidOf t = some (trackPid t : Nat) := by
      rw [h.track t]
      split
      · exact fun _ => rfl
      · exact fun hnone => Bool.noConfusion hnone
    unfold foundTrack
    cases t with
    | video =>
      rw [if_neg (by decide), if_pos (by decide)]
      by_cases hv : s.video_pid.isSome = true
      · rw [if_pos hv]
        exact ⟨hsome hv, fun _ _ => rfl, rfl, rfl, rfl⟩
      · rw [if_neg hv]
        refine ⟨congrArg some hpid, fun u hu => ?_, rfl, rfl, rfl⟩
        cases u with
        | video => exact absurd rfl hu
        | audio => rfl
    | audio =>
      rw [if_pos (by decide)]
      by_cases hv : s.audio_pid.isSome = true
      · rw [if_pos hv]
        exact ⟨hsome hv, fun _ _ => rfl, rfl, rfl, rfl⟩
      · rw [if_neg hv]
        refine ⟨congrArg some hpid, fun u hu => ?_, rfl, rfl, rfl⟩
        cases u with
        | video => rfl
        | audio => exact absurd rfl hu
  obtain ⟨ht, hu, h1, h2, h3⟩ := hset
  refine ⟨⟨?_, ?_, fun u => ?_⟩, h3⟩
  · rw [h1, h.pat, List.exists_mem_cons_iff, or_iff_right hpat]
  · rw [h2, h.pmt, List.exists_mem_cons_iff, or_iff_right hpmt]
  · simp only [List.exists_mem_cons_iff]
    by_cases he : u = t
    · subst he
      rw [ht, if_pos (Or.inl hstarts)]
    · rw [hu u he, h.track u]
      simp only [hother u he, false_or]

/-- a packet that starts no track -/
theorem Searched.other {seen : List Packet} {s s' : Search} (h : Searched seen s) {p : Packet}
    (hp : ∀ t, ¬ Starts t p) (hpat : s'.pat_found = true ↔ p.pid = patPid ∨ s.pat_found = true)
    (hpmt : s'.pmt_found = true ↔ p.pid = pmtPid ∨ s.pmt_found = true)
    (hsame : s'.pidOf = s.pidOf) :
    Searched (p :: seen) s' := by
  refine ⟨?_, ?_, fun t => ?_⟩
  · rw [hpat, h.pat, List.exists_mem_cons_iff]
  · rw [hpmt, h.pmt, List.exists_mem_cons_iff]
  · rw [hsame, h.track t]
    simp only [List.exists_mem_cons_iff, hp t, false_or]

/-- **One look.** -/
theorem lookAt_muxed {seen : List Packet} {s : Search} (h : Searched seen s) {p : Packet}
    (hm : Muxed p) (hp : Shows s.input.buf p) :
    ∃ s', lookAt s = some s' ∧ Searched (p :: seen) s' ∧ s'.input = s.input := by
  obtain ⟨h0, h1, h2, -⟩ := hp.header
  unfold lookAt
  dsimp only
  cases hm with
  | pat =>
    refine ⟨_, if_pos ⟨h0, h1, h2⟩, h.other (fun t ht => trackPid_ne_pat t ht.2.symm) ?_ ?_ rfl,
      rfl⟩
    · exact iff_of_true rfl (Or.inl rfl)
    · exact (or_iff_right (by decide : ¬ patPid = pmtPid)).symm
  | pmt =>
    have h41 : ¬ byteAt s.input.buf 1 = 0x40 := fun e => absurd (h1.symm.trans e) (by decide)
    refine ⟨_, (if_neg fun hh => h41 hh.2.1).trans (if_pos ⟨h0, h1, h2⟩),
      h.other (fun t ht => trackPid_ne_pmt t ht.2.symm) ?_ ?_ rfl, rfl⟩
    · exact (or_iff_right (by decide : ¬ pmtPid = patPid)).symm
    · exact iff_of_true rfl (Or.inl rfl)
  | first t hstart hpid ha hlen hpayload =>
    obtain ⟨h4, -, -⟩ := hp.adapted ha
    rw [hlen] at h4
    have hbyte : ∀ j, j < 14 →
        byteAt s.input.buf (12 + j) = byteAt (pesHeader (streamId t) _ _) j := fun j hj =>
      hp.payload_byte ha hlen hpayload hj
    rw [hstart, if_pos rfl, hpid] at h1
    rw [hpid] at h2
    have hbytes : byteAt s.input.buf 1 = 0x41 ∧ byteAt s.input.buf 2 ≠ 0xE0 ∧
        byteAt s.input.buf 2 &&& 0xE0 = 0xE0 := by
      rw [h1, h2]
      cases t <;> decide
    obtain ⟨h41, hnot, hand⟩ := hbytes
    rw [if_neg (fun hh => absurd (h41.symm.trans hh.2.1) (by decide)), if_neg fun hh => hnot hh.2.2,
      if_pos ⟨h0, h41, hand⟩, if_pos h4,
      if_pos ⟨hbyte 0 (by decide), hbyte 1 (by decide), hbyte 2 (by decide)⟩, hbyte 3 (by decide)]
    obtain ⟨hs, hi⟩ := searched_first h ⟨hstart, hpid⟩ hp
    exact ⟨_, rfl, hs, hi⟩
  | rest t hstart hpid =>
    rw [hstart, if_neg Bool.false_ne_true, hpid] at h1
    have h41 : byteAt s.input.buf 1 = 1 := by
      rw [h1]
      cases t <;> rfl
    refine ⟨s, ?_, h.other (fun u hu => ?_) ?_ ?_ rfl, rfl⟩
    · have hno : ∀ x, 2 ≤ x → byteAt s.input.buf 1 ≠ x := fun x hx => by omega
      rw [if_neg fun hh => hno _ (by decide) hh.2.1, if_neg fun hh => hno _ (by decide) hh.2.1,
        if_neg fun hh => hno _ (by decide) hh.2.1]
    · exact absurd (hstart.symm.trans hu.1) Bool.false_ne_true
    · exact (or_iff_right fun e => trackPid_ne_pat t (hpid.symm.trans e)).symm
    · exact (or_iff_right fun e => trackPid_ne_pmt t (hpid.symm.trans e)).symm

/-! ## the first loop -/

/-- the input of the first loop: what it has looked at, and what is still to be read -/
structure Reading (seen rest : List Packet) (s : Search) : Prop where
  searched : Searched seen s
  muxed : ∀ p ∈ seen ++ rest, Muxed p
  stream : ∃ cc, s.input.rest = stream cc rest
  buffer : seen ≠ [] → ∃ p ∈ seen, Shows s.input.buf p

/-- **A round** reads a packet; at the end of the file it looks at the last one again. -/
theorem searchRound_reading {seen rest : List Packet} {s : Search} (h : Reading seen rest s)
    (hne : seen ++ rest ≠ []) :
    ∃ s' p, searchRound s = some s' ∧ Reading (p :: seen) rest.tail s' ∧ p ∈ seen ++ rest ∧
      ∀ q ∈ rest, q = p ∨ q ∈ rest.tail := by
  obtain ⟨cc, hrest⟩ := h.stream
  cases rest with
  | nil =>
    rw [List.append_nil] at hne
    obtain ⟨p, hp, hshows⟩ := h.buffer hne
    have hinput : s.input = ⟨[], s.input.buf⟩ := by rw [← stream_nil cc, ← hrest]
    have hread : (fread s.input).2 = s.input := by
      rw [hinput]
      rfl
    obtain ⟨s', hs', hsearched, hsame⟩ :=
      lookAt_muxed h.searched (h.muxed p (List.mem_append_left _ hp)) hshows
    refine ⟨s', p, ?_, ⟨hsearched, ?_, ⟨cc, ?_⟩, fun _ => ⟨p, List.mem_cons_self, ?_⟩⟩,
      List.mem_append_left _ hp, fun q hq => absurd hq List.not_mem_nil⟩
    · rw [searchRound, hread]
      exact hs'
    · intro q hq
      rcases List.mem_cons.mp hq with rfl | hq
      · exact h.muxed q (List.mem_append_left _ hp)
      · exact h.muxed q hq
    · rw [hsame]
      exact hrest
    · rw [hsame]
      exact hshows
  | cons p rest =>
    have hinput : s.input = ⟨Transport.stream cc (p :: rest), s.input.buf⟩ := by rw [← hrest]
    obtain ⟨hread, hshows⟩ := fread_stream cc p rest s.input.buf
    rw [← hinput] at hread hshows
    have hp : p ∈ seen ++ p :: rest := List.mem_append_right _ List.mem_cons_self
    obtain ⟨s', hs', hsearched, hsame⟩ := lookAt_muxed (s := { s with input := (fread s.input).2 })
      ⟨h.searched.pat, h.searched.pmt, h.searched.track⟩ (h.muxed p hp) hshows
    refine ⟨s', p, hs', ⟨hsearched, fun q hq => ?_, ⟨cc.advance p, ?_⟩,
      fun _ => ⟨p, List.mem_cons_self, ?_⟩⟩, hp,
      fun q hq => List.mem_cons.mp hq⟩
    · exact h.muxed q (List.perm_middle.mem_iff.mpr hq)
    · rw [hsame]
      exact hread
    · rw [hsame]
      exact hshows

/-- **The first loop.**  No `assert` fails, and after enough rounds it has looked at every packet or
has ended. -/
theorem search_reading {seen rest : List Packet} {s : Search} (h : Reading seen rest s)
    (hne : seen ++ rest ≠ []) (n : Nat) :
    ∃ s' looked, search n s = some s' ∧ Searched looked s' ∧ (∀ p ∈ looked, p ∈ seen ++ rest) ∧
      (rest.length ≤ n → s'.found = true ∨ ∀ p ∈ seen ++ rest, p ∈ looked) := by
  induction n generalizing seen rest s with
  | zero =>
    refine ⟨s, seen, rfl, h.searched, fun p hp => List.mem_append_left _ hp,
      fun hlen => Or.inr fun p hp => ?_⟩
    rwa [List.length_eq_zero_iff.mp (Nat.le_zero.mp hlen), List.append_nil] at hp
  | succ n ih =>
    by_cases hfound : s.found = true
    · exact ⟨s, seen, by rw [search, if_pos hfound], h.searched,
        fun p hp => List.mem_append_left _ hp, fun _ => Or.inl hfound⟩
    · obtain ⟨s₁, p, hround, hreading, hp, hall⟩ := searchRound_reading h hne
      obtain ⟨s', looked, hs', hsearched, hsub, hend⟩ := ih hreading (List.cons_ne_nil _ _)
      refine ⟨s', looked, ?_, hsearched, fun q hq => ?_, fun hlen => ?_⟩
      · rw [search, if_neg hfound, hround, Option.bind_some, hs']
      · rcases List.mem_cons.mp (hsub q hq) with rfl | hq
        · exact hp
        · rcases List.mem_append.mp hq with hq | hq
          · exact List.mem_append_left _ hq
          · exact List.mem_append_right _ (List.mem_of_mem_tail hq)
      · refine (hend (by rw [List.length_tail]; omega)).imp_right fun hlooked q hq => hlooked q ?_
        rcases List.mem_append.mp hq with hq | hq
        · exact List.mem_cons_of_mem _ (List.mem_append_left _ hq)
        · rcases hall q hq with rfl | hq
          · exact List.mem_cons_self
          · exact List.mem_cons_of_mem _ (List.mem_append_right _ hq)

/-! ## the second loop -/

theorem fwrite_inside (buf : Bytes) (off n : Nat) (h : off + n ≤ buf.length) :
    fwrite buf (off : Int) (n : Int) = some (slice buf off n) := by
  unfold fwrite
  rw [if_pos ⟨Int.natCast_nonneg off, Int.natCast_nonneg n, by exact_mod_cast h⟩, Int.toNat_natCast,
    Int.toNat_natCast]

/-- what is left out in front of the elementary stream: the PES header, and of video the access unit
delimiter -/
def skipped : CodecType → Nat
  | .audio => 14
  | .video => 20

/-- what the second loop writes of a packet into the file of a track -/
def esOf (t : CodecType) (p : Packet) : Bytes :=
  if p.pid = trackPid t then (if p.start then p.payload.drop (skipped t) else p.payload) else []

section
variable {buf : Bytes} {p : Packet}

/-- a packet behind the first one of an access unit -/
theorem extractRest_payload (h : Shows buf p) : extractRest buf = some p.payload := by
  have hlong := h.long
  have hcontrol := h.control
  unfold extractRest
  cases ha : p.adaptation with
  | none =>
    have h1 : p.control = 1 := by simp [Packet.control, ha]
    rw [hcontrol, h1, if_pos rfl]
    have hwrite := fwrite_inside buf 4 184 (by omega)
    rw [h.plain ha] at hwrite
    exact hwrite
  | some a =>
    have h3 : p.control = 3 := by simp [Packet.control, ha]
    obtain ⟨h4, hsize, hslice⟩ := h.adapted ha
    have hwrite := fwrite_inside buf (5 + a.length) (183 - a.length) (by omega)
    rw [hslice a.length (183 - a.length) (by omega) le_rfl, Nat.sub_self, List.drop_zero] at hwrite
    have hoff : (4 : Int) + ((a.length + 1 : Nat) : Int) = ((5 + a.length : Nat) : Int) := by omega
    have hn : (tsPktSize : Int) - 4 - ((a.length + 1 : Nat) : Int)
        = ((183 - a.length : Nat) : Int) := by
      unfold tsPktSize
      omega
    rw [hcontrol, h3, if_neg (by decide), if_pos rfl, h4]
    dsimp only
    rw [hoff, hn, hwrite]

/-- the first packet of an access unit -/
theorem fwrite_first (h : Shows buf p) {a : Bytes} (ha : p.adaptation = some a)
    (hlen : a.length = 7) {k : Nat} (hk : k ≤ 176) :
    fwrite buf ((12 + k : Nat) : Int) ((176 - k : Nat) : Int) = some (p.payload.drop k) := by
  have hlong := h.long
  obtain ⟨-, -, hslice⟩ := h.adapted ha
  have hdrop := hslice (7 + k) (176 - k) (by omega) (by omega)
  rw [hlen, Nat.add_sub_cancel_left, ← Nat.add_assoc] at hdrop
  rw [fwrite_inside _ _ _ (by omega), hdrop]

/-- `buf[1] == 0x41` -/
theorem Shows.first_iff (h : Shows buf p) {t : CodecType} (hpid : p.pid = trackPid t) :
    byteAt buf 1 = 0x41 ↔ p.start = true := by
  obtain ⟨-, h1, -⟩ := h.header
  have hhigh : (trackPid t : Nat) / 256 = 1 := by cases t <;> rfl
  rw [h1, hpid, hhigh]
  cases p.start with
  | false => exact iff_of_false (by decide) Bool.false_ne_true
  | true => exact iff_of_true rfl rfl

theorem extractVideo_muxed (hm : Muxed p) (hp : Shows buf p) (hpid : p.pid = trackPid .video) :
    extractVideo buf = some (esOf .video p) := by
  have hfirst := hp.first_iff hpid
  unfold extractVideo esOf
  rw [if_pos hpid]
  by_cases hstart : p.start = true
  · obtain ⟨a, ha, hlen⟩ := hm.clock hstart hpid
    rw [if_pos (hfirst.mpr hstart), if_pos hstart]
    exact fwrite_first hp ha hlen (by decide : 20 ≤ 176)
  · rw [if_neg fun h => hstart (hfirst.mp h), if_neg hstart, extractRest_payload hp]

theorem extractAudio_muxed (hm : Muxed p) (hp : Shows buf p) (hpid : p.pid = trackPid .audio)
    (haudio : Starts .audio p → 170 ≤ byteAt p.payload 4 * 256 + byteAt p.payload 5) :
    extractAudio buf = some (esOf .audio p) := by
  have hfirst := hp.first_iff hpid
  unfold extractAudio esOf
  rw [if_pos hpid]
  by_cases hstart : p.start = true
  · obtain ⟨a, ha, hlen⟩ := hm.clock hstart hpid
    have hbyte : ∀ j, j < p.payload.length → byteAt buf (12 + j) = byteAt p.payload j := fun j hj =>
      hp.payload_byte ha hlen (List.append_nil _).symm hj
    obtain ⟨-, hsize, -⟩ := hp.adapted ha
    have hpes : (byteAt buf 16 <<< 8) + byteAt buf 17 ≥ 170 := by
      have h := haudio ⟨hstart, hpid⟩
      rw [hbyte 4 (by omega), hbyte 5 (by omega), Nat.shiftLeft_eq]
      exact h
    rw [if_pos (hfirst.mpr hstart), if_pos hstart]
    dsimp only
    rw [if_pos hpes]
    exact fwrite_first hp ha hlen (by decide : 14 ≤ 176)
  · rw [if_neg fun h => hstart (hfirst.mp h), if_neg hstart, extractRest_payload hp]

/-- **One packet.**  The length of an audio access unit must not be one that the program takes for a
small frame. -/
theorem extractPacket_muxed (hm : Muxed p) (hp : Shows buf p)
    (haudio : Starts .audio p → 170 ≤ byteAt p.payload 4 * 256 + byteAt p.payload 5)
    (out : Tracks) :
    extractPacket (trackPid .audio) (trackPid .video) buf out
      = some ⟨out.audio ++ esOf .audio p, out.video ++ esOf .video p⟩ := by
  obtain ⟨h0, -⟩ := hp.header
  have hbuf := hp.pid hm.pid_lt
  have hiff : ∀ t, (byteAt buf 0 = 0x47 ∧ bufPid buf = (trackPid t : Nat)) ↔ p.pid = trackPid t :=
    fun t => by
      rw [hbuf, and_iff_right h0]
      exact Fin.ext_iff.symm
  have hnone : ∀ t, p.pid ≠ trackPid t → esOf t p = [] := fun t ht => if_neg ht
  unfold extractPacket
  simp only [hiff]
  by_cases hv : p.pid = trackPid .video
  · have ha : p.pid ≠ trackPid .audio := by
      rw [hv]
      decide
    rw [if_pos hv, extractVideo_muxed hm hp hv, hnone _ ha, List.append_nil]
    rfl
  · rw [if_neg hv, hnone _ hv, List.append_nil]
    by_cases ha : p.pid = trackPid .audio
    · rw [if_pos ha, extractAudio_muxed hm hp ha haudio]
      rfl
    · rw [if_neg ha, hnone _ ha, List.append_nil]

end

/-- **The second loop** writes the elementary streams of the packets. -/
theorem extract_stream (cc : Counters) {ps : List Packet} (hm : ∀ p ∈ ps, Muxed p)
    (haudio : ∀ p ∈ ps, Starts .audio p → 170 ≤ byteAt p.payload 4 * 256 + byteAt p.payload 5)
    (buf : Bytes) (out : Tracks) :
    extract (trackPid .audio) (trackPid .video) ⟨stream cc ps, buf⟩ out
      = some ⟨out.audio ++ ps.flatMap (esOf .audio), out.video ++ ps.flatMap (esOf .video)⟩ := by
  induction ps generalizing cc buf out with
  | nil =>
    rw [extract, if_pos (stream_nil cc), List.flatMap_nil, List.flatMap_nil, List.append_nil,
      List.append_nil]
  | cons p ps ih =>
    have hne : stream cc (p :: ps) ≠ [] := by
      rw [stream_cons]
      exact List.append_ne_nil_of_left_ne_nil (List.cons_ne_nil _ _) _
    obtain ⟨hrest, hshows⟩ := fread_stream cc p ps buf
    have hnext : (fread ⟨stream cc (p :: ps), buf⟩).2
        = ⟨stream (cc.advance p) ps, (fread ⟨stream cc (p :: ps), buf⟩).2.buf⟩ := by rw [← hrest]
    rw [extract, if_neg hne,
      extractPacket_muxed (hm p List.mem_cons_self) hshows (haudio p List.mem_cons_self),
      Option.bind_some, hnext, ih _ (fun q hq => hm q (List.mem_cons_of_mem p hq)) fun q hq =>
        haudio q (List.mem_cons_of_mem p hq)]
    simp only [List.flatMap_cons, List.append_assoc]

end Pluto.Ts

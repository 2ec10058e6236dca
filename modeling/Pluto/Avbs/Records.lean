import Pluto.Bytes.Scanf
import Pluto.Muxer.Writer

/-!
# `V3_avbs`: the recordings that the test programs read

`avbs_extractor.c` and `muxer_test.c` read the same file: the codec-specific data of the two tracks,
each behind a text of 15 bytes, then packets, each behind a text of 42 bytes.

* `fread`, `Reader` the file, the arrays `text` and `buf`, and the variables that `sscanf` sets;
* `Reader.csd`           what both programs do for the codec-specific data of a track;
* `whileText`            `while (fread(text, 1, 42, fp0))`;
* `CsdRecord`, `Record`, `Recording` a file as it should be;
* `whileText_records`    an invariant of the loop over the packets of a recording.
-/

namespace Pluto.Avbs
open Octets Scanf

/-! ## reading -/

/-- the variables of `main` that `sscanf` sets -/
structure Vars where
  idx : Int
  flag : Int
  pts : Int
  dura : Int
  size0 : Int
  size1 : Int

inductive Var where
  | idx
  | flag
  | pts
  | dura
  | size0
  | size1

def Vars.set (v : Vars) : Var → Int → Vars
  | .idx, x => { v with idx := x }
  | .flag, x => { v with flag := x }
  | .pts, x => { v with pts := x }
  | .dura, x => { v with dura := x }
  | .size0, x => { v with size0 := x }
  | .size1, x => { v with size1 := x }

/-- the size of `buf` -/
def bufSize : Nat := 1024 * 1024

/-- `fp0` behind what has been read, `text`, `buf`, and the variables -/
structure Reader where
  fp0 : Bytes
  text : Bytes
  buf : Bytes
  vars : Vars

/-- `fread(dst + off, 1, n, fp)`: the count, the array and what is left; `none` where bytes outside
the array would be written.  A negative `n` is a huge `size_t` -/
def fread (dst : Bytes) (off n : Int) (fp : Bytes) : Option (Nat × Bytes × Bytes) :=
  let cnt := min (n % 2 ^ 64).toNat fp.length
  if 0 ≤ off ∧ off + cnt ≤ dst.length then
    some (cnt, overlay dst off.toNat (fp.take cnt), fp.drop cnt) else none

/-- `fwrite(buf, 1, n, fp)`: what is written; `none` where bytes outside the array would be read -/
def fwrite (buf : Bytes) (n : Int) : Option Bytes :=
  if 0 ≤ n ∧ n ≤ buf.length then some (buf.take n.toNat) else none

/-- `fread(text, 1, n, fp0)` -/
def Reader.readText (n : Nat) (r : Reader) : Option (Nat × Reader) :=
  (fread r.text 0 n r.fp0).map fun x => (x.1, { r with text := x.2.1, fp0 := x.2.2 })

/-- `fread(buf + off, 1, n, fp0)` -/
def Reader.readBuf (off n : Int) (r : Reader) : Option Reader :=
  (fread r.buf off n r.fp0).map fun x => { r with buf := x.2.1, fp0 := x.2.2 }

/-- `sscanf(text, fmt, ...)` -/
def Reader.scan (fmt : List Char) (vars : List Var) (r : Reader) : Option Reader :=
  (sscanf (directives fmt) (cString r.text)).map fun vs =>
    { r with vars := (vars.zip vs).foldl (fun v x => v.set x.1 x.2) r.vars }

def csdFormat : List Char :=
  ['$', '$', 'A', 'V', '$', '$', 'c', 's', 'd', '%', 'd', ',', '%', 'd', ':']

def packetFormat : List Char :=
  ['$', '$', 'A', 'V', '$', '$', '%', 'd', ',', '%', 'd', ',', '%', 'l', 'l', 'd', ',', '%', 'd',
    ',', '%', 'd', ',', '%', 'd', ':']

/-- the variables of a text of codec-specific data -/
def csdVars : List Var := [.idx, .size0]

/-- the variables of the text of a packet -/
def packetVars : List Var := [.idx, .flag, .pts, .dura, .size0, .size1]

/-- a text of 15 bytes is read, and then `size0` bytes into `buf` -/
def Reader.csd (r : Reader) : Option Reader :=
  (r.readText 15).bind fun x => (x.2.scan csdFormat csdVars).bind fun r => r.readBuf 0 r.vars.size0

/-- the text of a packet is looked at, and its first `size0` bytes are read into `buf` -/
def Reader.packet (r : Reader) : Option Reader :=
  (r.scan packetFormat packetVars).bind fun r => r.readBuf 0 r.vars.size0

theorem readText_fp0 {n : Nat} {r r' : Reader} {cnt : Nat} (h : r.readText n = some (cnt, r')) :
    r'.fp0.length = r.fp0.length - cnt ∧ cnt ≤ r.fp0.length := by
  unfold Reader.readText fread at h
  obtain ⟨x, hx, hr⟩ := Option.map_eq_some_iff.mp h
  dsimp only at hx
  split at hx
  · cases hx
    cases hr
    rw [List.length_drop]
    exact ⟨rfl, min_le_right _ _⟩
  · cases hx

theorem readBuf_fp0 {off n : Int} {r r' : Reader} (h : r.readBuf off n = some r') :
    r'.fp0.length ≤ r.fp0.length := by
  unfold Reader.readBuf fread at h
  obtain ⟨x, hx, hr⟩ := Option.map_eq_some_iff.mp h
  dsimp only at hx
  split at hx
  · cases hx
    cases hr
    rw [List.length_drop]
    exact Nat.sub_le _ _
  · cases hx

theorem scan_fp0 {fmt : List Char} {vars : List Var} {r r' : Reader}
    (h : r.scan fmt vars = some r') :
    r'.fp0 = r.fp0 := by
  obtain ⟨vs, -, hr⟩ := Option.map_eq_some_iff.mp h
  cases hr
  rfl

theorem packet_fp0 {r r' : Reader} (h : r.packet = some r') : r'.fp0.length ≤ r.fp0.length := by
  obtain ⟨r₁, hscan, hread⟩ := Option.bind_eq_some_iff.mp h
  rw [← scan_fp0 hscan]
  exact readBuf_fp0 hread

/-! ## the loop over the packets -/

/-- the body of the loop: it may use the rest of the file and gives the state of the program behind
it -/
structure Body (σ : Type) where
  run : Reader → σ → Option (Reader × σ)
  reads : ∀ {r s x}, run r s = some x → x.1.fp0.length ≤ r.fp0.length

/-- `while (fread(text, 1, 42, fp0))` -/
def whileText {σ : Type} (body : Body σ) (r : Reader) (s : σ) : Option (Reader × σ) :=
  match _ : r.readText 42 with
  | none => none
  | some (cnt, r') =>
    if _ : cnt = 0 then some (r', s)
    else match _ : body.run r' s with
      | none => none
      | some x => whileText body x.1 x.2
termination_by r.fp0.length
decreasing_by
  have hread := readText_fp0 ‹r.readText 42 = _›
  have hle := body.reads ‹body.run r' s = _›
  omega

section
variable {σ : Type} (body : Body σ) {r r' : Reader} {s : σ}

theorem whileText_end (h : r.readText 42 = some (0, r')) : whileText body r s = some (r', s) := by
  rw [whileText]
  split
  · rename_i hnone
    rw [hnone] at h
    cases h
  · rename_i hsome
    rw [hsome] at h
    cases h
    exact dif_pos rfl

theorem whileText_next {cnt : Nat} (h : r.readText 42 = some (cnt, r')) (hcnt : cnt ≠ 0) :
    whileText body r s = (body.run r' s).bind fun x => whileText body x.1 x.2 := by
  rw [whileText]
  split
  · rename_i hnone
    rw [hnone] at h
    cases h
  · rename_i hsome
    rw [hsome] at h
    cases h
    rw [dif_neg hcnt]
    split
    · rename_i hbody
      rw [hbody]
      rfl
    · rename_i hbody
      rw [hbody]
      rfl

end

/-! ## a recording -/

/-- `stream_idx` of a track -/
def trackIdx : CodecType → Int
  | .video => 0
  | .audio => 1

/-- the codec-specific data of a track, behind its text -/
structure CsdRecord (t : CodecType) where
  csd : Bytes
  text : Bytes
  printed : Printed (directives csdFormat) text [trackIdx t, csd.length]
  length : text.length = 15
  room : csd.length ≤ bufSize

/-- a packet behind its text -/
structure Record where
  track : CodecType
  flag : Int
  pts : Int
  dura : Int
  seg0 : Bytes
  seg1 : Bytes
  text : Bytes
  printed : Printed (directives packetFormat) text
    [trackIdx track, flag, pts, dura, seg0.length, seg1.length]
  length : text.length = 42
  room : seg0.length + seg1.length ≤ bufSize

def CsdRecord.bytes {t : CodecType} (c : CsdRecord t) : Bytes := c.text ++ c.csd

def Record.bytes (p : Record) : Bytes := p.text ++ (p.seg0 ++ p.seg1)

def Record.payload (p : Record) : Bytes := p.seg0 ++ p.seg1

structure Recording where
  video : CsdRecord .video
  audio : CsdRecord .audio
  packets : List Record

def Recording.file (R : Recording) : Bytes :=
  R.video.bytes ++ (R.audio.bytes ++ R.packets.flatMap Record.bytes)

/-- the packets of a track -/
def Recording.track (R : Recording) (t : CodecType) : List Record := R.packets.filter (·.track = t)

/-- the variables behind a packet -/
def Record.vars (p : Record) : Vars :=
  ⟨trackIdx p.track, p.flag, p.pts, p.dura, p.seg0.length, p.seg1.length⟩

/-! ## a record is read -/

/-- the two arrays: behind the first `k` bytes there are NULs in `text` -/
structure Ready (k : Nat) (r : Reader) : Prop where
  text : r.text.length = 64
  nul : r.text.drop k = zeros (64 - k)
  buf : r.buf.length = bufSize

theorem overlay_start (s b : Bytes) (h : b.length ≤ s.length) :
    overlay s 0 b = b ++ s.drop b.length := by
  have hmid :=
    overlay_mid [] (s.take b.length) (s.drop b.length) b (by rw [List.length_take]; omega)
  rwa [List.nil_append, List.take_append_drop] at hmid

theorem fread_all {dst : Bytes} {off : Nat} (b rest : Bytes) (h : off + b.length ≤ dst.length)
    (hlt : b.length < 2 ^ 64) :
    fread dst off b.length (b ++ rest) = some (b.length, overlay dst off b, rest) := by
  have hmod : (b.length : Int) % 2 ^ 64 = b.length :=
    Int.emod_eq_of_lt (by omega) (by exact_mod_cast hlt)
  have hmin : min ((b.length : Int) % 2 ^ 64).toNat (b ++ rest).length = b.length := by
    rw [hmod, Int.toNat_natCast, List.length_append]
    omega
  unfold fread
  dsimp only
  rw [hmin, if_pos ⟨Int.natCast_nonneg _, by omega⟩, List.take_left, List.drop_left,
    Int.toNat_natCast]

/-- the reader behind a text of `n` bytes -/
def Reader.behind (r : Reader) (n : Nat) (t rest : Bytes) : Reader :=
  { r with text := t ++ zeros (64 - n), fp0 := rest }

section
variable {k : Nat} {r : Reader}

/-- a text is read over a shorter one -/
theorem Ready.readText (h : Ready k r) {n : Nat} {t rest : Bytes} (ht : t.length = n) (hk : k ≤ n)
    (hn : n ≤ 64) (hfp : r.fp0 = t ++ rest) :
    r.readText n = some (n, r.behind n t rest) ∧ Ready n (r.behind n t rest) := by
  subst ht
  have hdrop : r.text.drop t.length = zeros (64 - t.length) := by
    have hd := congrArg (List.drop (t.length - k)) h.nul
    rw [List.drop_drop, Nat.add_sub_cancel' hk] at hd
    rw [hd, zeros, zeros, List.drop_replicate]
    congr 1
    omega
  have hroom : 0 + t.length ≤ r.text.length := by rw [h.text]; omega
  have hread := fread_all t rest hroom (by omega)
  rw [overlay_start _ _ (by omega), hdrop] at hread
  constructor
  · unfold Reader.readText
    rw [hfp, show (0 : Int) = (0 : Nat) from rfl, hread]
    rfl
  · refine ⟨?_, List.drop_left, h.buf⟩
    show (t ++ zeros (64 - t.length)).length = 64
    rw [List.length_append, zeros_length]
    omega

theorem readText_end (hfp : r.fp0 = []) (n : Nat) : r.readText n = some (0, r) := by
  have hmin : min ((n : Int) % 2 ^ 64).toNat ([] : Bytes).length = 0 := Nat.min_zero _
  unfold Reader.readText fread
  rw [hfp]
  dsimp only
  rw [hmin, if_pos ⟨le_rfl, by omega⟩, List.take_zero, overlay_nil, List.drop_zero, ← hfp]
  rfl

theorem Ready.vars (h : Ready k r) (v : Vars) : Ready k { r with vars := v } :=
  ⟨h.text, h.nul, h.buf⟩

theorem Ready.readBuf (h : Ready k r) {b rest : Bytes} {off : Nat} (hb : off + b.length ≤ bufSize)
    (hfp : r.fp0 = b ++ rest) :
    r.readBuf off b.length = some { r with buf := overlay r.buf off b, fp0 := rest } := by
  have hsize : bufSize < 2 ^ 64 := by decide
  unfold Reader.readBuf
  rw [hfp, fread_all b rest (by rw [h.buf]; exact hb) (by omega)]
  rfl

/-- a store inside the buffer -/
theorem Ready.stored (h : Ready k r) {b : Bytes} {off : Nat} (hb : off + b.length ≤ bufSize) :
    (overlay r.buf off b).length = bufSize := by
  by_cases hne : b = []
  · rw [hne, overlay_nil, h.buf]
  · rw [overlay_length _ _ hne, h.buf, max_eq_left hb]

/-- a text that is printed is scanned -/
theorem scan_printed {fmt : List Char} {text : Bytes} {vs : List Int}
    (hprinted : Printed (directives fmt) text vs) (hfmt : Directive.char 0 ∉ directives fmt)
    (vars : List Var) {n : Nat} (htext : r.text = text ++ zeros n) :
    r.scan fmt vars = some { r with
      vars := (vars.zip vs).foldl (fun v x => v.set x.1 x.2) r.vars } := by
  unfold Reader.scan
  rw [htext, hprinted.scanned hfmt]
  rfl

/-- **The codec-specific data of a track is read.** -/
theorem Ready.csd (h : Ready k r) (hk : k ≤ 15) {t : CodecType} (c : CsdRecord t) {rest : Bytes}
    (hfp : r.fp0 = c.bytes ++ rest) :
    ∃ r', r.csd = some r' ∧ r'.fp0 = rest ∧ Ready 15 r' ∧ r'.buf = overlay r.buf 0 c.csd ∧
      r'.vars = { r.vars with idx := trackIdx t, size0 := c.csd.length } := by
  rw [CsdRecord.bytes, List.append_assoc] at hfp
  obtain ⟨htext, hready⟩ := h.readText c.length hk (by decide) hfp
  have hscan :=
    scan_printed (r := r.behind 15 c.text (c.csd ++ rest)) c.printed (by decide) csdVars rfl
  have hroom : 0 + c.csd.length ≤ bufSize := by rw [Nat.zero_add]; exact c.room
  have hread :=
    (hready.vars { r.vars with idx := trackIdx t, size0 := c.csd.length }).readBuf hroom rfl
  refine ⟨⟨rest, c.text ++ zeros (64 - 15), overlay r.buf 0 c.csd,
    { r.vars with idx := trackIdx t, size0 := c.csd.length }⟩, ?_, rfl, ?_, rfl, rfl⟩
  · unfold Reader.csd
    rw [htext, Option.bind_some, hscan, Option.bind_some]
    exact hread
  · exact ⟨hready.text, hready.nul, hready.stored hroom⟩

/-- **The first segment of a packet is read.** -/
theorem Ready.packet (h : Ready 42 r) {p : Record} {rest : Bytes}
    (htext : r.text = p.text ++ zeros 22) (hfp : r.fp0 = p.seg0 ++ rest) :
    r.packet = some { r with fp0 := rest, buf := overlay r.buf 0 p.seg0, vars := p.vars } := by
  have hscan := scan_printed p.printed (by decide) packetVars htext
  have hroom : 0 + p.seg0.length ≤ bufSize := by
    have := p.room
    omega
  have hread := (h.vars p.vars).readBuf hroom hfp
  unfold Reader.packet
  rw [hscan, Option.bind_some]
  exact hread

end

section
variable {σ : Type} (body : Body σ) {I : List Record → Vars → σ → Prop}

/-- the body keeps, at every packet, an invariant of the packets that were read, the variables and
the state -/
def Keeps (I : List Record → Vars → σ → Prop) : Prop :=
  ∀ done p r s rest, I done r.vars s → Ready 42 r → r.text = p.text ++ zeros 22 →
    r.fp0 = p.seg0 ++ (p.seg1 ++ rest) →
    ∃ r' s', body.run r s = some (r', s') ∧ r'.fp0 = rest ∧ Ready 42 r' ∧ I (done ++ [p]) r'.vars s'

theorem whileText_from (hstep : Keeps body I) {done ps : List Record} {r : Reader} {s : σ} {k : Nat}
    (hk : k ≤ 42) (h : Ready k r) (hI : I done r.vars s) (hfp : r.fp0 = ps.flatMap Record.bytes) :
    ∃ r' s', whileText body r s = some (r', s') ∧ I (done ++ ps) r'.vars s' := by
  induction ps generalizing done r s k with
  | nil => exact ⟨r, s, whileText_end body (readText_end hfp 42), by rw [List.append_nil]; exact hI⟩
  | cons p ps ih =>
    rw [List.flatMap_cons, Record.bytes, List.append_assoc, List.append_assoc] at hfp
    obtain ⟨htext, hready⟩ := h.readText p.length hk (by decide) hfp
    obtain ⟨r₁, s₁, hrun, hfp₁, hready₁, hI₁⟩ :=
      hstep done p (r.behind 42 p.text _) s (ps.flatMap Record.bytes) hI hready rfl rfl
    obtain ⟨r', s', hloop, hend⟩ := ih le_rfl hready₁ hI₁ hfp₁
    refine ⟨r', s', ?_, ?_⟩
    · rw [whileText_next body htext (by decide), hrun]
      exact hloop
    · rwa [List.append_assoc] at hend

/-- **The loop over the packets of a recording** ends, and an invariant that the body keeps holds
behind it. -/
theorem whileText_records (hstep : Keeps body I) {ps : List Record} {r : Reader} {s : σ} {k : Nat}
    (hk : k ≤ 42) (h : Ready k r) (hI : I [] r.vars s) (hfp : r.fp0 = ps.flatMap Record.bytes) :
    ∃ r' s', whileText body r s = some (r', s') ∧ I ps r'.vars s' :=
  whileText_from body hstep hk h hI hfp

end

/-! ## texts -/

/-- the index of a track in one digit, a size in three -/
def csdText (t : CodecType) (size : Nat) : Bytes :=
  [36, 36, 65, 86, 36, 36, 99, 115, 100] ++ ((Numeral.padded 0 (trackIdx t).toNat).text ++
    (44 :: ((Numeral.padded 2 size).text ++ [58])))

/-- index and flag in one digit, the time in ten, duration and sizes in six -/
def packetText (t : CodecType) (flag pts dura size0 size1 : Nat) : Bytes :=
  [36, 36, 65, 86, 36, 36]
    ++ ((Numeral.padded 0 (trackIdx t).toNat).text ++ (44 :: ((Numeral.padded 0 flag).text ++
    (44 :: ((Numeral.padded 9 pts).text
      ++ (44 :: ((Numeral.padded 5 dura).text ++ (44 :: ((Numeral.padded 5 size0).text ++
      (44 :: ((Numeral.padded 5 size1).text ++ [58])))))))))))

/-- a numeral that is printed with a comma or a colon behind it -/
theorem printed_padded {w n bits : Nat} (hn : n < 10 ^ (w + 1)) (hbits : n < 2 ^ (bits - 1))
    {ds : List Directive} {c : UInt8} {text : Bytes} {vs : List Int} (hc : isDigit c = false)
    (h : Printed ds (c :: text) vs) :
    Printed (.int bits :: ds) ((Numeral.padded w n).text ++ (c :: text)) (n :: vs) := by
  have hvalue := Numeral.padded_value hn
  have hfits : Fits bits (Numeral.padded w n).value := by
    rw [hvalue]
    exact ⟨(neg_nonpos.mpr (by positivity)).trans (Int.natCast_nonneg n), by exact_mod_cast hbits⟩
  rw [← hvalue]
  exact .int _ hfits (by simp [hc]) h

theorem csdText_printed (t : CodecType) {size : Nat} (h : size < 1000) :
    Printed (directives csdFormat) (csdText t size) [trackIdx t, size] := by
  have hsize : Printed [.int 32, .char 58] ((Numeral.padded 2 size).text ++ [58]) [size] :=
    printed_padded h (by omega) rfl (.char 58 .nil)
  have hidx : Printed [.int 32, .char 44, .int 32, .char 58] _ [((trackIdx t).toNat : Int), size] :=
    printed_padded (w := 0) (by cases t <;> decide) (by cases t <;> decide) rfl (.char 44 hsize)
  have htrack : ((trackIdx t).toNat : Int) = trackIdx t := by cases t <;> rfl
  rw [htrack] at hidx
  exact .char _ (.char _ (.char _ (.char _ (.char _ (.char _ (.char _ (.char _ (.char _ hidx))))))))

theorem packetText_printed (t : CodecType) {flag pts dura size0 size1 : Nat} (hflag : flag < 10)
    (hpts : pts < 10 ^ 10) (hdura : dura < 10 ^ 6) (h0 : size0 < 10 ^ 6) (h1 : size1 < 10 ^ 6) :
    Printed (directives packetFormat) (packetText t flag pts dura size0 size1)
      [trackIdx t, flag, pts, dura, size0, size1] := by
  have hsize1 : Printed [.int 32, .char 58] _ [(size1 : Int)] :=
    printed_padded h1 (by omega) rfl (.char 58 .nil)
  have hsize0 : Printed (.int 32 :: .char 44 :: _) _ ((size0 : Int) :: _) :=
    printed_padded h0 (by omega) rfl (.char 44 hsize1)
  have htime : Printed (.int 32 :: .char 44 :: _) _ ((dura : Int) :: _) :=
    printed_padded hdura (by omega) rfl (.char 44 hsize0)
  have hstamp : Printed (.int 64 :: .char 44 :: _) _ ((pts : Int) :: _) :=
    printed_padded hpts (by omega) rfl (.char 44 htime)
  have hkind : Printed (.int 32 :: .char 44 :: _) _ ((flag : Int) :: _) :=
    printed_padded (w := 0) hflag (by omega) rfl (.char 44 hstamp)
  have hidx : Printed (.int 32 :: .char 44 :: _) _ (((trackIdx t).toNat : Int) :: _) :=
    printed_padded (w := 0) (by cases t <;> decide) (by cases t <;> decide) rfl (.char 44 hkind)
  have htrack : ((trackIdx t).toNat : Int) = trackIdx t := by cases t <;> rfl
  rw [htrack] at hidx
  exact .char _ (.char _ (.char _ (.char _ (.char _ (.char _ hidx)))))

/-- codec-specific data of less than 1000 bytes can be recorded -/
def CsdRecord.of (t : CodecType) (csd : Bytes) (h : csd.length < 1000) : CsdRecord t where
  csd := csd
  text := csdText t csd.length
  printed := csdText_printed t h
  length := by simp [csdText]
  room := by
    have : bufSize = 1024 * 1024 := rfl
    omega

/-- so can a packet whose numbers have at most so many digits -/
def Record.of (t : CodecType) (flag pts dura : Nat) (seg0 seg1 : Bytes) (hflag : flag < 10)
    (hpts : pts < 10 ^ 10) (hdura : dura < 10 ^ 6) (h : seg0.length + seg1.length < 10 ^ 6) :
    Record where
  track := t
  flag := flag
  pts := pts
  dura := dura
  seg0 := seg0
  seg1 := seg1
  text := packetText t flag pts dura seg0.length seg1.length
  printed := packetText_printed t hflag hpts hdura (by omega) (by omega)
  length := by simp [packetText]
  room := by
    have : bufSize = 1024 * 1024 := rfl
    omega

/-- a key frame, a frame of sound in two pieces, another picture -/
def smallRecording : Recording where
  video :=
  .of .video [0, 0, 0, 1, 0x67, 0x42, 0xc0, 0x1e, 0, 0, 0, 1, 0x68, 0xce, 0x3c, 0x80] (by decide)
  audio := .of .audio [0x14, 0x08] (by decide)
  packets := [
    .of .video 1 1000 0 [0, 0, 0, 1, 0x65, 7] [8] (by decide) (by decide) (by decide) (by decide),
    .of .audio 0 1010 64 [1, 2] [3] (by decide) (by decide) (by decide) (by decide),
    .of .video 0 1040 40 [0, 0, 0, 1, 0x41] [] (by decide) (by decide) (by decide) (by decide)]

end Pluto.Avbs

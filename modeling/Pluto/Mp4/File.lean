import Pluto.Mp4.Nesting
import Pluto.Cache.Refine

/-!
# The file of a session

* `At`                   the contents and the position of a stream that accepts every write;
* `sessionFile`          what header, packets and trailer store, one store over the other;
* `mp4File_spec`         a session over a cache of any size leaves this file;
* `file_tiled`           on an empty file the result is a sequence of boxes from its first byte to
  its last.
-/

namespace Pluto.Mp4
open Octets Boxes SampleTables

/-! ## operations on a stream -/

structure At (s : MmStreamInfo) (contents : Bytes) (pos : Nat) : Prop where
  contents : s.contents = contents
  pos : s.pos = pos
  full : s.AlwaysFull

theorem run_append (s : MmStreamInfo) (a b : List CacheOp) :
    (s.run (a ++ b)).2 = ((s.run a).2.run b).2 := by
  induction a generalizing s with
  | nil => rfl
  | cons op a ih => exact ih (s.apply op).2

theorem cache_run_append (c : CacheSimpleContext) (a b : List CacheOp) :
    (c.run (a ++ b)).2 = ((c.run a).2.run b).2 := by
  induction a generalizing c with
  | nil => rfl
  | cons op a ih => exact ih (c.apply op).2

theorem At.writes {s : MmStreamInfo} {contents : Bytes} {pos : Nat} (h : At s contents pos)
    (ws : List CacheWrite) :
    At (s.run (writeOps ws)).2 (overlay contents pos (emitted ws)) (pos + (emitted ws).length) := by
  induction ws generalizing s contents pos with
  | nil =>
    rw [emitted_nil, overlay_nil]
    exact h
  | cons w ws ih =>
    have hone : At (s.apply (.write w.bytes)).2 (overlay contents pos w.bytes)
        (pos + w.bytes.length) := by
      show At (mmWriteStreamFile s w.bytes).2.2 _ _
      rw [mmWriteStreamFile_full s h.full]
      refine ⟨?_, ?_, h.full⟩
      · rw [fpCall_contents, ← h.contents, ← h.pos]
        rfl
      · rw [fpCall_pos, ← h.pos]
        rfl
    have hrest := ih hone
    rw [overlay_append, Nat.add_assoc, ← List.length_append] at hrest
    exact hrest

theorem mmSeekStreamFile_set (s : MmStreamInfo) {p : Nat} (hp : p ≤ 2 ^ 40) :
    mmSeekStreamFile s p .seekSet = (0, { s with
      file := s.contents
      fdPos := p
      held := []
      calls := .fseeko p .seekSet :: s.calls }) := by
  unfold mmSeekStreamFile
  refine if_pos ⟨Int.natCast_nonneg p, ?_⟩
  show (p : Int) ≤ int64Max
  unfold int64Max
  omega

theorem At.seek {s : MmStreamInfo} {contents : Bytes} {pos : Nat} (h : At s contents pos) {p : Nat}
    (hp : p ≤ 2 ^ 40) :
    At (s.run [.seek p .seekSet]).2 contents p := by
  show At (mmSeekStreamFile s p .seekSet).2 _ _
  rw [mmSeekStreamFile_set s hp]
  exact ⟨(overlay_nil _ _).trans h.contents, rfl, h.full⟩

/-- the file behind a cache that has just been asked for its position -/
theorem run_told {c : CacheSimpleContext} {s : MmStreamInfo} (h : Refines c s) {ops : List CacheOp}
    (hops : ∀ length, CacheOp.truncate length ∉ ops) :
    (c.run (ops ++ [.tell])).2.mpStream.contents = (s.run ops).2.contents := by
  obtain ⟨-, hrun⟩ := h.run (cutsAlike_of_no_truncate hops c s)
  obtain ⟨-, -, hc, -⟩ := shows_flush hrun.shows
  rw [cache_run_append]
  exact hc

/-! ## the stores of a session -/

/-- `ftyp`, and the header of the `free` box behind it -/
def headBytes : Bytes := emitted (movWriteFtypTag ++ movWriteFreeTag (movHeaderReserveSize - 28))

def mdatHead (size : Nat) : Bytes := be 4 size ++ (fourcc 'm' 'd' 'a' 't').val

/-- header, packets, `moov` at its place, size of `mdat` -/
def sessionFile (contents : Bytes) (pos : Nat) (data : Bytes) (place : Nat) (moov : Bytes) :
    Bytes :=
  overlay (overlay (overlay (overlay contents pos headBytes) movHeaderReserveSize
    (mdatHead 0 ++ data)) place moov)
    movHeaderReserveSize (be 4 (data.length + 8))

/-- where `moov` goes -/
def moovPlace (env : Env) (mov : MOVContext) (data : Bytes) : Nat :=
  if moovFits env mov then 28 else mdatStart + data.length

/-- `moov`, and the header of the `free` box behind it where there is one -/
def moovBytes (env : Env) (mov : MOVContext) (box : List CacheWrite) : Bytes :=
  emitted box ++ if moovFits env mov then
    emitted (movWriteFreeTag (u32 (movHeaderReserveSize - moovSize env mov - 28))) else []

theorem emitted_mdatHead (size : Nat) :
    emitted (putBe32 size ++ putTag (fourcc 'm' 'd' 'a' 't')) = mdatHead size := by
  rw [emitted_append, emitted_putBe32, emitted_putTag (by decide)]
  rfl

/-- `mov_write_moov_tag` from the end of the payload on -/
theorem At.moov {s : MmStreamInfo} {contents data : Bytes} {env : Env} {mov : MOVContext}
    (h : At s contents (mdatStart + data.length)) (hfree : mov.free_pos = 28)
    {r : List CacheOp × MOVContext} (hr : movWriteMoovTag env mov = some r) :
    ∃ box pos, movWriteMoovBox env mov = some (box, r.2) ∧
      At (s.run r.1).2 (overlay contents (moovPlace env mov data) (moovBytes env mov box)) pos := by
  obtain ⟨box, hbox, rfl⟩ := Option.map_eq_some_iff.mp hr
  refine ⟨box.1, moovPlace env mov data + (moovBytes env mov box.1).length, hbox, ?_⟩
  dsimp only
  unfold moovPlace moovBytes
  rw [hfree]
  by_cases hfits : moovFits env mov
  · rw [if_pos hfits, if_pos hfits, if_pos hfits, if_pos hfits, run_append, run_append,
      ← emitted_append]
    have hseek := h.seek (p := 28) (by norm_num)
    have hwrite :=
      (hseek.writes box.1).writes
        (movWriteFreeTag (u32 (movHeaderReserveSize - moovSize env mov - 28)))
    rw [overlay_append, Nat.add_assoc, ← List.length_append, ← emitted_append] at hwrite
    exact hwrite
  · rw [if_neg hfits, if_neg hfits, if_neg hfits, if_neg hfits, List.nil_append, List.append_nil,
      List.append_nil]
    exact h.writes box.1

/-- writing `moov` changes no position and no size -/
theorem moov_keeps {env : Env} {mov : MOVContext}
    (hplain : ∀ i ∈ writtenTracks mov, Plain (mov.tracks i)) {r : List CacheWrite × MOVContext}
    (hr : movWriteMoovBox env mov = some r) :
    r.2.mdat_pos = mov.mdat_pos ∧ r.2.mdat_size = mov.mdat_size := by
  obtain ⟨-, -, p, hp, -⟩ := emitted_moov hplain hr
  rw [hp]
  unfold MOVContext.prepared MOVContext.fillTitle
  split <;> exact ⟨rfl, rfl⟩

/-! ## a session -/

/-- what a session is made of: the packets, the current chunk behind them, and the context in front
of `moov` -/
structure Parts (ctx : AVFormatContext) (calls : List (Mem × AVPacket)) (total : Option Int)
    (body : List CacheWrite × AVFormatContext) (u : CodecType) (c : Chunk) (mov : MOVContext) :
    Prop where
  packets : packets ctx.headed calls = some body
  data : emitted body.1 = payload (events ctx.streams calls)
  current : (layout mdatStart (events ctx.streams calls)).current = some (u, c)
  context : mov = (totalTime body.2 total).priv_data.endChunk u
  last : movWritePacket (totalTime body.2 total) (fun _ => 0) lastPacket
    = some (0, [], { totalTime body.2 total with priv_data := mov })
  closed : Closed ctx.headed.priv_data.setup mov (events ctx.streams calls)

/-- header and packets -/
def bodyOps (body : List CacheWrite) : List CacheOp :=
  writeOps (movWriteFtypTag ++ movWriteFreeTag (movHeaderReserveSize - 28))
    ++ [.seek movHeaderReserveSize .seekSet]
    ++ writeOps (putBe32 0 ++ putTag (fourcc 'm' 'd' 'a' 't')) ++ writeOps body

/-- `mov_write_trailer` between `mov_write_moov_tag` and the last call of `tell` -/
def finishOps (mov : MOVContext) : List CacheOp :=
  [CacheOp.seek mov.mdat_pos .seekSet] ++ writeOps (putBe32 (mov.mdat_size + 8))
    ++ [.flush, .seek 0 .seekEnd]

/-- a session truncates nothing -/
theorem session_no_truncate {env : Env} {mov : MOVContext} {moov : List CacheOp × MOVContext}
    (hmoov : movWriteMoovTag env mov = some moov) (body : List CacheWrite) (length : Int) :
    CacheOp.truncate length ∉ bodyOps body ++ (moov.1 ++ finishOps moov.2) := by
  have hwrites : ∀ ws, CacheOp.truncate length ∉ writeOps ws := by simp [writeOps]
  obtain ⟨box, -, rfl⟩ := Option.map_eq_some_iff.mp hmoov
  by_cases hfits : moovFits env mov <;> simp [bodyOps, finishOps, hfits, hwrites]

theorem mp4Session_parts (env : Env) {ctx : AVFormatContext} (hf : Fresh ctx)
    (hn : ctx.mTrackCnt ≤ 2) {calls : List (Mem × AVPacket)} (hs : Streamed calls)
    (hne : calls ≠ []) (total : Option Int) :
    ∃ body u c mov, Parts ctx calls total body u c mov ∧
      (mp4Session env ctx calls total).map Prod.fst = (movWriteMoovTag env mov).map fun moov =>
        bodyOps body.1 ++ (moov.1 ++ finishOps moov.2) ++ [.tell] := by
  obtain ⟨ws, mov, hbody, hdata⟩ := packets_some ctx.headed hs
  obtain ⟨u, c, hcur, hlast, hclosed⟩ := packets_closed hf hs hne total hbody
  refine ⟨_, u, c, _, ⟨hbody, hdata, hcur, rfl, hlast, hclosed⟩, ?_⟩
  unfold mp4Session movWriteHeader
  rw [if_pos hn, Option.bind_some, hbody, Option.bind_some]
  unfold movWriteTrailer
  rw [show Option.elim total _ _ = totalTime { ctx.headed with priv_data := mov } total from rfl,
    hlast, Option.bind_some, Option.map_map, Option.map_map]
  refine congrArg (fun f => Option.map f _) ?_
  funext moov
  simp only [Function.comp_apply, bodyOps, finishOps, List.append_assoc, List.cons_append,
    List.nil_append]

/-- a session has a result where each track can be written -/
theorem Parts.session_isSome {env : Env} {ctx : AVFormatContext} (hf : Fresh ctx)
    {calls : List (Mem × AVPacket)} {total : Option Int} {body : List CacheWrite × AVFormatContext}
    {u : CodecType} {c : Chunk} {mov : MOVContext} (h : Parts ctx calls total body u c mov)
    {f : List CacheOp × MOVContext → List CacheOp}
    (hsession : (mp4Session env ctx calls total).map Prod.fst = (movWriteMoovTag env mov).map f) :
    (mp4Session env ctx calls total).isSome ↔
      ∀ i ∈ writtenTracks mov, Writable env (mov.tracks i) := by
  rw [← Option.isSome_map (f := Prod.fst), hsession, Option.isSome_map, movWriteMoovTag,
    Option.isSome_map]
  exact moov_isSome fun i hi => h.closed.plain hf hi

/-- the header, on a stream that accepts every write -/
theorem At.header {s : MmStreamInfo} {contents : Bytes} {pos : Nat} (h : At s contents pos)
    (body : List CacheWrite) :
    At (s.run (bodyOps body)).2
      (overlay (overlay contents pos headBytes) movHeaderReserveSize (mdatHead 0 ++ emitted body))
      (mdatStart + (emitted body).length) := by
  have hhead := h.writes (movWriteFtypTag ++ movWriteFreeTag (movHeaderReserveSize - 28))
  have hseek := hhead.seek (p := movHeaderReserveSize) (by norm_num [movHeaderReserveSize])
  have hmdat := (hseek.writes (putBe32 0 ++ putTag (fourcc 'm' 'd' 'a' 't'))).writes body
  rw [overlay_append, emitted_mdatHead] at hmdat
  rw [bodyOps, run_append, run_append, run_append]
  exact hmdat

/-- the trailer behind `moov` -/
theorem At.finish {s : MmStreamInfo} {contents : Bytes} {pos : Nat} (h : At s contents pos)
    {mov : MOVContext} (hpos : mov.mdat_pos = movHeaderReserveSize) :
    (s.run (finishOps mov)).2.contents
      = overlay contents movHeaderReserveSize (be 4 (mov.mdat_size + 8)) := by
  have hseek := h.seek (p := mov.mdat_pos) (by rw [hpos]; norm_num [movHeaderReserveSize])
  have hsize := hseek.writes (putBe32 (mov.mdat_size + 8))
  rw [emitted_putBe32, hpos] at hsize
  have hend : ∀ t : MmStreamInfo, (t.run [.flush, .seek 0 .seekEnd]).2.contents = t.contents := by
    intro t
    exact (mmSeekStreamFile_eq t 0 .seekEnd).1
  rw [finishOps, run_append, hend, run_append, hpos]
  exact hsize.contents

/-- **The file of a session** over a cache of any size. -/
theorem mp4File_spec (env : Env) {ctx : AVFormatContext} (hf : Fresh ctx) (hn : ctx.mTrackCnt ≤ 2)
    {s : MmStreamInfo} (hfull : s.AlwaysFull) {mpCache : Bytes} {cacheSize : Int}
    (hlen : (mpCache.length : Int) = cacheSize) {calls : List (Mem × AVPacket)}
    (hs : Streamed calls) (hne : calls ≠ []) (hp : Started calls) (total : Option Int) :
    ∃ body u c mov, Parts ctx calls total body u c mov ∧
      ((mp4File env ctx s mpCache cacheSize calls total).isSome ↔
        0 < cacheSize ∧ ∀ i ∈ writtenTracks mov, Writable env (mov.tracks i)) ∧
      ∀ out, mp4File env ctx s mpCache cacheSize calls total = some out →
        ∃ box, movWriteMoovBox env mov = some box ∧
          out.2.1 = sessionFile s.contents s.pos (emitted body.1)
            (moovPlace env mov (emitted body.1))
            (moovBytes env mov box.1) := by
  obtain ⟨body, u, c, mov, hparts, hsession⟩ := mp4Session_parts env hf hn hs hne total
  have hplain : ∀ i ∈ writtenTracks mov, Plain (mov.tracks i) :=
    fun i hi => hparts.closed.plain hf hi
  refine ⟨body, u, c, mov, hparts, ?_, ?_⟩
  · have hcache : (createCacheSimple s mpCache cacheSize).isSome ↔ 0 < cacheSize := by
      unfold createCacheSimple
      split
      · exact ⟨nofun, fun h => by omega⟩
      · exact ⟨fun _ => by omega, fun _ => rfl⟩
    rw [← hcache, ← hparts.session_isSome hf hsession]
    unfold mp4File
    cases createCacheSimple s mpCache cacheSize with
    | none => exact ⟨nofun, fun h => nomatch h.1⟩
    | some cache =>
      rw [Option.bind_some, Option.isSome_map]
      exact ⟨fun h => ⟨rfl, h⟩, fun h => h.2⟩
  · intro out hout
    obtain ⟨cache, hcache, hout⟩ := Option.bind_eq_some_iff.mp hout
    obtain ⟨session, hsome, rfl⟩ := Option.map_eq_some_iff.mp hout
    have hops := congrArg (Option.map Prod.fst) hsome
    rw [hsession, Option.map_some] at hops
    obtain ⟨moov, hmoov, hops⟩ := Option.map_eq_some_iff.mp hops
    have hstart : At s s.contents s.pos := ⟨rfl, rfl, hfull⟩
    have hfree : mov.free_pos = 28 := congrArg Setup.free_pos hparts.closed.setup
    obtain ⟨box, pos, hbox, hat⟩ := (hstart.header body.1).moov hfree hmoov
    obtain ⟨hpos, hsize⟩ := moov_keeps hplain hbox
    have hmdat : mov.mdat_size = (emitted body.1).length := by
      have hcount := packets_mdat hf hs hp hparts.packets
      rw [hparts.data, ← hcount, hparts.context]
      show (totalTime body.2 total).priv_data.mdat_size = _
      rw [totalTime_rest]
    have hreserve : mov.mdat_pos = movHeaderReserveSize :=
      congrArg Setup.mdat_pos hparts.closed.setup
    refine ⟨_, hbox, ?_⟩
    have hfile := hat.finish (hpos.trans hreserve)
    rw [hsize, hmdat] at hfile
    have htold :=
      run_told (createCacheSimple_refines hfull hlen hcache) (session_no_truncate hmoov body.1)
    rw [hops, run_append, run_append, hfile] at htold
    exact htold

/-! ## an empty file -/

section
variable (ft fr m rest : Bytes) {h0 h1 : Bytes} {R : Nat}

/-- the third store goes to the hole between the first two -/
theorem overlay_hole (h0ne : h0 ≠ []) (hh : h0.length = h1.length) (hR : ft.length + fr.length ≤ R)
    (hfr : fr.length ≤ m.length) (hm : ft.length + m.length ≤ R) :
    overlay (overlay (overlay (overlay [] 0 (ft ++ fr)) R (h0 ++ rest)) ft.length m) R h1
      = ft ++ m ++ zeros (R - ft.length - m.length) ++ h1 ++ rest := by
  have hfirst : overlay [] 0 (ft ++ fr) = ft ++ fr := overlay_end [] (ft ++ fr)
  have hgap : zeros (R - (ft ++ fr).length)
      = zeros (m.length - fr.length) ++ zeros (R - ft.length - m.length) := by
    unfold zeros
    rw [← List.replicate_add, List.length_append]
    congr 1
    omega
  have hhole : (fr ++ zeros (m.length - fr.length)).length = m.length := by
    rw [List.length_append, zeros_length]
    omega
  have hsecond : overlay (ft ++ fr) R (h0 ++ rest)
      = ft ++ (fr ++ zeros (m.length - fr.length))
          ++ (zeros (R - ft.length - m.length) ++ h0 ++ rest) := by
    rw [overlay_gap _ _ _ (by rw [List.length_append]; exact hR) (by simp [h0ne]), hgap]
    simp only [List.append_assoc]
  have hfour : (ft ++ m ++ zeros (R - ft.length - m.length)).length = R := by
    rw [List.length_append, List.length_append, zeros_length]
    omega
  rw [hfirst, hsecond, overlay_mid _ _ _ _ hhole]
  have hthird : ft ++ m ++ (zeros (R - ft.length - m.length) ++ h0 ++ rest)
      = (ft ++ m ++ zeros (R - ft.length - m.length)) ++ h0 ++ rest := by
    simp only [List.append_assoc]
  have hlast := overlay_mid (ft ++ m ++ zeros (R - ft.length - m.length)) h0 rest h1 hh
  rw [hfour] at hlast
  rw [hthird, hlast]

/-- the third store goes behind the second one -/
theorem overlay_behind (h0ne : h0 ≠ []) (hh : h0.length = h1.length)
    (hR : ft.length + fr.length ≤ R) :
    overlay (overlay (overlay (overlay [] 0 (ft ++ fr)) R (h0 ++ rest)) (R + (h0 ++ rest).length) m)
      R h1
      = ft ++ (fr ++ zeros (R - ft.length - fr.length)) ++ (h1 ++ rest) ++ m := by
  have hfirst : overlay [] 0 (ft ++ fr) = ft ++ fr := overlay_end [] (ft ++ fr)
  have hlen : (ft ++ fr ++ zeros (R - (ft ++ fr).length)).length = R := by
    rw [List.length_append, zeros_length, List.length_append]
    omega
  have hsecond :=
    overlay_gap (ft ++ fr) (h0 ++ rest) R (by rw [List.length_append]; exact hR) (by simp [h0ne])
  have hthird := overlay_end (ft ++ fr ++ zeros (R - (ft ++ fr).length) ++ (h0 ++ rest)) m
  have hend : (ft ++ fr ++ zeros (R - (ft ++ fr).length) ++ (h0 ++ rest)).length
      = R + (h0 ++ rest).length :=
    List.length_append.trans (congrArg (· + (h0 ++ rest).length) hlen)
  rw [hend] at hthird
  have hlast := overlay_mid (ft ++ fr ++ zeros (R - (ft ++ fr).length)) h0 (rest ++ m) h1 hh
  rw [hlen] at hlast
  have hshape : ft ++ fr ++ zeros (R - (ft ++ fr).length) ++ (h0 ++ rest) ++ m
      = ft ++ fr ++ zeros (R - (ft ++ fr).length) ++ h0 ++ (rest ++ m) := by
    simp only [List.append_assoc]
  rw [hfirst, hsecond, hthird, hshape, hlast, List.length_append, ← Nat.sub_sub]
  simp only [List.append_assoc]

end

/-! ## boxes of the file -/

def ftypBox : Box :=
  leaf (fourcc 'f' 't' 'y' 'p')
    ((fourcc 'i' 's' 'o' 'm').val ++ be 4 0x200 ++ (fourcc 'i' 's' 'o' 'm').val
    ++ (fourcc 'i' 's' 'o' '2').val ++ (fourcc 'm' 'p' '4' '1').val)

def mdatBox (data : Bytes) : Box := leaf (fourcc 'm' 'd' 'a' 't') data

def freeBox (n : Nat) : Box := leaf (fourcc 'f' 'r' 'e' 'e') (zeros n)

/-- the boxes of a file; `moov` stands in front where it fits, with `free` in what it leaves -/
def fileBoxes (moov : Box) (data : Bytes) : List Box :=
  if moov.encode.length + 36 ≤ movHeaderReserveSize then
    [ftypBox, moov, freeBox (movHeaderReserveSize - 28 - (moov.encode.length + 8)), mdatBox data]
  else [ftypBox, freeBox (movHeaderReserveSize - 28 - 8), mdatBox data, moov]

theorem ftyp_length : ftypBox.encode.length = 28 := rfl

theorem emitted_ftyp : emitted movWriteFtypTag = ftypBox.encode := rfl

def freeHead (size : Nat) : Bytes := be 4 size ++ (fourcc 'f' 'r' 'e' 'e').val

theorem emitted_free (size : Nat) : emitted (movWriteFreeTag size) = freeHead size := by
  rw [movWriteFreeTag, emitted_append, emitted_putBe32, emitted_putTag (by decide)]
  rfl

theorem freeHead_length (size : Nat) : (freeHead size).length = 8 := by
  rw [freeHead, List.length_append, be_length, (fourcc 'f' 'r' 'e' 'e').property]

theorem headBytes_eq : headBytes = ftypBox.encode ++ freeHead (movHeaderReserveSize - 28) := by
  rw [headBytes, emitted_append, emitted_ftyp, emitted_free]

theorem headBytes_length : headBytes.length = 36 := by
  rw [headBytes_eq, List.length_append, ftyp_length, freeHead_length]

theorem free_encode (n : Nat) : (freeBox n).encode = freeHead (8 + n) ++ zeros n := by
  rw [freeBox, encode_eq, leaf_body, zeros_length]
  rfl

theorem mdat_encode (data : Bytes) :
    (mdatBox data).encode = be 4 (data.length + 8) ++ ((fourcc 'm' 'd' 'a' 't').val ++ data) := by
  rw [mdatBox, encode_eq, leaf_body, Nat.add_comm 8, List.append_assoc]
  rfl

theorem le_overlay (s : Bytes) (p : Nat) (b : Bytes) :
    b.length ≤ (overlay s p b).length ∧ s.length ≤ (overlay s p b).length := by
  by_cases hb : b = []
  · rw [hb, overlay_nil]
    exact ⟨Nat.zero_le _, le_rfl⟩
  · rw [overlay_length s p hb]
    omega

/-- `moov` is part of the file -/
theorem moov_le_file (contents : Bytes) (pos : Nat) (data : Bytes) (place : Nat) (moov : Bytes) :
    moov.length ≤ (sessionFile contents pos data place moov).length :=
  (le_overlay _ _ _).1.trans (le_overlay _ _ _).2

section
variable (contents : Bytes) (pos : Nat) {data moov : Bytes} {place : Nat}

/-- the payload of the packets is in the file, whatever was in it before -/
theorem sessionFile_data (h : place + moov.length ≤ mdatStart ∨ place = mdatStart + data.length) :
    mdatStart + data.length ≤ (sessionFile contents pos data place moov).length ∧
      slice (sessionFile contents pos data place moov) mdatStart data.length = data := by
  have hhead : (mdatHead 0).length = 8 := by
    rw [mdatHead, List.length_append, be_length, (fourcc 'm' 'd' 'a' 't').property]
  have hne : mdatHead 0 ++ data ≠ [] := by
    intro hnil
    have := congrArg List.length hnil
    rw [List.length_append, hhead, List.length_nil] at this
    omega
  have hbody : ∀ c : Bytes, mdatStart + data.length
      ≤ (overlay c movHeaderReserveSize (mdatHead 0 ++ data)).length ∧
      slice (overlay c movHeaderReserveSize (mdatHead 0 ++ data)) mdatStart data.length = data := by
    intro c
    have hin := slice_overlay_inside c (mdatHead 0 ++ data) movHeaderReserveSize 8 data.length
      (by rw [List.length_append, hhead])
    refine ⟨?_, ?_⟩
    · rw [overlay_length _ _ hne, List.length_append, hhead, mdatStart]
      omega
    · have hmid := slice_mid (mdatHead 0) data []
      rw [List.append_nil, hhead] at hmid
      exact hin.trans hmid
  obtain ⟨hlen, hdata⟩ := hbody (overlay contents pos headBytes)
  have hmoov : slice
      (overlay (overlay (overlay contents pos headBytes) movHeaderReserveSize (mdatHead 0 ++ data))
        place
      moov) mdatStart data.length = data := by
    rcases h with h | h
    · rw [slice_overlay_behind _ _ _ _ _ h]
      exact hdata
    · rw [slice_overlay_before _ _ _ _ _ h.ge hlen]
      exact hdata
  unfold sessionFile
  refine ⟨(hlen.trans (le_overlay _ _ _).2).trans (le_overlay _ _ _).2, ?_⟩
  rw [slice_overlay_behind _ _ _ _ _ (by rw [be_length, mdatStart]; omega)]
  exact hmoov

/-- `moov` is in the file -/
theorem sessionFile_moov (hne : moov ≠ [])
    (h : place + moov.length ≤ movHeaderReserveSize ∨ mdatStart ≤ place) :
    place + moov.length ≤ (sessionFile contents pos data place moov).length ∧
      slice (sessionFile contents pos data place moov) place moov.length = moov := by
  unfold sessionFile
  generalize overlay (overlay contents pos headBytes) movHeaderReserveSize (mdatHead 0 ++ data) = c
  have hlen : place + moov.length ≤ (overlay c place moov).length := by
    rw [overlay_length _ _ hne]
    exact Nat.le_max_right _ _
  have hin : slice (overlay c place moov) place moov.length = moov := by
    have := slice_overlay_inside c moov place 0 moov.length (by omega)
    rw [Nat.add_zero] at this
    exact this.trans (List.take_of_length_le le_rfl)
  refine ⟨hlen.trans (le_overlay _ _ _).2, ?_⟩
  rcases h with h | h
  · rw [slice_overlay_before _ _ _ _ _ h hlen]
    exact hin
  · rw [slice_overlay_behind _ _ _ _ _ (by rw [be_length]; unfold mdatStart at h; omega)]
    exact hin

end

/-- **The file of a session on an empty file** is a sequence of boxes. -/
theorem sessionFile_boxes {env : Env} {mov : MOVContext} {box : List CacheWrite} {moov : Box}
    {data : Bytes} (hbox : emitted box = moov.encode)
    (hsize : movGetMoovTagSize env mov = moov.encode.length)
    (hlen : (sessionFile [] 0 data (moovPlace env mov data) (moovBytes env mov box)).length
      < 2 ^ 31) :
    sessionFile [] 0 data (moovPlace env mov data) (moovBytes env mov box)
      = encodeAll (fileBoxes moov data) := by
  have hshort : moov.encode.length < 2 ^ 31 := by
    have hle :=
      (moov_le_file [] 0 data (moovPlace env mov data) (moovBytes env mov box)).trans_lt hlen
    unfold moovBytes at hle
    rw [List.length_append, hbox] at hle
    omega
  have hsigned : moovSize env mov = (moov.encode.length : Int) := by
    unfold moovSize
    rw [hsize]
    exact Int.bmod_eq_of_le_mul_two (by omega) (by omega)
  have hfits : moovFits env mov ↔ moov.encode.length + 36 ≤ movHeaderReserveSize := by
    unfold moovFits
    rw [hsigned]
    omega
  have hzero : be 4 0 ≠ [] := by decide
  have hfour : (be 4 0).length = (be 4 (data.length + 8)).length := by rw [be_length, be_length]
  have hreserve : 36 ≤ movHeaderReserveSize := by decide
  unfold sessionFile moovPlace moovBytes fileBoxes
  rw [headBytes_eq, mdatHead, List.append_assoc]
  by_cases hfit : moov.encode.length + 36 ≤ movHeaderReserveSize
  · have hfree : u32 ((movHeaderReserveSize : Int) - moovSize env mov - 28)
        = 8 + (movHeaderReserveSize - 28 - (moov.encode.length + 8)) := by
      rw [hsigned]
      have h20 : movHeaderReserveSize = 2 ^ 20 := rfl
      unfold u32
      omega
    have hm : (moov.encode ++ freeHead
        (8 + (movHeaderReserveSize - 28 - (moov.encode.length + 8)))).length
        = moov.encode.length + 8 := by
      rw [List.length_append, freeHead_length]
    have hhole := overlay_hole ftypBox.encode (freeHead (movHeaderReserveSize - 28))
      (moov.encode ++ freeHead (8 + (movHeaderReserveSize - 28 - (moov.encode.length + 8))))
      ((fourcc 'm' 'd' 'a' 't').val ++ data) (R := movHeaderReserveSize) hzero hfour
      (by rw [ftyp_length, freeHead_length]; exact hreserve) (by rw [hm, freeHead_length]; omega)
      (by rw [ftyp_length, hm]; omega)
    rw [ftyp_length, hm] at hhole
    rw [if_pos (hfits.mpr hfit), if_pos (hfits.mpr hfit), if_pos hfit, hbox, emitted_free, hfree,
      hhole]
    simp only [encodeAll_cons, encodeAll_nil, free_encode, mdat_encode, List.append_nil,
      List.append_assoc]
  · have hplace : mdatStart + data.length
        = movHeaderReserveSize + (be 4 0 ++ ((fourcc 'm' 'd' 'a' 't').val ++ data)).length := by
      rw [List.length_append, List.length_append, be_length, (fourcc 'm' 'd' 'a' 't').property,
        mdatStart]
      omega
    have hfree : movHeaderReserveSize - 28 = 8 + (movHeaderReserveSize - 28 - 8) := by omega
    have hbehind := overlay_behind ftypBox.encode (freeHead (movHeaderReserveSize - 28)) moov.encode
      ((fourcc 'm' 'd' 'a' 't').val ++ data) (R := movHeaderReserveSize) hzero hfour
      (by rw [ftyp_length, freeHead_length]; exact hreserve)
    rw [ftyp_length, freeHead_length] at hbehind
    rw [if_neg fun h => hfit (hfits.mp h), if_neg fun h => hfit (hfits.mp h), if_neg hfit, hbox,
      List.append_nil, hplace, hbehind]
    simp only [encodeAll_cons, encodeAll_nil, free_encode, mdat_encode, List.append_nil,
      List.append_assoc, ← hfree]

/-- `moov` stands in the hole in front of `mdat`, or behind the payload -/
theorem moovPlace_apart {env : Env} {mov : MOVContext} {box : List CacheWrite} {data : Bytes}
    (hsize : movGetMoovTagSize env mov = (emitted box).length)
    (hshort : (emitted box).length < 2 ^ 31) :
    moovPlace env mov data + (moovBytes env mov box).length ≤ movHeaderReserveSize ∨
      moovPlace env mov data = mdatStart + data.length := by
  unfold moovPlace moovBytes
  by_cases hfits : moovFits env mov
  · refine Or.inl ?_
    have hsigned : moovSize env mov = ((emitted box).length : Int) := by
      unfold moovSize
      rw [hsize]
      exact Int.bmod_eq_of_le_mul_two (by omega) (by omega)
    have hle := hfits
    unfold moovFits at hle
    rw [if_pos hfits, if_pos hfits, List.length_append, emitted_free, freeHead_length]
    omega
  · exact Or.inr (if_neg hfits)

/-- in a short file the data of the packets and the box `moov` are both where they were put -/
theorem sessionFile_parts {env : Env} {mov : MOVContext} {box : List CacheWrite}
    {contents data : Bytes} {pos : Nat} (hsize : movGetMoovTagSize env mov = (emitted box).length)
    (hne : emitted box ≠ [])
    (hshort : (sessionFile contents pos data (moovPlace env mov data)
      (moovBytes env mov box)).length < 2 ^ 31) :
    (emitted box).length < 2 ^ 31 ∧
      mdatStart + data.length
        ≤ (sessionFile contents pos data (moovPlace env mov data) (moovBytes env mov box)).length ∧
      slice (sessionFile contents pos data (moovPlace env mov data) (moovBytes env mov box))
        mdatStart data.length = data ∧
      slice (sessionFile contents pos data (moovPlace env mov data) (moovBytes env mov box))
        (moovPlace env mov data)
        (emitted box).length = emitted box := by
  have hbox : (emitted box).length ≤ (moovBytes env mov box).length := by
    unfold moovBytes
    rw [List.length_append]
    exact Nat.le_add_right _ _
  have hboxLen : (emitted box).length < 2 ^ 31 :=
    (hbox.trans (moov_le_file contents pos data (moovPlace env mov data)
      (moovBytes env mov box))).trans_lt hshort
  have hapart : moovPlace env mov data + (moovBytes env mov box).length ≤ movHeaderReserveSize ∨
      moovPlace env mov data = mdatStart + data.length := moovPlace_apart hsize hboxLen
  have hpos := List.length_pos_of_ne_nil hne
  obtain ⟨hdataLen, hdata⟩ :=
    sessionFile_data contents pos (hapart.imp_left fun h => h.trans (Nat.le_add_right _ _))
  obtain ⟨-, hmoov⟩ := sessionFile_moov contents pos (List.ne_nil_of_length_pos (by omega))
    (hapart.imp_right fun h => by omega)
  refine ⟨hboxLen, hdataLen, hdata, ?_⟩
  -- the box is the first part of what was put there
  have hcut :=
    slice_slice (sessionFile contents pos data (moovPlace env mov data) (moovBytes env mov box))
      (moovPlace env mov data) (moovBytes env mov box).length 0 (emitted box).length (by omega)
  have hfirst := slice_mid [] (emitted box) (if moovFits env mov then
    emitted (movWriteFreeTag (u32 (movHeaderReserveSize - moovSize env mov - 28))) else [])
  rw [hmoov, Nat.add_zero] at hcut
  rw [← hcut]
  exact hfirst

theorem overlay_le (s : Bytes) (p : Nat) (b : Bytes) :
    (overlay s p b).length ≤ s.length + p + b.length := by
  by_cases hb : b = []
  · rw [hb, overlay_nil]
    omega
  · rw [overlay_length s p hb]
    omega

/-- the tables of a session leave the file short enough, unless the payload or what was there before
is large -/
theorem mp4File_short (env : Env) {ctx : AVFormatContext} (ho : Opened ctx) (hn : ctx.mTrackCnt ≤ 2)
    {s : MmStreamInfo} (hfull : s.AlwaysFull) {mpCache : Bytes} {cacheSize : Int}
    (hlen : (mpCache.length : Int) = cacheSize) {calls : List (Mem × AVPacket)}
    (hs : Streamed calls) (hne : calls ≠ []) (hp : Started calls) (hcap : Capacity calls)
    (hcsd : ∀ t, (ctx.priv_data.tracks t).csdData.val.length < 2 ^ 27)
    (hdata : s.contents.length + s.pos + 2 * (payload (events ctx.streams calls)).length < 2 ^ 29)
    (total : Option Int) {out : Seen × Bytes × AVFormatContext}
    (hout : mp4File env ctx s mpCache cacheSize calls total = some out) :
    out.2.1.length < 2 ^ 31 := by
  have hf := ho.fresh
  obtain ⟨body, u, c, mov, hparts, -, hfile⟩ := mp4File_spec env hf hn hfull hlen hs hne hp total
  obtain ⟨box, hbox, hout⟩ := hfile out hout
  obtain ⟨hbytes, hsize, -⟩ := emitted_moov (fun i hi => hparts.closed.plain hf hi) hbox
  have hmoov := hparts.closed.moov_lt env hf hcap hcsd
  have hbox' : (moovBytes env mov box.1).length ≤ movGetMoovTagSize env mov + 8 := by
    unfold moovBytes
    rw [List.length_append, hbytes, ← hsize]
    split
    · rw [emitted_free, freeHead_length]
    · exact Nat.le_add_right _ _
  have hplace : moovPlace env mov (emitted body.1) ≤ mdatStart + (emitted body.1).length := by
    have : 28 ≤ mdatStart := by decide
    unfold moovPlace
    split <;> omega
  have hhead := headBytes_length
  have hmdat : (mdatHead 0).length = 8 := rfl
  have hreserve : movHeaderReserveSize = 2 ^ 20 := rfl
  have h1 := overlay_le s.contents s.pos headBytes
  have h2 :=
    overlay_le (overlay s.contents s.pos headBytes) movHeaderReserveSize
      (mdatHead 0 ++ emitted body.1)
  have h3 := overlay_le (overlay (overlay s.contents s.pos headBytes) movHeaderReserveSize
    (mdatHead 0 ++ emitted body.1)) (moovPlace env mov (emitted body.1)) (moovBytes env mov box.1)
  have h4 := overlay_le (overlay (overlay (overlay s.contents s.pos headBytes) movHeaderReserveSize
    (mdatHead 0 ++ emitted body.1)) (moovPlace env mov (emitted body.1)) (moovBytes env mov box.1))
    movHeaderReserveSize (be 4 ((emitted body.1).length + 8))
  rw [List.length_append, hmdat] at h2
  rw [be_length] at h4
  rw [← hparts.data] at hdata
  rw [hout, sessionFile]
  unfold mdatStart at hplace
  omega

/-- **The file is tiled by boxes.**  A session on an empty file has a result if and only if each
track in `moov` can be written.  If the file is shorter than 2³¹ bytes, it is then `ftyp`, `moov`,
`free`, `mdat` where `moov` fits into the first MiB, and `ftyp`, `free`, `mdat`, `moov` where not,
with nothing in front, between or behind; `mdat` holds what the packets wrote. -/
theorem file_tiled (env : Env) {ctx : AVFormatContext} (ho : Opened ctx) (hn : ctx.mTrackCnt ≤ 2)
    {s : MmStreamInfo} (hfull : s.AlwaysFull) (hempty : s.contents = []) (hpos : s.pos = 0)
    {mpCache : Bytes} {cacheSize : Int} (hcache : 0 < cacheSize)
    (hlen : (mpCache.length : Int) = cacheSize) {calls : List (Mem × AVPacket)}
    (hs : Streamed calls) (hne : calls ≠ []) (hp : Started calls) (total : Option Int) :
    ∃ body closed, packets ctx.headed calls = some body ∧
      movWritePacket (totalTime body.2 total) (fun _ => 0) lastPacket = some closed ∧
      ((mp4File env ctx s mpCache cacheSize calls total).isSome ↔
        ∀ i ∈ writtenTracks closed.2.2.priv_data, Writable env (closed.2.2.priv_data.tracks i)) ∧
      ∀ out, mp4File env ctx s mpCache cacheSize calls total = some out → out.2.1.length < 2 ^ 31 →
        ∃ moov : Box, (movWriteMoovBox env closed.2.2.priv_data).map (fun box => emitted box.1)
          = some moov.encode ∧
          moov.tag = fourcc 'm' 'o' 'o' 'v' ∧
          movGetMoovTagSize env closed.2.2.priv_data = moov.encode.length ∧
          boxesOf out.2.1 = (if moov.encode.length + 36 ≤ movHeaderReserveSize then
              [((fourcc 'f' 't' 'y' 'p').val, ftypBox.body),
                ((fourcc 'm' 'o' 'o' 'v').val, moov.body),
                ((fourcc 'f' 'r' 'e' 'e').val,
                  zeros (movHeaderReserveSize - 28 - (moov.encode.length + 8))),
                ((fourcc 'm' 'd' 'a' 't').val, emitted body.1)]
            else
              [((fourcc 'f' 't' 'y' 'p').val, ftypBox.body),
                ((fourcc 'f' 'r' 'e' 'e').val, zeros (movHeaderReserveSize - 28 - 8)),
                ((fourcc 'm' 'd' 'a' 't').val, emitted body.1),
                ((fourcc 'm' 'o' 'o' 'v').val, moov.body)], []) ∧
          ofBe (slice out.2.1 movHeaderReserveSize 4) = 8 + (emitted body.1).length ∧
          slice out.2.1 mdatStart (emitted body.1).length = emitted body.1 := by
  have hf := ho.fresh
  obtain ⟨body, u, c, mov, hparts, hsome, hout⟩ := mp4File_spec env hf hn hfull hlen hs hne hp total
  have hplain : ∀ i ∈ writtenTracks mov, Plain (mov.tracks i) :=
    fun i hi => hparts.closed.plain hf hi
  refine ⟨body, _, hparts.packets, hparts.last, hsome.trans ⟨fun h => h.2, fun h => ⟨hcache, h⟩⟩,
    ?_⟩
  intro out heq hshort
  obtain ⟨box, hbox, hfile⟩ := hout out heq
  obtain ⟨hbytes, hsize, -⟩ := emitted_moov hplain hbox
  rw [hempty, hpos] at hfile
  have hboxes : sessionFile [] 0 (emitted body.1) (moovPlace env mov (emitted body.1))
      (moovBytes env mov box.1)
      = encodeAll (fileBoxes (moovBox env (mov.prepared env)) (emitted body.1)) :=
    sessionFile_boxes hbytes hsize (by rw [← hfile]; exact hshort)
  have hboxPos : emitted box.1 ≠ [] := by
    rw [hbytes]
    exact encode_ne_nil _
  obtain ⟨hmoovLen, hdataLen, hdata, -⟩ :=
    sessionFile_parts (hsize.trans (congrArg List.length hbytes.symm)) hboxPos
      (hfile ▸ hshort)
  rw [← hfile] at hdataLen hdata
  refine ⟨moovBox env (mov.prepared env), ?_, rfl, hsize, ?_, ?_, hdata⟩
  · rw [hbox, Option.map_some, hbytes]
  · rw [hfile, hboxes, boxesOf_encodeAll (by rw [← hboxes, ← hfile]; omega), fileBoxes]
    split
    · simp only [List.map_cons, List.map_nil, mdatBox, freeBox, leaf_body]
      rfl
    · simp only [List.map_cons, List.map_nil, mdatBox, freeBox, leaf_body]
      rfl
  · have hfour := be_length 4 ((emitted body.1).length + 8)
    have hin : slice out.2.1 movHeaderReserveSize 4 = be 4 ((emitted body.1).length + 8) := by
      rw [hfile, sessionFile]
      have := slice_overlay_inside (overlay (overlay (overlay [] 0 headBytes) movHeaderReserveSize
        (mdatHead 0 ++ emitted body.1)) (moovPlace env mov (emitted body.1))
          (moovBytes env mov box.1))
        (be 4 ((emitted body.1).length + 8)) movHeaderReserveSize 0 4 hfour.ge
      rw [Nat.add_zero] at this
      exact this.trans (List.take_of_length_le hfour.le)
    rw [hin, ofBe_be 4 _ (by omega), Nat.add_comm]

/-- what the small session comes to: its payload, the size of its `moov`, and that its tracks can be
written -/
theorem small_results :
    ((packets smallContext.headed smallCalls).bind fun body =>
      (movWritePacket (totalTime body.2 (some 80)) (fun _ => 0) lastPacket).map
        fun closed : Int × List CacheWrite × AVFormatContext =>
          (emitted body.1, movGetMoovTagSize smallEnv closed.2.2.priv_data,
            decide (∀ i ∈ writtenTracks closed.2.2.priv_data,
              Writable smallEnv (closed.2.2.priv_data.tracks i))))
      = some ([0, 0, 0, 2, 102, 103, 0, 1, 2, 0, 0, 0, 3, 4, 5, 100], 1140, true) := by
  decide +kernel

theorem small_cache : (([0, 0, 0, 0] : Bytes).length : Int) = 4 := rfl

theorem small_short {out : Seen × Bytes × AVFormatContext}
    (hout : mp4File smallEnv smallContext newFile [0, 0, 0, 0] 4 smallCalls (some 80)
      = some out) : out.2.1.length < 2 ^ 31 :=
  mp4File_short smallEnv smallContext_opened (by decide) newFile_full small_cache (by decide)
    (List.cons_ne_nil _ _) (by decide)
    smallCalls_capacity (by intro t; cases t <;> decide) (by decide +kernel) (some 80) hout

theorem file_tiled_small :
    ∃ out moov, mp4File smallEnv smallContext newFile [0, 0, 0, 0] 4 smallCalls (some 80)
        = some out ∧ moov.length = 1132 ∧
      boxesOf out.2.1
        = ([((fourcc 'f' 't' 'y' 'p').val, ftypBox.body), ((fourcc 'm' 'o' 'o' 'v').val, moov),
          ((fourcc 'f' 'r' 'e' 'e').val, zeros (movHeaderReserveSize - 28 - (1140 + 8))),
          ((fourcc 'm' 'd' 'a' 't').val,
            [0, 0, 0, 2, 102, 103, 0, 1, 2, 0, 0, 0, 3, 4, 5, 100])], []) := by
  obtain ⟨body, closed, hbody, hclosed, hsome, hfile⟩ :=
    file_tiled smallEnv smallContext_opened (by decide) newFile_full rfl rfl (by decide)
      small_cache (by decide : Streamed smallCalls) (List.cons_ne_nil _ _) (by decide) (some 80)
  have hresults := small_results
  rw [hbody, Option.bind_some, hclosed, Option.map_some] at hresults
  obtain ⟨hdata, hrest⟩ := Prod.mk.inj (Option.some.inj hresults)
  obtain ⟨hsize, hready⟩ := Prod.mk.inj hrest
  obtain ⟨out, hout⟩ := Option.isSome_iff_exists.mp (hsome.mpr (of_decide_eq_true hready))
  obtain ⟨moov, -, -, hlen, hboxes, -, -⟩ := hfile out hout (small_short hout)
  rw [hsize] at hlen
  rw [← hlen, hdata, if_pos (by decide)] at hboxes
  refine ⟨out, moov.body, hout, ?_, hboxes⟩
  rw [encode_length] at hlen
  omega

end Pluto.Mp4

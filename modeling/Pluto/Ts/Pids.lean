import Pluto.Ts.Demux

/-!
# The PIDs of a run

* `runHeaders`           what a run passes to `cache_write` from `mpTSBuf`, also when its last call
                         aborts: the tables, and the header of every packet that carries a PES
                         packet (`unitHeaders_writes`: they are writes of the call);
* `pmtPids`              the elementary PIDs that a map table declares;
* `pids_declared_iff`    when the PES packets of a run are on declared PIDs: the map table lists the
                         tracks that the header counted, and is written in front of video only.
-/

namespace Pluto.Ts
open Octets Transport

/-! ## headers -/

/-- the bytes of `mpTSBuf` in a `cache_write`, by the function that writes them -/
inductive TsHeader where
  | pat (b : Bytes)
  | pmt (b : Bytes)
  | pes (b : Bytes)

/-- the headers of the loop `while (stream_left_size)` -/
def fragmentHeaders (m : Mem) (pkt : AVPacket) (t : CodecType) (PID : Nat) :
    Nat → AVFormatContext → Int → Int → List Bytes
  | 0, _, _, _ => []
  | fuel + 1, ctx, streamLeftSize, streamPtr =>
    if streamLeftSize = 0 then []
    else
      let counter := ctx.mTSContinuityCounter t
      let ctx := { ctx with
        mTSContinuityCounter := Function.update ctx.mTSContinuityCounter t
          (if counter ≥ 0x0f then 0 else counter + 1) }
      let head := fragmentHeader PID counter streamLeftSize
      head.1.take head.2.toNat ::
        (writeAvTsPacket m pkt (tsPackageSz - head.2) streamLeftSize streamPtr).elim [] fun r =>
          fragmentHeaders m pkt t PID fuel ctx r.2.1 r.2.2

section
variable (pcr : Int → Int)

/-- the headers of an access unit; the first is written before the CSD is read -/
def unitHeaders (ctx : AVFormatContext) (m : Mem) (pkt : AVPacket) (t : CodecType) : List Bytes :=
  let head := unitPrefix pcr ctx pkt t
  let counter := ctx.mTSContinuityCounter t
  let PID := ctx.mTrackPid t
  let ctx := { ctx with
    mTSContinuityCounter := Function.update ctx.mTSContinuityCounter t
      (if counter + 1 ≥ 0x10 then 0 else counter + 1) }
  head :: (unitHeader ctx pkt t).elim [] fun hs =>
    let tsPktLeftSize : Int := tsPackageSz - head.length - hs.flatten.length
    (writeAvTsPacket m pkt tsPktLeftSize (pkt.size0 + pkt.size1) pkt.data0).elim [] fun r =>
      fragmentHeaders m pkt t PID (r.2.1.toNat + 2) ctx r.2.1 r.2.2

def callHeaders (ctx : AVFormatContext) (m : Mem) (pkt : AVPacket) : List TsHeader :=
  if pkt.stream_idx = 0 then
    let pat := writeProgramAssociationTable ctx
    let pmt := writeProgramMapTable pat.2
    .pat (emitted pat.1) :: .pmt (emitted pmt.1) :: (unitHeaders pcr pmt.2 m pkt .video).map .pes
  else if pkt.stream_idx = 1 then (unitHeaders pcr ctx m pkt .audio).map .pes
  else []

/-- a run ends with the first call that aborts -/
def runHeaders (ctx : AVFormatContext) : List (Mem × AVPacket) → List TsHeader
  | [] => []
  | c :: calls =>
    callHeaders pcr ctx c.1 c.2 ++ (mpeg2tsWritePacket pcr ctx c.1 c.2).elim [] fun r =>
      runHeaders r.2 calls

/-- the calls that are made: those in front of the first that aborts, and that one -/
def callsMade (ctx : AVFormatContext) : List (Mem × AVPacket) → List (Mem × AVPacket)
  | [] => []
  | c :: calls => c :: (mpeg2tsWritePacket pcr ctx c.1 c.2).elim [] fun r => callsMade r.2 calls

theorem callsMade_initial (ctx : AVFormatContext) (calls : List (Mem × AVPacket)) :
    callsMade pcr ctx calls <+: calls := by
  induction calls generalizing ctx with
  | nil => exact List.prefix_refl []
  | cons c calls ih =>
    unfold callsMade
    rw [List.prefix_cons_inj]
    cases mpeg2tsWritePacket pcr ctx c.1 c.2 with
    | none => exact List.nil_prefix
    | some r => exact ih r.2

/-- in a run that returns every call is made -/
theorem callsMade_run {ctx : AVFormatContext} {calls : List (Mem × AVPacket)}
    {r : List (List CacheWrite) × AVFormatContext} (h : run pcr ctx calls = some r) :
    callsMade pcr ctx calls = calls := by
  induction calls generalizing ctx r with
  | nil => rfl
  | cons c calls ih =>
    unfold run at h
    unfold callsMade
    cases hc : mpeg2tsWritePacket pcr ctx c.1 c.2 with
    | none =>
      rw [hc] at h
      cases h
    | some out =>
      rw [hc] at h
      obtain ⟨rest, hrest, -⟩ := Option.map_eq_some_iff.mp h
      exact congrArg (c :: ·) (ih hrest)

end

/-! ## the headers are written -/

/-- a write from a buffer of the muxer -/
def bufferBytes (w : CacheWrite) : Option Bytes :=
  match w.src with
  | .buffer _ => some w.bytes
  | .memory _ _ => none

theorem payload_buffers {m : Mem} {pkt : AVPacket} {tsPktLeftSize streamLeftSize streamPtr : Int}
    {r : List CacheWrite × Int × Int}
    (h : writeAvTsPacket m pkt tsPktLeftSize streamLeftSize streamPtr = some r) :
    r.1.filterMap bufferBytes = [] := by
  unfold writeAvTsPacket at h
  dsimp only at h
  split_ifs at h <;>
    · cases h
      rfl

theorem fragmentHeaders_writes {m : Mem} {pkt : AVPacket} {t : CodecType} {PID fuel : Nat}
    {ctx : AVFormatContext} {left ptr : Int} {r : List CacheWrite × AVFormatContext}
    (h : writeFragments m pkt t PID fuel ctx left ptr = some r) :
    r.1.filterMap bufferBytes = fragmentHeaders m pkt t PID fuel ctx left ptr := by
  induction fuel generalizing ctx left ptr r with
  | zero => cases h
  | succ fuel ih =>
    unfold writeFragments at h
    unfold fragmentHeaders
    split at h
    · rename_i h0
      cases h
      rw [if_pos h0]
      rfl
    · rename_i h0
      rw [if_neg h0]
      dsimp only at h ⊢
      split at h
      · cases h
      · rename_i ws left' ptr' hpayload
        obtain ⟨rest, hrest, rfl⟩ := Option.map_eq_some_iff.mp h
        rw [hpayload]
        have hnone := payload_buffers hpayload
        show _ :: (ws ++ rest.1).filterMap bufferBytes = _
        rw [List.filterMap_append, hnone, ih hrest]
        rfl

/-- **The headers of an access unit** are what it writes from buffers, but for the bytes in front of
the payload. -/
theorem unitHeaders_writes (pcr : Int → Int) {ctx : AVFormatContext} {m : Mem} {pkt : AVPacket}
    {t : CodecType} (ht : codecType pkt.stream_idx = some t) {r : List CacheWrite × AVFormatContext}
    (h : writeAccessUnit pcr ctx m pkt = some r) :
    ∃ hs ws, unitHeader ctx pkt t = some hs ∧
      r.1 = CacheWrite.all (unitPrefix pcr ctx pkt t) :: hs.map CacheWrite.all ++ ws ∧
      unitHeaders pcr ctx m pkt t = unitPrefix pcr ctx pkt t :: ws.filterMap bufferBytes := by
  unfold writeAccessUnit at h
  rw [ht] at h
  dsimp only at h
  split at h
  · cases h
  · rename_i hs hhead
    split at h
    · cases h
    · rename_i ws left ptr hpayload
      obtain ⟨rest, hrest, rfl⟩ := Option.map_eq_some_iff.mp h
      have hbuf := payload_buffers hpayload
      have hunit : unitHeader ctx pkt t = some hs := by
        rw [← hhead]
        cases t <;> rfl
      refine ⟨hs, ws ++ rest.1, hunit, ?_, ?_⟩
      · dsimp only
        rw [List.append_assoc]
      · unfold unitHeaders
        dsimp only
        rw [hhead, List.filterMap_append, hbuf, fragmentHeaders_writes hrest]
        dsimp only [Option.elim]
        rw [hpayload]
        rfl

/-- an access unit that is written begins with its first header -/
theorem writeAccessUnit_first (pcr : Int → Int) {ctx : AVFormatContext} {m : Mem} {pkt : AVPacket}
    {t : CodecType} (ht : codecType pkt.stream_idx = some t) {r : List CacheWrite × AVFormatContext}
    (h : writeAccessUnit pcr ctx m pkt = some r) :
    ∃ ws, r.1 = CacheWrite.all (unitPrefix pcr ctx pkt t) :: ws := by
  obtain ⟨hs, ws, -, hr, -⟩ := unitHeaders_writes pcr ht h
  exact ⟨hs.map CacheWrite.all ++ ws, by rw [hr, List.cons_append]⟩

/-! ## the PIDs of a call -/

theorem byteAt_take {b : Bytes} {i n : Nat} (h : i < n) : byteAt (b.take n) i = byteAt b i := by
  unfold byteAt
  rw [List.getD_eq_getElem?_getD, List.getD_eq_getElem?_getD, List.getElem?_take_of_lt h]

/-- the PID in a header, whatever else the second byte has -/
theorem pidOf_bytes {b : Bytes} (pid : Fin 8192) {flag : Nat} (hflag : flag = 0 ∨ flag = 0x40)
    (h1 : byteAt b 1 = flag + pid / 256) (h2 : byteAt b 2 = pid % 256) : pidOf b = pid := by
  have hlt := pid.isLt
  unfold pidOf
  rw [h1, h2]
  omega

theorem pidOf_unitPrefix (pcr : Int → Int) {ctx : AVFormatContext} (pkt : AVPacket) {t : CodecType}
    (pid : Fin 8192) (h : ctx.mTrackPid t = pid) : pidOf (unitPrefix pcr ctx pkt t) = pid := by
  have hlt := pid.isLt
  refine pidOf_bytes pid (Or.inr rfl) ?_ ?_
  · show (UInt8.ofNat (0x40 ||| ctx.mTrackPid t >>> 8)).toNat = _
    rw [h, or_0x40, UInt8.toNat_ofNat', Nat.mod_eq_of_lt (by omega)]
  · show (UInt8.ofNat (ctx.mTrackPid t &&& 0xff)).toNat = _
    rw [h, and_0xff, UInt8.toNat_ofNat', Nat.mod_mod]

theorem pidOf_fragment (pid : Fin 8192) (counter : Nat) (left : Int) :
    pidOf ((fragmentHeader pid counter left).1.take (fragmentHeader pid counter left).2.toNat)
      = pid := by
  have hlt := pid.isLt
  have hsize : 4 ≤ (fragmentHeader pid counter left).2.toNat := by
    unfold fragmentHeader
    dsimp only
    split
    · dsimp only
      omega
    · exact le_rfl
  have hbytes : byteAt (fragmentHeader pid counter left).1 1
      = (UInt8.ofNat ((pid : Nat) >>> 8)).toNat ∧
      byteAt (fragmentHeader pid counter left).1 2
          = (UInt8.ofNat ((pid : Nat) &&& 0xff)).toNat := by
    unfold fragmentHeader
    dsimp only
    split
    · dsimp only
      split <;> exact ⟨rfl, rfl⟩
    · exact ⟨rfl, rfl⟩
  refine pidOf_bytes pid (Or.inl rfl) ?_ ?_
  · rw [byteAt_take (by omega), hbytes.1, UInt8.toNat_ofNat', Nat.shiftRight_eq_div_pow,
      Nat.mod_eq_of_lt (by omega)]
    omega
  · rw [byteAt_take (by omega), hbytes.2, UInt8.toNat_ofNat', and_0xff, Nat.mod_mod]

theorem mem_elim {α β : Type} {o : Option α} {f : α → List β} {b : β} :
    b ∈ o.elim [] f ↔ ∃ a, o = some a ∧ b ∈ f a := by
  cases o with
  | none => simp
  | some a => simp

theorem pidOf_fragments {m : Mem} {pkt : AVPacket} {t : CodecType} (pid : Fin 8192) {fuel : Nat}
    {ctx : AVFormatContext} {left ptr : Int} :
    ∀ b ∈ fragmentHeaders m pkt t pid fuel ctx left ptr, pidOf b = pid := by
  induction fuel generalizing ctx left ptr with
  | zero => exact fun b hb => nomatch hb
  | succ fuel ih =>
    unfold fragmentHeaders
    split
    · exact fun b hb => nomatch hb
    · dsimp only
      intro b hb
      rcases List.mem_cons.mp hb with rfl | hb
      · exact pidOf_fragment pid _ left
      · obtain ⟨r, -, hb⟩ := mem_elim.mp hb
        exact ih b hb

/-- every header of an access unit has the PID of its track -/
theorem pidOf_unit (pcr : Int → Int) {ctx : AVFormatContext} (m : Mem) (pkt : AVPacket)
    {t : CodecType} (pid : Fin 8192) (h : ctx.mTrackPid t = pid) :
    ∀ b ∈ unitHeaders pcr ctx m pkt t, pidOf b = pid := by
  unfold unitHeaders
  dsimp only
  intro b hb
  rcases List.mem_cons.mp hb with rfl | hb
  · exact pidOf_unitPrefix pcr pkt pid h
  · obtain ⟨hs, -, hb⟩ := mem_elim.mp hb
    obtain ⟨r, -, hb⟩ := mem_elim.mp hb
    rw [h] at hb
    exact pidOf_fragments pid b hb

/-! ## the map table -/

/-- the elementary PIDs that a map table declares; `section_length` counts nine bytes, five for each
stream, and a checksum, as all descriptor loops are empty -/
def pmtPids (b : Bytes) : List Nat :=
  (List.range ((byteAt b 6 % 16 * 256 + byteAt b 7 - 13) / 5)).map fun i =>
    byteAt b (18 + 5 * i) % 32 * 256 + byteAt b (19 + 5 * i)

theorem or_0xe0 (pid : Fin 8192) :
    (UInt8.ofNat (0xe0 ||| (pid : Nat) >>> 8)).toNat % 32 = pid / 256 := by
  have h : ∀ x : Fin 32, (UInt8.ofNat (0xe0 ||| (x : Nat))).toNat % 32 = x := by decide
  have hlt := pid.isLt
  rw [Nat.shiftRight_eq_div_pow]
  exact h ⟨pid / 256, by omega⟩

theorem entry_pid (pid : Fin 8192) :
    (UInt8.ofNat (0xe0 ||| (pid : Nat) >>> 8)).toNat % 32 * 256
      + (UInt8.ofNat ((pid : Nat) &&& 0xff)).toNat = pid := by
  have hlt := pid.isLt
  rw [or_0xe0, and_0xff, UInt8.toNat_ofNat', Nat.mod_mod]
  omega

/-- the bytes of a map table in front of its checksum -/
theorem pmtBuf_bytes (ctx : AVFormatContext) (hn : ctx.mTrackCnt = 1 ∨ ctx.mTrackCnt = 2) :
    byteAt (pmtBuf ctx) 6 = 0xb0 ∧ byteAt (pmtBuf ctx) 7 = 13 + 5 * ctx.mTrackCnt ∧
      ∀ i, i < ctx.mTrackCnt →
        byteAt (pmtBuf ctx) (18 + 5 * i)
          = (UInt8.ofNat (0xe0 ||| ctx.mTrackPid (if i = 0 then .video else .audio) >>> 8)).toNat ∧
        byteAt (pmtBuf ctx) (19 + 5 * i)
          = (UInt8.ofNat (ctx.mTrackPid (if i = 0 then .video else .audio) &&& 0xff)).toNat := by
  unfold pmtBuf
  rcases hn with hn | hn
  · rw [hn]
    refine ⟨?_, ?_, ?_⟩
    · show ((0xb0 : UInt8) ||| UInt8.ofNat (18 >>> 8)).toNat = 0xb0
      decide
    · show (UInt8.ofNat (18 &&& 0xff)).toNat = 18
      decide
    intro i hi
    interval_cases i
    exact ⟨rfl, rfl⟩
  · rw [hn]
    refine ⟨?_, ?_, ?_⟩
    · show ((0xb0 : UInt8) ||| UInt8.ofNat (23 >>> 8)).toNat = 0xb0
      decide
    · show (UInt8.ofNat (23 &&& 0xff)).toNat = 23
      decide
    intro i hi
    interval_cases i
    · exact ⟨rfl, rfl⟩
    · exact ⟨rfl, rfl⟩

theorem pmtBuf_length (ctx : AVFormatContext) (hn : ctx.mTrackCnt = 1 ∨ ctx.mTrackCnt = 2) :
    (pmtBuf ctx).length = 188 := by
  unfold pmtBuf
  rcases hn with hn | hn <;>
    · rw [hn]
      rfl

/-- **The map table** declares the PIDs of the tracks that are counted. -/
theorem pmtPids_eq (ctx : AVFormatContext) (pid : CodecType → Fin 8192)
    (hpid : ∀ t, ctx.mTrackPid t = pid t) (hn : ctx.mTrackCnt = 1 ∨ ctx.mTrackCnt = 2) :
    pmtPids (pmtBuf ctx) = (List.range ctx.mTrackCnt).map fun i =>
      ctx.mTrackPid (if i = 0 then .video else .audio) := by
  obtain ⟨h6, h7, hbytes⟩ := pmtBuf_bytes ctx hn
  have hcount : (byteAt (pmtBuf ctx) 6 % 16 * 256 + byteAt (pmtBuf ctx) 7 - 13) / 5
      = ctx.mTrackCnt := by
    rw [h6, h7]
    omega
  unfold pmtPids
  rw [hcount]
  apply List.map_congr_left
  intro i hi
  obtain ⟨h18, h19⟩ := hbytes i (List.mem_range.mp hi)
  rw [h18, h19, hpid]
  exact entry_pid _

/-! ## a run -/

/-- the PIDs of the packets that carry PES packets -/
def pesPids (hs : List TsHeader) : List Nat :=
  hs.filterMap fun h => match h with
    | .pes b => some (pidOf b)
    | _ => none

/-- the elementary PIDs of the map tables -/
def declaredPids (hs : List TsHeader) : List Nat :=
  hs.flatMap fun h => match h with
    | .pmt b => pmtPids b
    | _ => []

/-- every PES packet is on a declared PID, and none on that of a table -/
def Declared (hs : List TsHeader) : Prop :=
  ∀ p ∈ pesPids hs, p ∈ declaredPids hs ∧ p ≠ patPid ∧ p ≠ pmtPid

/-- what the header and the CSDs set is kept by every call, and the counters of the tracks stay
small -/
structure Kept (ctx ctx' : AVFormatContext) : Prop where
  pid : ctx'.mTrackPid = ctx.mTrackPid
  count : ctx'.mTrackCnt = ctx.mTrackCnt
  csd : ctx'.mTrackCSD = ctx.mTrackCSD
  counters : (∀ t, ctx.mTSContinuityCounter t ≤ 15) → ∀ t, ctx'.mTSContinuityCounter t ≤ 15

theorem Kept.refl (ctx : AVFormatContext) : Kept ctx ctx := ⟨rfl, rfl, rfl, id⟩

theorem Kept.trans {ctx ctx' ctx'' : AVFormatContext} (h : Kept ctx ctx') (h' : Kept ctx' ctx'') :
    Kept ctx ctx'' :=
  ⟨h'.pid.trans h.pid, h'.count.trans h.count, h'.csd.trans h.csd,
    fun hc => h'.counters (h.counters hc)⟩

theorem Kept.update (ctx : AVFormatContext) (t : CodecType) {n : Nat}
    (hn : ctx.mTSContinuityCounter t ≤ 15 → n ≤ 15) :
    Kept ctx { ctx with mTSContinuityCounter := Function.update ctx.mTSContinuityCounter t n } := by
  refine ⟨rfl, rfl, rfl, fun hc u => ?_⟩
  dsimp only
  rw [Function.update_apply]
  split
  · exact hn (hc t)
  · exact hc u

section
-- a relation that holds of the steps of one counter, and of the two tables
variable {P : AVFormatContext → AVFormatContext → Prop} (hrefl : ∀ ctx, P ctx ctx)
  (htrans : ∀ {ctx ctx' ctx'' : AVFormatContext}, P ctx ctx' → P ctx' ctx'' → P ctx ctx'')
  (hupdate : ∀ (ctx : AVFormatContext) (t : CodecType) {n : Nat},
    (ctx.mTSContinuityCounter t ≤ 15 → n ≤ 15) →
    P ctx { ctx with mTSContinuityCounter := Function.update ctx.mTSContinuityCounter t n })
include hrefl htrans hupdate

theorem fragments_preserve {m : Mem} {pkt : AVPacket} {t : CodecType} {PID fuel : Nat}
    {ctx : AVFormatContext} {left ptr : Int} {r : List CacheWrite × AVFormatContext}
    (h : writeFragments m pkt t PID fuel ctx left ptr = some r) : P ctx r.2 := by
  induction fuel generalizing ctx left ptr r with
  | zero => cases h
  | succ fuel ih =>
    unfold writeFragments at h
    split at h
    · cases h
      exact hrefl ctx
    · dsimp only at h
      split at h
      · cases h
      · obtain ⟨rest, hrest, rfl⟩ := Option.map_eq_some_iff.mp h
        have hnext : ctx.mTSContinuityCounter t ≤ 15 →
            (if ctx.mTSContinuityCounter t ≥ 0x0f then 0 else ctx.mTSContinuityCounter t + 1)
                ≤ 15 := by
          intro hc
          split <;> omega
        have hkept := ih hrest
        exact htrans (hupdate ctx t hnext) hkept

theorem unit_preserves (pcr : Int → Int) {ctx : AVFormatContext} {m : Mem} {pkt : AVPacket}
    {r : List CacheWrite × AVFormatContext} (h : writeAccessUnit pcr ctx m pkt = some r) :
    P ctx r.2 := by
  unfold writeAccessUnit at h
  split at h
  · cases h
  · rename_i t _
    dsimp only at h
    split at h
    · cases h
    · split at h
      · cases h
      · obtain ⟨rest, hrest, rfl⟩ := Option.map_eq_some_iff.mp h
        have hnext : ctx.mTSContinuityCounter t ≤ 15 →
            (if ctx.mTSContinuityCounter t + 1 ≥ 0x10 then 0 else ctx.mTSContinuityCounter t + 1)
                ≤ 15 := by
          intro hc
          split <;> omega
        have hkept := fragments_preserve hrefl htrans hupdate hrest
        exact htrans (hupdate ctx t hnext) hkept

/-- a call changes the context by steps of the counters and by the tables in front of video -/
theorem call_preserves (htables : ∀ ctx,
    P ctx (writeProgramMapTable (writeProgramAssociationTable ctx).2).2)
    (pcr : Int → Int) {ctx : AVFormatContext} {m : Mem} {pkt : AVPacket}
    {r : List CacheWrite × AVFormatContext} (h : mpeg2tsWritePacket pcr ctx m pkt = some r) :
    P ctx r.2 := by
  unfold mpeg2tsWritePacket at h
  split at h
  · obtain ⟨rest, hrest, rfl⟩ := Option.map_eq_some_iff.mp h
    have hkept := unit_preserves hrefl htrans hupdate pcr hrest
    exact htrans (htables ctx) hkept
  · split at h
    · exact unit_preserves hrefl htrans hupdate pcr h
    · cases h
      exact hrefl ctx

end

theorem call_kept (pcr : Int → Int) {ctx : AVFormatContext} {m : Mem} {pkt : AVPacket}
    {r : List CacheWrite × AVFormatContext} (h : mpeg2tsWritePacket pcr ctx m pkt = some r) :
    Kept ctx r.2 :=
  call_preserves Kept.refl Kept.trans Kept.update (fun _ => ⟨rfl, rfl, rfl, id⟩) pcr h

section
variable (pcr : Int → Int) (ctx : AVFormatContext) {pid : CodecType → Fin 8192}

/-- the PID of an access unit -/
theorem mem_pesPids_unit (hpid : ∀ t, ctx.mTrackPid t = pid t) (m : Mem) (pkt : AVPacket)
    (t : CodecType) (p : Nat) :
    p ∈ pesPids ((unitHeaders pcr ctx m pkt t).map .pes) ↔ p = ctx.mTrackPid t := by
  have hall := pidOf_unit pcr m pkt (pid t) (hpid t)
  have hmap : pesPids ((unitHeaders pcr ctx m pkt t).map .pes)
      = (unitHeaders pcr ctx m pkt t).map pidOf := by
    unfold pesPids
    rw [List.filterMap_map]
    exact congrFun List.filterMap_eq_map _
  rw [hmap, List.mem_map]
  constructor
  · rintro ⟨b, hb, rfl⟩
    rw [hall b hb, hpid]
  · rintro rfl
    refine ⟨unitPrefix pcr ctx pkt t, List.mem_cons_self, ?_⟩
    rw [pidOf_unitPrefix pcr pkt (pid t) (hpid t), hpid]

theorem declaredPids_pes (bs : List Bytes) : declaredPids (bs.map .pes) = [] := by
  unfold declaredPids
  rw [List.flatMap_map]
  exact List.flatMap_eq_nil_iff.mpr fun _ _ => rfl

theorem declaredPids_tables (pat pmt : Bytes) (bs : List Bytes) :
    declaredPids (.pat pat :: .pmt pmt :: bs.map .pes) = pmtPids pmt := by
  show [] ++ (pmtPids pmt ++ declaredPids (bs.map .pes)) = _
  rw [declaredPids_pes, List.append_nil, List.nil_append]

theorem mem_pesPids_call (hpid : ∀ t, ctx.mTrackPid t = pid t) (m : Mem) (pkt : AVPacket)
    (p : Nat) :
    p ∈ pesPids (callHeaders pcr ctx m pkt) ↔
      ∃ t, codecType pkt.stream_idx = some t ∧ p = ctx.mTrackPid t := by
  unfold callHeaders codecType
  split
  · have hunit :=
      mem_pesPids_unit pcr (writeProgramMapTable (writeProgramAssociationTable ctx).2).2 hpid m pkt
        .video p
    refine hunit.trans ⟨fun h => ⟨.video, rfl, h⟩, ?_⟩
    rintro ⟨t, ht, h⟩
    cases ht
    exact h
  · split
    · refine (mem_pesPids_unit pcr ctx hpid m pkt .audio p).trans ⟨fun h => ⟨.audio, rfl, h⟩, ?_⟩
      rintro ⟨t, ht, h⟩
      cases ht
      exact h
    · constructor
      · intro h
        cases h
      · rintro ⟨t, ht, -⟩
        cases ht

/-- the PIDs that the header of a session has counted -/
def headerPids (ctx : AVFormatContext) : List Nat :=
  (List.range ctx.mTrackCnt).map fun i => ctx.mTrackPid (if i = 0 then .video else .audio)

theorem declaredPids_call (hpid : ∀ t, ctx.mTrackPid t = pid t)
    (hn : ctx.mTrackCnt = 1 ∨ ctx.mTrackCnt = 2) (m : Mem) (pkt : AVPacket) :
    declaredPids (callHeaders pcr ctx m pkt) = if pkt.stream_idx = 0 then
      headerPids ctx else [] := by
  unfold callHeaders
  split
  · have hlen := pmtBuf_length (writeProgramAssociationTable ctx).2 hn
    have hbytes : emitted (writeProgramMapTable (writeProgramAssociationTable ctx).2).1
        = pmtBuf (writeProgramAssociationTable ctx).2 :=
      (List.append_nil _).trans (List.take_of_length_le hlen.le)
    dsimp only
    rw [declaredPids_tables, hbytes, pmtPids_eq (writeProgramAssociationTable ctx).2 pid hpid hn]
    rfl
  · split
    · exact declaredPids_pes _
    · rfl

theorem pesPids_append (hs hs' : List TsHeader) : pesPids (hs ++ hs') = pesPids hs ++ pesPids hs' :=
  List.filterMap_append

theorem declaredPids_append (hs hs' : List TsHeader) :
    declaredPids (hs ++ hs') = declaredPids hs ++ declaredPids hs' :=
  List.flatMap_append

/-- **The PES packets of a run** are on the PIDs of the tracks whose packets came. -/
theorem mem_pesPids_run (hpid : ∀ t, ctx.mTrackPid t = pid t) (calls : List (Mem × AVPacket))
    (p : Nat) :
    p ∈ pesPids (runHeaders pcr ctx calls) ↔
      ∃ c ∈ callsMade pcr ctx calls, ∃ t, codecType c.2.stream_idx = some t ∧
        p = ctx.mTrackPid t := by
  induction calls generalizing ctx with
  | nil => exact ⟨fun h => (nomatch h), fun ⟨c, hc, _⟩ => nomatch hc⟩
  | cons c calls ih =>
    unfold runHeaders callsMade
    rw [pesPids_append, List.mem_append, mem_pesPids_call pcr ctx hpid, List.exists_mem_cons_iff]
    refine or_congr_right ?_
    cases hcall : mpeg2tsWritePacket pcr ctx c.1 c.2 with
    | none => exact ⟨fun h => (nomatch h), fun ⟨c, hc, _⟩ => nomatch hc⟩
    | some r =>
      have hkept := call_kept pcr hcall
      have hnext := ih r.2 fun t => (congrFun hkept.pid t).trans (hpid t)
      rw [hkept.pid] at hnext
      exact hnext

/-- **The map tables of a run** declare the tracks of the header, if a video packet came. -/
theorem mem_declaredPids_run (hpid : ∀ t, ctx.mTrackPid t = pid t)
    (hn : ctx.mTrackCnt = 1 ∨ ctx.mTrackCnt = 2) (calls : List (Mem × AVPacket)) (p : Nat) :
    p ∈ declaredPids (runHeaders pcr ctx calls) ↔
      (∃ c ∈ callsMade pcr ctx calls, c.2.stream_idx = 0) ∧ p ∈ headerPids ctx := by
  induction calls generalizing ctx with
  | nil => exact ⟨fun h => (nomatch h), fun ⟨⟨c, hc, _⟩, _⟩ => nomatch hc⟩
  | cons c calls ih =>
    unfold runHeaders callsMade
    rw [declaredPids_append, List.mem_append, declaredPids_call pcr ctx hpid hn,
      List.exists_mem_cons_iff, or_and_right]
    refine or_congr ?_ ?_
    · split
      · rename_i hvideo
        exact ⟨fun h => ⟨hvideo, h⟩, fun h => h.2⟩
      · rename_i hvideo
        exact ⟨fun h => (nomatch h), fun h => absurd h.1 hvideo⟩
    · cases hcall : mpeg2tsWritePacket pcr ctx c.1 c.2 with
      | none => exact ⟨fun h => (nomatch h), fun ⟨⟨c, hc, _⟩, _⟩ => nomatch hc⟩
      | some r =>
        have hkept := call_kept pcr hcall
        have hnext := ih r.2 (fun t => (congrFun hkept.pid t).trans (hpid t))
          (hkept.count.symm ▸ hn)
        have hheader : headerPids r.2 = headerPids ctx := by
          unfold headerPids
          rw [hkept.pid, hkept.count]
        rw [hheader] at hnext
        exact hnext

end

/-! ## every configuration -/

local instance pidRange : NeZero 8192 := ⟨by decide⟩

/-- the PIDs that the header gives to the tracks -/
def headerPid (audio : Prop) [Decidable audio] : CodecType → Fin 8192
  | .video => 0x1E1
  | .audio => if audio then 0x1E2 else 0

section
variable (channelCnt sampleRate : Int) (videoCSD audioCSD : Bytes)

/-- what the header makes of the audio parameters -/
theorem session_tracks :
    (∀ t, (session channelCnt sampleRate videoCSD audioCSD).mTrackPid t
      = headerPid (sampleRate ≠ 0 ∧ channelCnt ≠ 0) t) ∧
      (session channelCnt sampleRate videoCSD audioCSD).mTrackCnt
        = if sampleRate ≠ 0 ∧ channelCnt ≠ 0 then 2 else 1 := by
  have hrate : (mpeg2tsMuxerWriteCSD
      (mpeg2tsMuxerWriteCSD (setTrackInfo mpeg2tsMuxerOpen channelCnt sampleRate)
      videoCSD .video) audioCSD .audio).mSampleRate = sampleRate := rfl
  have hchannels : (mpeg2tsMuxerWriteCSD
      (mpeg2tsMuxerWriteCSD (setTrackInfo mpeg2tsMuxerOpen channelCnt sampleRate)
      videoCSD .video) audioCSD .audio).mChannelCnt = channelCnt := rfl
  unfold session mpeg2tsMuxerWriteHeader headerPid
  rw [hrate, hchannels]
  by_cases h : sampleRate ≠ 0 ∧ channelCnt ≠ 0
  · rw [if_pos h, if_pos h, if_pos h]
    exact ⟨fun t => by cases t <;> rfl, rfl⟩
  · rw [if_neg h, if_neg h, if_neg h]
    exact ⟨fun t => by cases t <;> rfl, rfl⟩

theorem session_csds :
    (session channelCnt sampleRate videoCSD audioCSD).mTrackCSD .video = videoCSD ∧
      (session channelCnt sampleRate videoCSD audioCSD).mTrackCSD .audio = audioCSD := by
  unfold session mpeg2tsMuxerWriteHeader
  split <;> exact ⟨rfl, rfl⟩

variable (pcr : Int → Int) (calls : List (Mem × AVPacket))

theorem mem_pesPids_session (p : Nat) :
    p ∈ pesPids (runHeaders pcr (session channelCnt sampleRate videoCSD audioCSD) calls) ↔
      ∃ c ∈ callsMade pcr (session channelCnt sampleRate videoCSD audioCSD) calls,
        ∃ t, codecType c.2.stream_idx = some t ∧
          p = headerPid (sampleRate ≠ 0 ∧ channelCnt ≠ 0) t := by
  obtain ⟨hpid, -⟩ := session_tracks channelCnt sampleRate videoCSD audioCSD
  rw [mem_pesPids_run pcr _ hpid]
  simp only [hpid]

theorem mem_declaredPids_session (p : Nat) :
    p ∈ declaredPids (runHeaders pcr (session channelCnt sampleRate videoCSD audioCSD) calls) ↔
      (∃ c ∈ callsMade pcr (session channelCnt sampleRate videoCSD audioCSD) calls,
        c.2.stream_idx = 0) ∧
        (p = 0x1E1 ∨ (sampleRate ≠ 0 ∧ channelCnt ≠ 0) ∧ p = 0x1E2) := by
  obtain ⟨hpid, hcount⟩ := session_tracks channelCnt sampleRate videoCSD audioCSD
  have hn : (session channelCnt sampleRate videoCSD audioCSD).mTrackCnt = 1 ∨
      (session channelCnt sampleRate videoCSD audioCSD).mTrackCnt = 2 := by
    rw [hcount]
    split
    · exact Or.inr rfl
    · exact Or.inl rfl
  rw [mem_declaredPids_run pcr _ hpid hn]
  refine and_congr_right fun _ => ?_
  unfold headerPids
  simp only [hpid]
  rw [hcount]
  by_cases h : sampleRate ≠ 0 ∧ channelCnt ≠ 0
  · rw [if_pos h]
    simp [List.range_succ, headerPid, h]
  · rw [if_neg h]
    simp [List.range_succ, headerPid, h]

/-- **On which PIDs the PES packets are.**  In every configuration and every run, whatever its
packets are and whether or not its last call aborts, every PES packet is on a PID that a map table
of the run declares, and none on the PID of a table, if and only if no audio packet came, or the
header had audio parameters and a video packet came as well.  In a run that returns the packets are
those of all calls. -/
theorem pids_declared_iff :
    (Declared (runHeaders pcr (session channelCnt sampleRate videoCSD audioCSD) calls) ↔
      ∀ c ∈ callsMade pcr (session channelCnt sampleRate videoCSD audioCSD) calls,
        c.2.stream_idx = 1 →
        (sampleRate ≠ 0 ∧ channelCnt ≠ 0) ∧
          ∃ d ∈ callsMade pcr (session channelCnt sampleRate videoCSD audioCSD) calls,
            d.2.stream_idx = 0) ∧
      ∀ r, run pcr (session channelCnt sampleRate videoCSD audioCSD) calls = some r →
        callsMade pcr (session channelCnt sampleRate videoCSD audioCSD) calls = calls := by
  refine ⟨?_, fun r hr => callsMade_run pcr hr⟩
  unfold Declared
  simp only [mem_pesPids_session, mem_declaredPids_session]
  constructor
  · intro h c hc hidx
    have haudio := codecType_audio.mpr hidx
    obtain ⟨⟨hvideo, -⟩, hpat, -⟩ := h _ ⟨c, hc, .audio, haudio, rfl⟩
    refine ⟨?_, hvideo⟩
    by_contra hnone
    refine hpat ?_
    unfold headerPid
    rw [if_neg hnone]
    rfl
  · rintro h p ⟨c, hc, t, ht, rfl⟩
    cases t with
    | video =>
      have hidx := codecType_video.mp ht
      have hpid : ((headerPid (sampleRate ≠ 0 ∧ channelCnt ≠ 0) .video : Fin 8192) : Nat) = 0x1E1 :=
        rfl
      rw [hpid]
      exact ⟨⟨⟨c, hc, hidx⟩, Or.inl rfl⟩, by decide, by decide⟩
    | audio =>
      obtain ⟨hparams, hvideo⟩ := h c hc (codecType_audio.mp ht)
      unfold headerPid
      rw [if_pos hparams]
      exact ⟨⟨hvideo, Or.inr ⟨hparams, rfl⟩⟩, by decide, by decide⟩

end

/-- the audio of a session without audio parameters is on the PID of the association table, and the
audio of a session with them is not declared before a video packet comes -/
theorem pids_undeclared :
    (run (· * 27000) (session 0 0 [] [0x11, 0x90]) twoCalls).isSome ∧
      0 ∈ pesPids (runHeaders (· * 27000) (session 0 0 [] [0x11, 0x90]) twoCalls) ∧
      ¬ Declared (runHeaders (· * 27000) (session 0 0 [] [0x11, 0x90]) twoCalls) ∧
      ¬ Declared (runHeaders (· * 27000) (session 2 48000 [] [0x11, 0x90]) (twoCalls.drop 1)) := by
  have hrun : (run (· * 27000) (session 0 0 [] [0x11, 0x90]) twoCalls).isSome := by decide +kernel
  obtain ⟨r, hr⟩ := Option.isSome_iff_exists.mp hrun
  have hmade := callsMade_run _ hr
  have hzero : 0 ∈ pesPids (runHeaders (· * 27000) (session 0 0 [] [0x11, 0x90]) twoCalls) := by
    rw [mem_pesPids_session, hmade]
    exact ⟨_, List.mem_cons_of_mem _ List.mem_cons_self, .audio, rfl, rfl⟩
  refine ⟨hrun, hzero, fun h => (h 0 hzero).2.1 rfl, fun h => ?_⟩
  have haudio : 0x1E2 ∈ pesPids
      (runHeaders (· * 27000) (session 2 48000 [] [0x11, 0x90]) (twoCalls.drop 1)) := by
    rw [mem_pesPids_session]
    exact ⟨_, List.mem_cons_self, .audio, rfl, rfl⟩
  have hdeclared := (h _ haudio).1
  rw [mem_declaredPids_session] at hdeclared
  obtain ⟨⟨c, hc, hidx⟩, -⟩ := hdeclared
  rw [List.mem_singleton.mp ((callsMade_initial _ _ _).subset hc)] at hidx
  cases hidx

end Pluto.Ts

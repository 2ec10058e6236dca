import Pluto.Mp4.Timeline

/-!
# `moov` fits into the space in front of `mdat`

The first MiB holds `ftyp` and `free`; the trailer puts `moov` in the place of `free` when it fits
there, and behind the payload when not.

* `Parts.fits`      with tables within their capacity and at most 100000 bytes of CSD it fits;
* `moov_reserved`   every session then writes `moov` and a `free` box that end where `mdat` begins.
-/

namespace Pluto.Mp4
open Octets Boxes SampleTables

section
variable {env : Env} {ctx : AVFormatContext} {calls : List (Mem × AVPacket)} {total : Option Int}
  {body : List CacheWrite × AVFormatContext} {u : CodecType} {c : Chunk} {mov : MOVContext}

/-- the size of `moov` as an `int`, and what it leaves of the first MiB -/
theorem Parts.fits (env : Env) (hf : Fresh ctx) (hcap : Capacity calls)
    (hcsd : (ctx.priv_data.tracks .video).csdData.val.length
      + (ctx.priv_data.tracks .audio).csdData.val.length ≤ 100000)
    (h : Parts ctx calls total body u c mov) :
    moovSize env mov = movGetMoovTagSize env mov ∧
      movGetMoovTagSize env mov + 28 + 8 ≤ movHeaderReserveSize := by
  have hle := h.closed.moov_le env hf hcap
  have htables := fullTables_total
  have hreserve : movHeaderReserveSize = 2 ^ 20 := rfl
  refine ⟨?_, by omega⟩
  unfold moovSize
  exact Int.bmod_eq_of_le_mul_two (by omega) (by omega)

/-- the size of the `free` box behind a `moov` of `n` bytes -/
theorem free_size {n r : Nat} (hn : n + 28 + 8 ≤ r) (hr : r < 2 ^ 32) :
    u32 ((r : Int) - n - 28) = r - 28 - n := by
  unfold u32
  omega

/-- a `moov` that fits: it goes to byte 28, and a `free` box behind it -/
theorem moov_place (hfits : moovFits env mov) {r : List CacheOp × MOVContext}
    (hr : movWriteMoovTag env mov = some r) :
    ∃ box, movWriteMoovBox env mov = some (box, r.2) ∧
      r.1 = [.seek mov.free_pos .seekSet] ++ writeOps box
        ++ writeOps (movWriteFreeTag (u32 (movHeaderReserveSize - moovSize env mov - 28))) := by
  obtain ⟨box, hbox, rfl⟩ := Option.map_eq_some_iff.mp hr
  refine ⟨box.1, hbox, ?_⟩
  dsimp only
  rw [if_pos hfits, if_pos hfits]

end

/-- **`moov` goes in front of `mdat`.**  When a session within the capacities, with at most 100000
bytes of CSD, comes to its trailer, `moov` and the header of a `free` box fit into what is left of
the first MiB; `moov` is written there, the `free` box behind it has at least eight bytes, and both
end where `mdat` begins. -/
theorem moov_reserved (env : Env) {ctx : AVFormatContext} (ho : Opened ctx)
    {calls : List (Mem × AVPacket)} (hs : Streamed calls) (hcap : Capacity calls)
    (hcsd : (ctx.priv_data.tracks .video).csdData.val.length
      + (ctx.priv_data.tracks .audio).csdData.val.length ≤ 100000)
    {total : Option Int} {session : List CacheOp × AVFormatContext}
    (h : mp4Session env ctx calls total = some session) :
    ∃ body closed, packets ctx.headed calls = some body ∧
      movWritePacket (totalTime body.2 total) (fun _ => 0) lastPacket = some closed ∧
      moovSize env closed.2.2.priv_data = movGetMoovTagSize env closed.2.2.priv_data ∧
      moovSize env closed.2.2.priv_data + 28 + 8 ≤ movHeaderReserveSize ∧
      closed.2.2.priv_data.mdat_pos = movHeaderReserveSize ∧
      ∃ box free, movWriteMoovBox env closed.2.2.priv_data = some box ∧
        session.1 = bodyOps body.1
          ++ ([.seek 28 .seekSet] ++ writeOps box.1 ++ writeOps (movWriteFreeTag free)
          ++ finishOps box.2) ++ [.tell] ∧
        (emitted box.1).length = movGetMoovTagSize env closed.2.2.priv_data ∧ 8 ≤ free ∧
        28 + (emitted box.1).length + free = closed.2.2.priv_data.mdat_pos := by
  have hf := ho.fresh
  obtain ⟨body, u, c, mov, hparts, hsession, -⟩ := session_parts env hf hs h
  obtain ⟨hsize, hroom⟩ := hparts.fits env hf hcap hcsd
  have hfits : moovFits env mov := by
    unfold moovFits
    omega
  have hpos : mov.mdat_pos = movHeaderReserveSize := congrArg Setup.mdat_pos hparts.closed.setup
  have hfree : mov.free_pos = 28 := congrArg Setup.free_pos hparts.closed.setup
  obtain ⟨written, hwritten, hops⟩ := Option.map_eq_some_iff.mp hsession.symm
  obtain ⟨box, hbox, hplace⟩ := moov_place hfits hwritten
  obtain ⟨hbytes, htag, -⟩ := emitted_moov (fun i hi => hparts.closed.plain hf hi) hbox
  have hlen : (emitted box).length = movGetMoovTagSize env mov := by
    rw [hbytes, htag]
  have hleft : u32 ((movHeaderReserveSize : Int) - moovSize env mov - 28)
      = movHeaderReserveSize - 28 - movGetMoovTagSize env mov := by
    rw [hsize]
    exact free_size hroom (by decide)
  refine ⟨body, _, hparts.packets, hparts.last, hsize, by dsimp only; omega, hpos, (box, written.2),
    u32 (movHeaderReserveSize - moovSize env mov - 28), hbox, ?_, hlen, ?_, ?_⟩
  · rw [← hops, hplace, hfree]
    rfl
  · rw [hleft]
    omega
  · dsimp only
    rw [hleft, hlen, hpos]
    omega

theorem moov_reserved_three :
    ∃ session body closed, mp4Session smallEnv smallContext timedCalls (some 100) = some session ∧
      packets smallContext.headed timedCalls = some body ∧
      movWritePacket (totalTime body.2 (some 100)) (fun _ => 0) lastPacket = some closed ∧
      moovSize smallEnv closed.2.2.priv_data + 28 + 8 ≤ movHeaderReserveSize := by
  obtain ⟨session, hsession⟩ := timed_session
  obtain ⟨body, closed, hbody, hclosed, -, hroom, -⟩ := moov_reserved smallEnv smallContext_opened
    (by decide : Streamed timedCalls) timedCalls_capacity (by decide) hsession
  exact ⟨session, body, closed, hsession, hbody, hclosed, hroom⟩

end Pluto.Mp4

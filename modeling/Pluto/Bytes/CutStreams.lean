import Pluto.Bytes.Transport

/-!
# Streams that are cut short

A stream may end at any byte.  A demultiplexer does not see what is left of a packet, and the last
unit of a PID may lack its end.

* `elementary_take`    the packets that are complete count;
* `CutShort`           nothing of a unit, or its beginning;
* `units_pesPackets_take`   the first packets of a unit.
-/

namespace Transport
open Octets

theorem cut_short {s : Bytes} (h : s.length < 188) : cut s = [] := by
  unfold cut
  rw [Nat.div_eq_of_lt h]
  rfl

theorem cut_stream_append (cc : Counters) (ps : List Packet) (s : Bytes) :
    cut (stream cc ps ++ s) = cut (stream cc ps) ++ cut s := by
  have h188 : ∀ b ∈ (stamp cc ps).map fun x => x.1.encode x.2, b.length = 188 := by
    intro b hb
    obtain ⟨x, _, rfl⟩ := List.mem_map.mp hb
    exact x.1.encode_length x.2
  rw [cut_stream]
  exact cut_flatten h188 s

/-- a packet that is not complete is not seen -/
theorem cut_take (cc : Counters) (ps : List Packet) (n : Nat) :
    cut ((stream cc ps).take n) = cut (stream cc (ps.take (n / 188))) := by
  have hsplit : stream cc ps
      = stream cc (ps.take (n / 188)) ++ stream (cc.after (ps.take (n / 188)))
          (ps.drop (n / 188)) := by
    rw [← stream_append, List.take_append_drop]
  have hlen := stream_length cc (ps.take (n / 188))
  rw [List.length_take] at hlen
  have hfits : (stream cc (ps.take (n / 188))).length ≤ n := by omega
  have hrest : cut ((stream (cc.after (ps.take (n / 188))) (ps.drop (n / 188))).take
      (n - (stream cc (ps.take (n / 188))).length)) = [] := by
    apply cut_short
    rw [List.length_take]
    by_cases hall : n / 188 < ps.length
    · omega
    · rw [List.drop_eq_nil_of_le (not_lt.mp hall), stream_nil, List.length_nil]
      omega
  nth_rewrite 1 [hsplit]
  rw [List.take_append, List.take_of_length_le hfits, cut_stream_append, hrest, List.append_nil]

theorem elementary_take (pid : Nat) (cc : Counters) (ps : List Packet) (n : Nat) :
    elementary pid ((stream cc ps).take n) = elementary pid (stream cc (ps.take (n / 188))) := by
  unfold elementary
  rw [cut_take]

/-! ## the last unit -/

/-- what is received of a unit whose end is missing -/
def CutShort (unit : Bytes) (us : List Bytes) : Prop :=
  us = [] ∨ ∃ part, us = [part] ∧ part <+: unit ∧ part.length < unit.length

theorem fragments_payload_pos {pid : Fin 8192} {body : Bytes} {p : Packet}
    (h : p ∈ fragments pid body) :
    0 < p.payload.length := by
  induction body using fragments.induct with
  | case1 =>
    rw [fragments_nil] at h
    cases h
  | case2 body h0 hlt =>
    rw [fragments, dif_neg h0, dif_pos hlt, List.mem_singleton] at h
    rw [h]
    exact List.length_pos_of_ne_nil h0
  | case3 body h0 hlt ih =>
    rw [fragments, dif_neg h0, dif_neg hlt, List.mem_cons] at h
    rcases h with rfl | h
    · show 0 < (body.take 184).length
      rw [List.length_take]
      omega
    · exact ih h

/-- the first fragments -/
theorem fragments_take {pid : Fin 8192} {body : Bytes} {n : Nat}
    (h : n < (fragments pid body).length) :
    (((fragments pid body).take n).map Packet.payload).flatten <+: body ∧
      (((fragments pid body).take n).map Packet.payload).flatten.length < body.length := by
  have hbody : (((fragments pid body).take n).map Packet.payload).flatten
      ++ (((fragments pid body).drop n).map Packet.payload).flatten = body := by
    rw [← List.flatten_append, ← List.map_append, List.take_append_drop, fragments_payload]
  refine ⟨⟨_, hbody⟩, ?_⟩
  -- at least one fragment is missing, and it is not empty
  have hmissing : 0 < (((fragments pid body).drop n).map Packet.payload).flatten.length := by
    rw [List.drop_eq_getElem_cons h, List.map_cons, List.flatten_cons, List.length_append]
    have := fragments_payload_pos (List.getElem_mem h)
    omega
  have hlen := congrArg List.length hbody
  rw [List.length_append] at hlen
  omega

theorem units_fragments_take (pid : Fin 8192) (body : Bytes) (n : Nat) :
    ((fragments pid body).take n).map (fun p => (p.start, p.payload))
      = (((fragments pid body).take n).map Packet.payload).map (Prod.mk false) := by
  rw [List.map_map]
  apply List.map_congr_left
  intro p hp
  rw [(fragments_mem (List.mem_of_mem_take hp)).1]
  rfl

theorem units_pesPackets_take {pid : Fin 8192} {clock pes : Bytes} (hclock : clock.length = 7)
    (h : 176 ≤ pes.length) {n : Nat} (hn : n < (pesPackets pid clock pes hclock h).length) :
    ∃ us, units (((pesPackets pid clock pes hclock h).take n).map fun p => (p.start, p.payload))
      = ([], us) ∧
      CutShort pes us := by
  cases n with
  | zero => exact ⟨[], rfl, .inl rfl⟩
  | succ n =>
    rw [pesPackets, List.length_cons] at hn
    have hcut : n < (fragments pid (pes.drop 176)).length := by omega
    obtain ⟨hhead, hshort⟩ := fragments_take hcut
    rw [pesPackets, List.take_succ_cons, List.map_cons, units_fragments_take]
    have hunit :=
      units_unit (pes.take 176) (((fragments pid (pes.drop 176)).take n).map Packet.payload) [] rfl
    rw [List.append_nil] at hunit
    refine ⟨_, hunit, .inr ⟨_, rfl, ?_, ?_⟩⟩
    · nth_rewrite 3 [← List.take_append_drop 176 pes]
      exact (List.prefix_append_right_inj _).mpr hhead
    · rw [List.length_drop] at hshort
      rw [List.length_append, List.length_take]
      omega

end Transport

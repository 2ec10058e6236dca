import Pluto.Bytes.Octets

/-!
# Transport streams

A transport stream is a sequence of packets of 188 bytes.  `Packet` is a packet without its
continuity counter: an unfilled one cannot be built.

* `Packet.encode`      the 188 bytes, read back by `startOf`, `pidOf`, `controlOf`, `counterOf`,
                       `payloadOf`;
* `cut`                a byte string cut into packets;
* `stamp`              every packet with the next counter of its PID (`stamp_counters`);
* `stream`             the bytes of stamped packets;
* `fragments`          a byte string carried by packets, the last of them stuffed;
* `pesPackets`         a PES packet carried by packets;
* `units`, `elementary`  the payloads of one PID, joined from one start indicator to the next.
-/

namespace Transport
open Octets

/-- the adaptation field behind the header, with its length byte -/
def adaptationField : Option Bytes → Bytes
  | none => []
  | some a => UInt8.ofNat a.length :: a

/-- `start`: the payload_unit_start_indicator -/
structure Packet where
  start : Bool
  pid : Fin 8192
  adaptation : Option Bytes
  payload : Bytes
  fills : (adaptationField adaptation).length + payload.length = 184

/-- the adaptation_field_control -/
def Packet.control (p : Packet) : Nat := if p.adaptation.isSome then 3 else 1

def Packet.encode (p : Packet) (counter : Fin 16) : Bytes :=
  [0x47, UInt8.ofNat ((if p.start then 0x40 else 0) + p.pid / 256), UInt8.ofNat (p.pid % 256),
    UInt8.ofNat (16 * p.control + counter)] ++ adaptationField p.adaptation ++ p.payload

@[simp] theorem Packet.encode_length (p : Packet) (c : Fin 16) : (p.encode c).length = 188 := by
  have := p.fills
  simp only [Packet.encode, List.length_append, List.length_cons, List.length_nil]
  omega

theorem Packet.encode_continue {p : Packet} (h : p.start = false) (c : Fin 16) :
    p.encode c = [0x47, UInt8.ofNat (p.pid / 256), UInt8.ofNat (p.pid % 256),
      UInt8.ofNat (16 * p.control + c)] ++ adaptationField p.adaptation ++ p.payload := by
  rw [Packet.encode, h, if_neg (by decide), Nat.zero_add]

theorem Packet.encode_start {p : Packet} (h : p.start = true) (c : Fin 16) :
    p.encode c = [0x47, UInt8.ofNat (0x40 + p.pid / 256), UInt8.ofNat (p.pid % 256),
      UInt8.ofNat (16 * p.control + c)] ++ adaptationField p.adaptation ++ p.payload := by
  rw [Packet.encode, h, if_pos rfl]

/-! ## reading a packet -/

def byteAt (b : Bytes) (i : Nat) : Nat := (b.getD i 0).toNat

def startOf (b : Bytes) : Bool := byteAt b 1 / 64 % 2 == 1

def pidOf (b : Bytes) : Nat := byteAt b 1 % 32 * 256 + byteAt b 2

def controlOf (b : Bytes) : Nat := byteAt b 3 / 16 % 4

def counterOf (b : Bytes) : Nat := byteAt b 3 % 16

/-- the header dropped, and the adaptation field where there is one -/
def payloadOf (b : Bytes) : Bytes :=
  if controlOf b = 1 then b.drop 4
  else if controlOf b = 3 then b.drop (5 + byteAt b 4)
  else []

theorem Packet.encode_head (p : Packet) (c : Fin 16) : (p.encode c).head? = some 0x47 := rfl

theorem Packet.byteAt_one (p : Packet) (c : Fin 16) :
    byteAt (p.encode c) 1 = (if p.start then 0x40 else 0) + p.pid / 256 := by
  show (UInt8.ofNat _).toNat = _
  have := p.pid.isLt
  rw [UInt8.toNat_ofNat', Nat.mod_eq_of_lt]
  split <;> omega

theorem Packet.byteAt_three (p : Packet) (c : Fin 16) :
    byteAt (p.encode c) 3 = 16 * p.control + c := by
  show (UInt8.ofNat _).toNat = _
  have := c.isLt
  rw [UInt8.toNat_ofNat', Nat.mod_eq_of_lt]
  unfold Packet.control
  split <;> omega

@[simp] theorem startOf_encode (p : Packet) (c : Fin 16) : startOf (p.encode c) = p.start := by
  have := p.pid.isLt
  unfold startOf
  rw [p.byteAt_one c]
  cases p.start with
  | false => simp only [Bool.false_eq_true, ite_false, beq_eq_false_iff_ne]; omega
  | true => simp only [ite_true, beq_iff_eq]; omega

@[simp] theorem pidOf_encode (p : Packet) (c : Fin 16) : pidOf (p.encode c) = p.pid := by
  have hp := p.pid.isLt
  have h2 : byteAt (p.encode c) 2 = p.pid % 256 := by
    show (UInt8.ofNat _).toNat = _
    rw [UInt8.toNat_ofNat', Nat.mod_mod]
  unfold pidOf
  rw [p.byteAt_one c, h2]
  split <;> omega

theorem Packet.control_cases (p : Packet) : p.control = 1 ∨ p.control = 3 := by
  unfold Packet.control
  split
  · exact Or.inr rfl
  · exact Or.inl rfl

@[simp] theorem controlOf_encode (p : Packet) (c : Fin 16) :
    controlOf (p.encode c) = p.control := by
  have hc := c.isLt
  unfold controlOf
  rw [p.byteAt_three c]
  rcases p.control_cases with h | h <;> rw [h] <;> omega

@[simp] theorem counterOf_encode (p : Packet) (c : Fin 16) : counterOf (p.encode c) = c := by
  have hc := c.isLt
  unfold counterOf
  rw [p.byteAt_three c]
  omega

@[simp] theorem payloadOf_encode (p : Packet) (c : Fin 16) :
    payloadOf (p.encode c) = p.payload := by
  have hf := p.fills
  unfold payloadOf
  rw [controlOf_encode]
  cases h : p.adaptation with
  | none =>
    have h1 : p.control = 1 := by simp [Packet.control, h]
    rw [if_pos h1, Packet.encode, h]
    rfl
  | some a =>
    have h3 : p.control = 3 := by simp [Packet.control, h]
    rw [h] at hf
    have h4 : byteAt (p.encode c) 4 = a.length := by
      have : byteAt (p.encode c) 4 = (UInt8.ofNat a.length).toNat := by rw [Packet.encode, h]; rfl
      rw [this, UInt8.toNat_ofNat', Nat.mod_eq_of_lt]
      simp only [adaptationField, List.length_cons] at hf
      omega
    rw [if_neg (by rw [h3]; decide), if_pos h3, h4, Packet.encode, h, adaptationField,
      Nat.add_comm 5]
    exact List.drop_left

/-! ## cutting a stream -/

def cut (s : Bytes) : List Bytes := (List.range (s.length / 188)).map fun i => slice s (188 * i) 188

@[simp] theorem cut_nil : cut [] = [] := rfl

theorem cut_append {b : Bytes} (hb : b.length = 188) (s : Bytes) : cut (b ++ s) = b :: cut s := by
  have hn : (b ++ s).length / 188 = s.length / 188 + 1 := by
    rw [List.length_append, hb, Nat.add_comm, Nat.add_div_right _ (by norm_num)]
  unfold cut
  rw [hn, List.range_succ_eq_map, List.map_cons, List.map_map]
  congr 1
  · rw [Nat.mul_zero, slice, List.drop_zero, ← hb, List.take_left]
  · apply List.map_congr_left
    intro i _
    have hi : 188 * (i + 1) - 188 = 188 * i := by omega
    show slice (b ++ s) (188 * (i + 1)) 188 = slice s (188 * i) 188
    rw [slice_append_right _ _ _ _ (by omega), hb, hi]

theorem cut_flatten {bs : List Bytes} (h : ∀ b ∈ bs, b.length = 188) (s : Bytes) :
    cut (bs.flatten ++ s) = bs ++ cut s := by
  induction bs with
  | nil => rfl
  | cons b bs ih =>
    rw [List.flatten_cons, List.append_assoc, cut_append (h b List.mem_cons_self),
      ih fun x hx => h x (List.mem_cons_of_mem b hx), List.cons_append]

/-! ## counters -/

/-- the next counter of every PID -/
abbrev Counters := Fin 8192 → Fin 16

def Counters.advance (cc : Counters) (p : Packet) : Counters :=
  Function.update cc p.pid (cc p.pid + 1)

def Counters.after (cc : Counters) (ps : List Packet) : Counters := ps.foldl Counters.advance cc

def stamp (cc : Counters) : List Packet → List (Packet × Fin 16)
  | [] => []
  | p :: ps => (p, cc p.pid) :: stamp (cc.advance p) ps

theorem stamp_append (cc : Counters) (ps qs : List Packet) :
    stamp cc (ps ++ qs) = stamp cc ps ++ stamp (cc.after ps) qs := by
  induction ps generalizing cc with
  | nil => rfl
  | cons p ps ih =>
    show (p, cc p.pid) :: stamp (cc.advance p) (ps ++ qs) = _
    rw [ih]
    rfl

@[simp] theorem stamp_packets (cc : Counters) (ps : List Packet) :
    (stamp cc ps).map Prod.fst = ps := by
  induction ps generalizing cc with
  | nil => rfl
  | cons p ps ih => rw [stamp, List.map_cons, ih]

/-- **The counters of one PID are consecutive**, whatever other packets stand between. -/
theorem stamp_counters (cc : Counters) (ps : List Packet) (pid : Fin 8192) :
    ((stamp cc ps).filter fun x => x.1.pid = pid).map Prod.snd
      = (List.range (ps.filter fun p => p.pid = pid).length).map fun i =>
        cc pid + Fin.ofNat 16 i := by
  induction ps generalizing cc with
  | nil => rfl
  | cons p ps ih =>
    rw [stamp]
    by_cases h : p.pid = pid
    · rw [List.filter_cons_of_pos (by simpa using h), List.filter_cons_of_pos (by simpa using h),
        List.map_cons, ih, List.length_cons, List.range_succ_eq_map, List.map_cons, List.map_map]
      congr 1
      · rw [h]
        simp
      · apply List.map_congr_left
        intro i _
        rw [Counters.advance, h, Function.update_self]
        show cc pid + 1 + Fin.ofNat 16 i = cc pid + Fin.ofNat 16 (i + 1)
        apply Fin.ext
        simp only [Fin.val_add, Fin.val_ofNat, Fin.val_one]
        omega
    · rw [List.filter_cons_of_neg (by simpa using h), List.filter_cons_of_neg (by simpa using h),
        ih, Counters.advance, Function.update_of_ne (Ne.symm h)]

def stream (cc : Counters) (ps : List Packet) : Bytes :=
  (stamp cc ps).flatMap fun x => x.1.encode x.2

@[simp] theorem stream_nil (cc : Counters) : stream cc [] = [] := rfl

theorem stream_cons (cc : Counters) (p : Packet) (ps : List Packet) :
    stream cc (p :: ps) = p.encode (cc p.pid) ++ stream (cc.advance p) ps := rfl

theorem stream_append (cc : Counters) (ps qs : List Packet) :
    stream cc (ps ++ qs) = stream cc ps ++ stream (cc.after ps) qs := by
  rw [stream, stamp_append, List.flatMap_append]
  rfl

theorem cut_stream (cc : Counters) (ps : List Packet) :
    cut (stream cc ps) = (stamp cc ps).map fun x => x.1.encode x.2 := by
  have h188 : ∀ b ∈ (stamp cc ps).map fun x => x.1.encode x.2, b.length = 188 := by
    intro b hb
    obtain ⟨x, _, rfl⟩ := List.mem_map.mp hb
    exact x.1.encode_length x.2
  have := cut_flatten h188 []
  rwa [List.append_nil, cut_nil, List.append_nil] at this

theorem stream_length (cc : Counters) (ps : List Packet) :
    (stream cc ps).length = 188 * ps.length := by
  induction ps generalizing cc with
  | nil => rfl
  | cons p ps ih =>
    rw [stream_cons, List.length_append, ih, p.encode_length, List.length_cons]
    omega

/-- the packets of one PID in a stream, and those that carry its counters -/
theorem filter_cut_stream (pid : Fin 8192) (cc : Counters) (ps : List Packet) :
    ((cut (stream cc ps)).filter fun b => pidOf b = pid)
      = ((stamp cc ps).filter fun x => x.1.pid = pid).map fun x => x.1.encode x.2 := by
  rw [cut_stream, List.filter_map]
  congr 1
  apply List.filter_congr
  intro x _
  simp [Fin.ext_iff]

theorem counters_stream (pid : Fin 8192) (cc : Counters) (ps : List Packet) :
    ((cut (stream cc ps)).filter fun b => pidOf b = pid).map counterOf
      = (List.range ((cut (stream cc ps)).filter fun b => pidOf b = pid).length).map
          fun i : Nat => ((cc pid : Nat) + i) % 16 := by
  have hlen : ((stamp cc ps).filter fun x => x.1.pid = pid).length
      = (ps.filter fun p => p.pid = pid).length := by
    have := congrArg List.length (stamp_counters cc ps pid)
    rwa [List.length_map, List.length_map, List.length_range] at this
  have hc := congrArg (List.map Fin.val) (stamp_counters cc ps pid)
  rw [List.map_map, List.map_map] at hc
  rw [filter_cut_stream, List.map_map, List.length_map, hlen]
  refine Eq.trans ?_ (hc.trans ?_)
  · apply List.map_congr_left
    intro x _
    exact counterOf_encode x.1 x.2
  · apply List.map_congr_left
    intro i _
    simp [Fin.val_add]

/-- the counters leave the adaptation_field_control alone -/
theorem control_stream {cc : Counters} {ps : List Packet} {b : Bytes} (h : b ∈ cut (stream cc ps)) :
    byteAt b 3 = 16 * controlOf b + counterOf b ∧ (controlOf b = 1 ∨ controlOf b = 3) := by
  rw [cut_stream] at h
  obtain ⟨x, _, rfl⟩ := List.mem_map.mp h
  rw [controlOf_encode, counterOf_encode]
  exact ⟨x.1.byteAt_three x.2, x.1.control_cases⟩

theorem sync_stream {cc : Counters} {ps : List Packet} {b : Bytes} (h : b ∈ cut (stream cc ps)) :
    b.head? = some 0x47 := by
  rw [cut_stream] at h
  obtain ⟨x, _, rfl⟩ := List.mem_map.mp h
  exact x.1.encode_head x.2

/-! ## fragments -/

/-- an adaptation field of `n` bytes, its length byte included, that holds nothing -/
def stuffing (n : Nat) : Bytes := if n ≤ 1 then [] else 0 :: List.replicate (n - 2) 0xff

theorem stuffing_length (n : Nat) : (stuffing n).length = n - 1 := by
  unfold stuffing
  split
  · simp; omega
  · rw [List.length_cons, List.length_replicate]; omega

/-- the packets that carry `body` behind a first packet -/
def fragments (pid : Fin 8192) (body : Bytes) : List Packet :=
  if h0 : body = [] then []
  else if h : body.length < 184 then
    [{ start := false
       pid := pid
       adaptation := some (stuffing (184 - body.length))
       payload := body
       fills := by rw [adaptationField, List.length_cons, stuffing_length]; omega }]
  else
    { start := false, pid := pid, adaptation := none, payload := body.take 184
      fills := by rw [adaptationField, List.length_take]; simp; omega }
      :: fragments pid (body.drop 184)
termination_by body.length
decreasing_by
  rw [List.length_drop]
  have := List.length_pos_of_ne_nil h0
  omega

@[simp] theorem fragments_nil (pid : Fin 8192) : fragments pid [] = [] := by
  rw [fragments, dif_pos rfl]

theorem fragments_mem {pid : Fin 8192} {body : Bytes} {p : Packet} (h : p ∈ fragments pid body) :
    p.start = false ∧ p.pid = pid := by
  induction body using fragments.induct with
  | case1 => rw [fragments_nil] at h; cases h
  | case2 body h0 hlt =>
    rw [fragments, dif_neg h0, dif_pos hlt, List.mem_singleton] at h
    rw [h]
    exact ⟨rfl, rfl⟩
  | case3 body h0 hlt ih =>
    rw [fragments, dif_neg h0, dif_neg hlt, List.mem_cons] at h
    rcases h with h | h
    · rw [h]
      exact ⟨rfl, rfl⟩
    · exact ih h

theorem fragments_length (pid : Fin 8192) (body : Bytes) :
    (fragments pid body).length = (body.length + 183) / 184 := by
  induction body using fragments.induct with
  | case1 => rw [fragments_nil]; rfl
  | case2 body h0 hlt =>
    have := List.length_pos_of_ne_nil h0
    rw [fragments, dif_neg h0, dif_pos hlt, List.length_singleton]
    omega
  | case3 body h0 hlt ih =>
    rw [fragments, dif_neg h0, dif_neg hlt, List.length_cons, ih, List.length_drop]
    omega

theorem fragments_payload (pid : Fin 8192) (body : Bytes) :
    ((fragments pid body).map Packet.payload).flatten = body := by
  induction body using fragments.induct with
  | case1 => rw [fragments_nil]; rfl
  | case2 body h0 hlt =>
    rw [fragments, dif_neg h0, dif_pos hlt]
    simp
  | case3 body h0 hlt ih =>
    rw [fragments, dif_neg h0, dif_neg hlt, List.map_cons, List.flatten_cons, ih]
    exact List.take_append_drop 184 body

/-! ## payloads, from start to start -/

/-- the bytes before the first start indicator, and those from each indicator to the next -/
def units : List (Bool × Bytes) → Bytes × List Bytes
  | [] => ([], [])
  | (start, b) :: rest =>
    let r := units rest
    if start then ([], (b ++ r.1) :: r.2) else (b ++ r.1, r.2)

theorem units_continue (bs : List Bytes) (rest : List (Bool × Bytes)) :
    units (bs.map (Prod.mk false) ++ rest) = (bs.flatten ++ (units rest).1, (units rest).2) := by
  induction bs with
  | nil => rfl
  | cons b bs ih =>
    show (b ++ (units (bs.map (Prod.mk false) ++ rest)).1,
      (units (bs.map (Prod.mk false) ++ rest)).2) = _
    rw [ih, List.flatten_cons, List.append_assoc]

theorem units_unit (b : Bytes) (bs : List Bytes) (rest : List (Bool × Bytes))
    (h : (units rest).1 = []) :
    units ((true, b) :: bs.map (Prod.mk false) ++ rest)
      = ([], (b ++ bs.flatten) :: (units rest).2) := by
  show ([], (b ++ (units (bs.map (Prod.mk false) ++ rest)).1)
    :: (units (bs.map (Prod.mk false) ++ rest)).2) = _
  rw [units_continue, h, List.append_nil]

/-- the packets that carry a PES packet; the first one has the clock value `clock` in its
adaptation field -/
def pesPackets (pid : Fin 8192) (clock pes : Bytes) (hclock : clock.length = 7)
    (h : 176 ≤ pes.length) :
    List Packet :=
  { start := true, pid := pid, adaptation := some clock, payload := pes.take 176
    fills := by rw [adaptationField, List.length_cons, hclock, List.length_take]; omega }
    :: fragments pid (pes.drop 176)

theorem pesPackets_pid {pid : Fin 8192} {clock pes : Bytes} {hclock : clock.length = 7}
    {h : 176 ≤ pes.length} {p : Packet} (hp : p ∈ pesPackets pid clock pes hclock h) :
    p.pid = pid := by
  rcases List.mem_cons.mp hp with rfl | hp
  · rfl
  · exact (fragments_mem hp).2

theorem stream_pesPackets (cc : Counters) (pid : Fin 8192) (clock pes : Bytes)
    (hclock : clock.length = 7) (h : 176 ≤ pes.length) :
    stream cc (pesPackets pid clock pes hclock h)
      = [0x47, UInt8.ofNat (0x40 + pid / 256), UInt8.ofNat (pid % 256),
        UInt8.ofNat (16 * 3 + cc pid)]
        ++ adaptationField (some clock) ++ pes.take 176
        ++ stream (Function.update cc pid (cc pid + 1)) (fragments pid (pes.drop 176)) := by
  unfold pesPackets
  rw [stream_cons, Packet.encode_start rfl]
  rfl

/-- a PES packet is a unit -/
theorem units_pesPackets {pid : Fin 8192} {clock pes : Bytes} (hclock : clock.length = 7)
    (h : 176 ≤ pes.length) (rest : List (Bool × Bytes)) (hrest : (units rest).1 = []) :
    units ((pesPackets pid clock pes hclock h).map (fun p => (p.start, p.payload)) ++ rest)
      = ([], pes :: (units rest).2) := by
  have hfrag : (fragments pid (pes.drop 176)).map (fun p => (p.start, p.payload))
      = ((fragments pid (pes.drop 176)).map Packet.payload).map (Prod.mk false) := by
    rw [List.map_map]
    apply List.map_congr_left
    intro p hp
    rw [(fragments_mem hp).1]
    rfl
  rw [pesPackets, List.map_cons, hfrag, units_unit _ _ _ hrest, fragments_payload,
    List.take_append_drop]

/-- what a receiver of one PID gets -/
def elementary (pid : Nat) (s : Bytes) : Bytes × List Bytes :=
  units (((cut s).filter fun b => pidOf b = pid).map fun b => (startOf b, payloadOf b))

theorem elementary_stream (pid : Fin 8192) (cc : Counters) (ps : List Packet) :
    elementary pid (stream cc ps)
      = units ((ps.filter fun p => p.pid = pid).map fun p => (p.start, p.payload)) := by
  have hm : ((fun b => (startOf b, payloadOf b)) ∘ fun x : Packet × Fin 16 => x.1.encode x.2)
      = (fun p : Packet => (p.start, p.payload)) ∘ Prod.fst := by
    funext x
    simp
  have hf : ((stamp cc ps).filter fun x => x.1.pid = pid).map Prod.fst
      = ps.filter fun p => p.pid = pid := by
    have :=
      List.filter_map (f := Prod.fst) (p := fun p : Packet => decide (p.pid = pid))
        (l := stamp cc ps)
    rw [stamp_packets] at this
    exact this.symm
  unfold elementary
  rw [filter_cut_stream, List.map_map, hm, ← List.map_map, hf]

end Transport

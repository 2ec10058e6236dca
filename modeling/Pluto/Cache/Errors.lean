import Pluto.Cache.Refine
import Pluto.Steps.Windows

/-!
# Errors of the stream

* `callsSeen`               a sequence of `file_cache_write`: which calls failed, and which called
  the application;
* `notified_iff`            when the application is called in time: a write that fails with `EIO`
                            silences all calls behind it;
* `fsCacheSimpleWrite_blocks`   a call on the cache as the blocks it writes to the stream;
* `kept_iff`                when the accepted bytes and the waiting ones are those that were passed:
                            the result of `file_cache_write` is not looked at.
-/

namespace Pluto
open Octets Windows

/-! ## one write -/

/-- the `errno` of a write that does not take all bytes -/
def WriteOutcome.failure (b : Bytes) : WriteOutcome → Option Int
  | .full => none
  | .short n e => if b.length ≤ n then none else some e
  | .error e => some e

/-- a write that takes all bytes -/
theorem fileCacheWrite_accepted {s : MmStreamInfo} {b : Bytes} (hs : s.mWriteErrNO ≠ EIO)
    (h : (s.env s.writes).failure b = none) :
    fileCacheWrite s b = ((b.length : Int),
      { { s with writes := s.writes + 1 }.fpCall (.fwrite b.length) b with
        mWriteErrCnt := 0 }) := by
  rw [fileCacheWrite, if_neg hs, mmWriteStreamFile]
  cases he : s.env s.writes with
  | full => simp
  | error e => rw [he] at h; cases h
  | short n e =>
    have hn : b.length ≤ n := by
      by_contra hn
      rw [he, WriteOutcome.failure, if_neg hn] at h
      cases h
    simp [List.take_of_length_le hn]

/-- the other writes: less is accepted, and the failure is counted -/
theorem fileCacheWrite_failed {s : MmStreamInfo} {b : Bytes} {e : Int} (hs : s.mWriteErrNO ≠ EIO)
    (h : (s.env s.writes).failure b = some e) :
    ∃ r a, r ≠ (b.length : Int) ∧ a.length ≤ b.length - 1 ∧ fileCacheWrite s b = (r,
      { { s with writes := s.writes + 1 }.fpCall (.fwrite b.length) a with
        mWriteErrNO := e
        mWriteErrCnt := s.mWriteErrCnt + 1
        cbCalls := if s.mWriteErrCnt > 10 ∧ s.mCB = true then s.cbCalls + 1 else s.cbCalls }) := by
  rw [fileCacheWrite, if_neg hs, mmWriteStreamFile]
  cases he : s.env s.writes with
  | full => rw [he] at h; cases h
  | error e' =>
    rw [he] at h
    cases h
    refine ⟨-1, [], by omega, Nat.zero_le _, ?_⟩
    simp [MmStreamInfo.fpCall]
  | short n e' =>
    rw [he, WriteOutcome.failure] at h
    split_ifs at h with hn
    cases h
    have hlen : (b.take n).length = n := List.length_take_of_le (by omega)
    refine ⟨n, b.take n, by omega, by omega, ?_⟩
    have hne : n ≠ b.length := by omega
    simp [MmStreamInfo.fpCall, hlen, hne]

/-- behind `EIO` nothing is written any more -/
theorem fileCacheWrite_silent {s : MmStreamInfo} (hs : s.mWriteErrNO = EIO) (b : Bytes) :
    fileCacheWrite s b = (- EIO, s) := if_pos hs

/-! ## the callback -/

/-- `INT_MAX` -/
def intMax : Int := 2 ^ 31 - 1

/-- no result when `mWriteErrCnt` overflows -/
def fileCacheWriteInt (s : MmStreamInfo) (b : Bytes) : Option (Int × MmStreamInfo) :=
  if (fileCacheWrite s b).2.mWriteErrCnt > intMax then none else some (fileCacheWrite s b)

/-- what is seen of a call: it returned something other than its size, and it called the
application -/
structure CallSeen where
  failed : Bool
  called : Bool
deriving DecidableEq

def callsSeen (s : MmStreamInfo) : List Bytes → Option (List CallSeen)
  | [] => some []
  | b :: bs =>
    (fileCacheWriteInt s b).bind fun r =>
      (callsSeen r.2 bs).map (⟨decide (r.1 ≠ b.length), decide (r.2.cbCalls ≠ s.cbCalls)⟩ :: ·)

/-- twelve failures one after the other are not all silent -/
def Notified (t : List CallSeen) : Prop :=
  ∀ a w z, t = a ++ w ++ z → 12 ≤ w.length → (∀ c ∈ w, c.failed = true) → ∃ c ∈ w, c.called = true

/-- the application is not called before the twelfth failure since the last success -/
def Earned (t : List CallSeen) : Prop :=
  ∀ a c z, t = a ++ c :: z → c.called = true → 12 ≤ streak CallSeen.failed 0 (a ++ [c])

/-- a failure of which the application does not hear -/
def CallSeen.quiet (c : CallSeen) : Bool := c.failed && !c.called

/-- when a write fails with `EIO`, so few calls follow that the silent ones are eleven at most; `i`
writes were made before, of which the last `k` failed -/
def Heard (env : Nat → WriteOutcome) : Nat → Nat → List Bytes → Prop
  | _, _, [] => True
  | i, k, b :: bs =>
    match (env i).failure b with
    | none => Heard env (i + 1) 0 bs
    | some e =>
      if e = EIO then (if k < 11 then k + 1 else 0) + bs.length < 12
        else Heard env (i + 1) (k + 1) bs

theorem notified_below {t : List CallSeen} : Notified t ↔ Below CallSeen.quiet 12 0 t := by
  rw [below_iff]
  constructor
  · intro h
    have hany : ∀ a w z, t = a ++ w ++ z → (∀ c ∈ w, c.quiet = true) → w.length < 12 := by
      intro a w z ht hw
      by_contra hn
      obtain ⟨c, hc, hcalled⟩ :=
        h a w z ht (by omega) fun c hc => (Bool.and_eq_true_iff.mp (hw c hc)).1
      have := (Bool.and_eq_true_iff.mp (hw c hc)).2
      rw [hcalled] at this
      cases this
    exact ⟨fun w z ht hw => by have := hany [] w z ht hw; omega, hany⟩
  · rintro ⟨-, hany⟩ a w z ht hlen hfailed
    by_contra hno
    have := hany a w z ht fun c hc => by
      have hcalled : c.called = false := Bool.eq_false_iff.mpr fun h => hno ⟨c, hc, h⟩
      rw [CallSeen.quiet, hfailed c hc, hcalled]
      rfl
    omega

/-- the silent failures in front of a call, where the last `k` calls failed -/
def quietBefore (k : Nat) : Nat := if k < 12 then k else 0

/-- behind `EIO` every call fails and is silent -/
theorem callsSeen_silent {s : MmStreamInfo} (hs : s.mWriteErrNO = EIO) {bs : List Bytes}
    {t : List CallSeen} (h : callsSeen s bs = some t) :
    t = List.replicate bs.length ⟨true, false⟩ := by
  induction bs generalizing t with
  | nil =>
    cases h
    rfl
  | cons b bs ih =>
    obtain ⟨r, hr, hrest⟩ := Option.bind_eq_some_iff.mp h
    obtain ⟨t', ht', rfl⟩ := Option.map_eq_some_iff.mp hrest
    rw [fileCacheWriteInt, fileCacheWrite_silent hs] at hr
    split_ifs at hr
    cases hr
    have hne : (- EIO : Int) ≠ b.length := by
      have : EIO = 5 := rfl
      omega
    rw [ih ht', List.length_cons, List.replicate_succ]
    simp [hne]

theorem quietBefore_lt (k : Nat) : quietBefore k < 12 := by
  rw [quietBefore]
  split_ifs with h
  · exact h
  · decide

/-- one more failure -/
theorem quietBefore_succ (k : Nat) : quietBefore (k + 1) = if k < 11 then k + 1 else 0 := by
  simp only [quietBefore, show k + 1 < 12 ↔ k < 11 by omega]

/-- the last of them is silent up to the eleventh -/
theorem quietBefore_step (k : Nat) :
    (if (CallSeen.mk true (decide (k > 10))).quiet then quietBefore k + 1 else 0)
      = quietBefore (k + 1) := by
  rw [quietBefore_succ]
  by_cases hk : k < 11
  · have hno : ¬ k > 10 := by omega
    simp [CallSeen.quiet, hk, hno, quietBefore, show k < 12 by omega]
  · simp [CallSeen.quiet, hk, show k > 10 by omega]

/-- `Earned` behind `k` failures -/
def EarnedFrom (k : Nat) (t : List CallSeen) : Prop :=
  ∀ a c z, t = a ++ c :: z → c.called = true → 12 ≤ streak CallSeen.failed k (a ++ [c])

theorem earned_cons (k : Nat) (d : CallSeen) (t : List CallSeen) : EarnedFrom k (d :: t) ↔
    (d.called = true → 12 ≤ if d.failed then k + 1 else 0) ∧
      EarnedFrom (if d.failed then k + 1 else 0) t := by
  constructor
  · intro h
    exact ⟨h [] d t rfl, fun a c z ht => h (d :: a) c z (by rw [ht, List.cons_append])⟩
  · rintro ⟨h0, h⟩ a c z ht hc
    cases a with
    | nil =>
      obtain ⟨rfl, -⟩ := List.cons.inj ht
      exact h0 hc
    | cons e a =>
      obtain ⟨rfl, hrest⟩ := List.cons.inj ht
      exact h a c z hrest hc

theorem earned_silent (k n : Nat) : EarnedFrom k (List.replicate n ⟨true, false⟩) := by
  intro a c z ht hc
  have hmem : c ∈ List.replicate n (CallSeen.mk true false) := by
    rw [ht]
    simp
  rw [List.eq_of_mem_replicate hmem] at hc
  cases hc

/-- **What a run of calls shows**, behind `k` failures. -/
theorem callsSeen_iff {s : MmStreamInfo} {k : Nat} {bs : List Bytes} {t : List CallSeen}
    (h : callsSeen s bs = some t) (hs : s.mWriteErrNO ≠ EIO) (hcb : s.mCB = true)
    (hk : s.mWriteErrCnt = k) :
    (Below CallSeen.quiet 12 (quietBefore k) t ↔ Heard s.env s.writes k bs) ∧ EarnedFrom k t := by
  induction bs generalizing s k t with
  | nil =>
    cases h
    exact ⟨iff_of_true (quietBefore_lt k) trivial, earned_silent k 0⟩
  | cons b bs ih =>
    obtain ⟨r, hr, hrest⟩ := Option.bind_eq_some_iff.mp h
    obtain ⟨t', ht', rfl⟩ := Option.map_eq_some_iff.mp hrest
    rw [fileCacheWriteInt] at hr
    split_ifs at hr
    cases hr
    cases hf : (s.env s.writes).failure b with
    | none =>
      rw [fileCacheWrite_accepted hs hf] at ht' ⊢
      obtain ⟨hbelow, hearned⟩ := ih ht' hs hcb (k := 0) rfl
      refine ⟨?_, (earned_cons k _ t').mpr ⟨by simp, by simpa using hearned⟩⟩
      rw [Heard, hf, Below, and_iff_right (quietBefore_lt k)]
      rw [show quietBefore 0 = 0 from rfl] at hbelow
      simpa [CallSeen.quiet] using hbelow
    | some e =>
      obtain ⟨r, a, hne, -, hw⟩ := fileCacheWrite_failed hs hf
      rw [hw] at ht' ⊢
      have hcount : s.mWriteErrCnt > 10 ↔ k > 10 := by omega
      have hseen : (⟨decide (r ≠ b.length),
          decide ((if s.mWriteErrCnt > 10 ∧ s.mCB = true then s.cbCalls + 1
          else s.cbCalls) ≠ s.cbCalls)⟩ : CallSeen) = ⟨true, decide (k > 10)⟩ := by
        by_cases hk10 : k > 10 <;> simp [hne, hcb, hcount, hk10]
      -- the application is called from the twelfth failure on
      have htwelve : decide (k > 10) = true → 12 ≤ k + 1 := by
        intro hcalled
        have hk10 := of_decide_eq_true hcalled
        omega
      dsimp only at ht' ⊢
      rw [hseen, Heard, hf, Below, and_iff_right (quietBefore_lt k), quietBefore_step, earned_cons]
      dsimp only
      by_cases he : e = EIO
      · -- nothing is counted any more
        have hall := callsSeen_silent (by exact he) ht'
        have hquiet : ∀ c ∈ t', CallSeen.quiet c = true := by
          intro c hc
          rw [hall] at hc
          rw [List.eq_of_mem_replicate hc]
          rfl
        have hlen : t'.length = bs.length := by rw [hall, List.length_replicate]
        rw [if_pos he, below_all hquiet, hlen, quietBefore_succ]
        exact ⟨Iff.rfl, htwelve, hall ▸ earned_silent (k + 1) bs.length⟩
      · rw [if_neg he]
        obtain ⟨hbelow, hearned⟩ := ih ht' he hcb (k := k + 1) (by push_cast; omega)
        exact ⟨hbelow, htwelve, hearned⟩

/-- **When the application is called.**  In every run over a new stream with a callback it is called
among twelve failures in a row, and not before the twelfth, if and only if so few calls follow a
write that fails with `EIO` that the silent failures are eleven at most. -/
theorem notified_iff (contents : Bytes) (env : Nat → WriteOutcome) (stdio : List FpCall → Nat)
    {bs : List Bytes} {t : List CallSeen}
    (h : callsSeen { createOutstreamHandleFile contents env stdio with mCB := true } bs = some t) :
    Notified t ∧ Earned t ↔ Heard env 0 0 bs := by
  have hs : (0 : Int) ≠ EIO := by decide
  obtain ⟨hbelow, hearned⟩ := callsSeen_iff h hs rfl (k := 0) rfl
  rw [notified_below, and_iff_left (show Earned t from hearned)]
  exact hbelow

/-- thirteen writes on a full disk -/
theorem notified_full :
    Notified (List.replicate 11 ⟨true, false⟩ ++ [⟨true, true⟩, ⟨true, true⟩]) ∧
      Earned (List.replicate 11 ⟨true, false⟩ ++ [⟨true, true⟩, ⟨true, true⟩]) := by
  have hrun : callsSeen
      { createOutstreamHandleFile [] (fun _ => .error 28) (fullyBuffered 4096) with mCB := true }
        (List.replicate 13 [0])
      = some (List.replicate 11 ⟨true, false⟩ ++ [⟨true, true⟩, ⟨true, true⟩]) := by decide
  refine (notified_iff [] (fun _ => .error 28) (fullyBuffered 4096) hrun).mpr ?_
  simp [Heard, WriteOutcome.failure, EIO, List.replicate]

/-- twelve writes on a broken disk -/
theorem notified_silent :
    callsSeen { createOutstreamHandleFile [] (fun _ => .error EIO) (fullyBuffered 4096) with
        mCB := true } (List.replicate 12 [0])
        = some (List.replicate 12 ⟨true, false⟩) ∧
      ¬ Notified (List.replicate 12 ⟨true, false⟩) := by
  refine ⟨by decide, fun h => ?_⟩
  obtain ⟨c, hc, hcalled⟩ :=
    h [] (List.replicate 12 ⟨true, false⟩) [] rfl (by decide) fun c hc => by
      rw [List.eq_of_mem_replicate hc]
  rw [List.eq_of_mem_replicate hc] at hcalled
  cases hcalled

/-! ## the blocks of a call -/

def WriteOutcome.Takes (n : Nat) : WriteOutcome → Prop
  | .full => True
  | .short k _ => n ≤ k
  | .error _ => False

/-- the writes from the `i`-th on take all the bytes they are given; `ns` are their sizes -/
def Taken (env : Nat → WriteOutcome) : Nat → List Nat → Prop
  | _, [] => True
  | i, n :: ns => (env i).Takes n ∧ Taken env (i + 1) ns

theorem takes_iff {o : WriteOutcome} {b : Bytes} : o.Takes b.length ↔ o.failure b = none := by
  cases o <;> simp [WriteOutcome.Takes, WriteOutcome.failure]

def MmStreamInfo.writeAll (s : MmStreamInfo) (blocks : List Bytes) : MmStreamInfo :=
  blocks.foldl (fun s b => (fileCacheWrite s b).2) s

/-- what a call with `n` bytes writes to the stream when `v` bytes wait in a cache of `m` -/
def writeSizes (m v n : Nat) : List Nat :=
  if v = 0 then if n ≥ m then [n / m * m] else []
  else if v + n < m then []
  else m :: if v + n - m ≥ m then [(v + n - m) / m * m] else []

/-- the same for a sequence of calls -/
def callSizes (m : Nat) : Nat → List Nat → List Nat
  | _, [] => []
  | v, n :: ns => writeSizes m v n ++ callSizes m ((v + n) % m) ns

/-- the results of a sequence of calls and the cache behind them -/
def CacheSimpleContext.writes (c : CacheSimpleContext) : List Bytes → List Int × CacheSimpleContext
  | [] => ([], c)
  | b :: bs =>
    let rest := (fsCacheSimpleWrite c b).2.writes bs
    ((fsCacheSimpleWrite c b).1 :: rest.1, rest.2)

structure CacheSimpleContext.Buffered (c : CacheSimpleContext) : Prop where
  buffer : c.mpCache.length = c.mCacheSize
  room : c.mValidLen < c.mCacheSize

theorem CacheSimpleContext.Buffered.pending_length {c : CacheSimpleContext} (h : c.Buffered) :
    c.pending.length = c.mValidLen := by
  have := h.buffer
  have := h.room
  rw [CacheSimpleContext.pending, List.length_take]
  omega

/-- a call as the blocks it writes: together with the bytes that wait behind it they are the bytes
that waited and the new ones -/
structure Blocks (c c' : CacheSimpleContext) (buf : Bytes) (blocks : List Bytes) :
    Prop extends c'.Buffered where
  size : c'.mCacheSize = c.mCacheSize
  stream : c'.mpStream = c.mpStream.writeAll blocks
  bytes : c.pending ++ buf = blocks.flatten ++ c'.pending

/-- a remainder shorter than the cache, behind the blocks -/
theorem remainder_blocks {c : CacheSimpleContext} (h : c.Buffered) (h0 : c.mValidLen = 0)
    {s : MmStreamInfo} {blocks : List Bytes} {buf left : Bytes}
    (hs : s = c.mpStream.writeAll blocks) (hbuf : buf = blocks.flatten ++ left)
    (hl : left.length < c.mCacheSize) :
    Blocks c (if left.length > 0 then
      { c with mpStream := s, mpCache := memcpy c.mpCache 0 left, mValidLen := left.length }
    else { c with mpStream := s }) buf blocks := by
  have hb := h.buffer
  have hpend : c.pending = [] := by rw [CacheSimpleContext.pending, h0, List.take_zero]
  by_cases hl0 : left.length > 0
  · have hhead : (memcpy c.mpCache 0 left).take left.length = left := by
      have := memcpy_take c.mpCache 0 left (Nat.zero_le _)
      rwa [Nat.zero_add, List.take_zero, List.nil_append] at this
    rw [if_pos hl0]
    refine ⟨⟨?_, hl⟩, rfl, hs, ?_⟩
    · show (memcpy c.mpCache 0 left).length = c.mCacheSize
      rw [memcpy_length _ _ _ (by omega), hb]
    · show c.pending ++ buf = blocks.flatten ++ (memcpy c.mpCache 0 left).take left.length
      rw [hhead, hpend, List.nil_append, hbuf]
  · have hnil : left = [] := List.eq_nil_of_length_eq_zero (by omega)
    rw [if_neg hl0]
    refine ⟨⟨hb, h.room⟩, rfl, hs, ?_⟩
    show c.pending ++ buf = blocks.flatten ++ c.pending
    rw [hpend, List.nil_append, List.append_nil, hbuf, hnil, List.append_nil]

/-- the part behind the first `if` -/
theorem rest_blocks {c : CacheSimpleContext} (h : c.Buffered) (h0 : c.mValidLen = 0) (buf : Bytes) :
    ∃ blocks, Blocks c (fsCacheSimpleRest c buf) buf blocks ∧
      blocks.map List.length = if buf.length ≥ c.mCacheSize then
        [buf.length / c.mCacheSize * c.mCacheSize] else [] := by
  have hroom := h.room
  rw [fsCacheSimpleRest]
  by_cases hge : buf.length ≥ c.mCacheSize
  · have hlt : buf.length - buf.length / c.mCacheSize * c.mCacheSize < c.mCacheSize := by
      have h1 := Nat.div_add_mod' buf.length c.mCacheSize
      have h2 := Nat.mod_lt buf.length (by omega : c.mCacheSize > 0)
      omega
    simp only [if_pos hge]
    refine ⟨[buf.take (buf.length / c.mCacheSize * c.mCacheSize)], remainder_blocks h h0 rfl ?_ ?_,
      ?_⟩
    · simp
    · rwa [List.length_drop]
    · have := Nat.div_mul_le_self buf.length c.mCacheSize
      simp [this]
  · simp only [if_neg hge]
    exact ⟨[], remainder_blocks h h0 rfl rfl (by omega), rfl⟩

/-- bytes behind the waiting ones -/
theorem CacheSimpleContext.Buffered.memcpy {c : CacheSimpleContext} (h : c.Buffered) {a : Bytes}
    (ha : c.mValidLen + a.length ≤ c.mCacheSize) :
    (Pluto.memcpy c.mpCache c.mValidLen a).length = c.mCacheSize ∧
      (Pluto.memcpy c.mpCache c.mValidLen a).take (c.mValidLen + a.length) = c.pending ++ a := by
  have hb := h.buffer
  exact ⟨by rw [memcpy_length _ _ _ (by omega), hb], memcpy_take _ _ _ (by omega)⟩

/-- the cache is filled up and written, and the rest follows -/
theorem filled_blocks {c : CacheSimpleContext} (h : c.Buffered) (hv : c.mValidLen > 0) {buf : Bytes}
    (hfit : ¬ c.mValidLen + buf.length ≤ c.mCacheSize) :
    ∃ blocks, Blocks c (fsCacheSimpleRest { c with
        mpCache := memcpy c.mpCache c.mValidLen (buf.take (c.mCacheSize - c.mValidLen))
        mpStream := (fileCacheWrite c.mpStream ((memcpy c.mpCache c.mValidLen
          (buf.take (c.mCacheSize - c.mValidLen))).take c.mCacheSize)).2
        mValidLen := 0 } (buf.drop (c.mCacheSize - c.mValidLen))) buf blocks ∧
      blocks.map List.length = writeSizes c.mCacheSize c.mValidLen buf.length := by
  have hroom := h.room
  have htake : (buf.take (c.mCacheSize - c.mValidLen)).length = c.mCacheSize - c.mValidLen :=
    List.length_take_of_le (by omega)
  have hup : c.mValidLen + (buf.take (c.mCacheSize - c.mValidLen)).length = c.mCacheSize := by omega
  obtain ⟨hcopy, hhead⟩ := h.memcpy hup.le
  rw [hup] at hhead
  obtain ⟨blocks, hblocks, hsizes⟩ := rest_blocks (c := { c with
    mpCache := memcpy c.mpCache c.mValidLen (buf.take (c.mCacheSize - c.mValidLen))
    mpStream := (fileCacheWrite c.mpStream ((memcpy c.mpCache c.mValidLen
      (buf.take (c.mCacheSize - c.mValidLen))).take c.mCacheSize)).2
    mValidLen := 0 }) ⟨hcopy, by dsimp only; omega⟩ rfl (buf.drop (c.mCacheSize - c.mValidLen))
  refine ⟨(c.pending ++ buf.take (c.mCacheSize - c.mValidLen)) :: blocks,
    ⟨hblocks.toBuffered, hblocks.size, ?_, ?_⟩, ?_⟩
  · rw [hblocks.stream, hhead]
    rfl
  · have hbytes := hblocks.bytes
    rw [CacheSimpleContext.pending, List.take_zero, List.nil_append] at hbytes
    rw [List.flatten_cons, List.append_assoc, ← hbytes, List.append_assoc, List.take_append_drop]
  · have hsum : (c.pending ++ buf.take (c.mCacheSize - c.mValidLen)).length = c.mCacheSize := by
      rw [List.length_append, h.pending_length, hup]
    have hdrop : (buf.drop (c.mCacheSize - c.mValidLen)).length
        = c.mValidLen + buf.length - c.mCacheSize := by
      rw [List.length_drop]
      omega
    have hcall : writeSizes c.mCacheSize c.mValidLen buf.length = c.mCacheSize ::
        if c.mValidLen + buf.length - c.mCacheSize ≥ c.mCacheSize then
          [(c.mValidLen + buf.length - c.mCacheSize) / c.mCacheSize * c.mCacheSize] else [] := by
      rw [writeSizes, if_neg (by omega), if_neg (by omega)]
    rw [List.map_cons, hsizes, hsum, hdrop, hcall]

/-- **One call.** -/
theorem fsCacheSimpleWrite_blocks {c : CacheSimpleContext} (h : c.Buffered) {buf : Bytes}
    (hne : buf ≠ []) :
    (fsCacheSimpleWrite c buf).1 = buf.length ∧
      ∃ blocks, Blocks c (fsCacheSimpleWrite c buf).2 buf blocks ∧
      blocks.map List.length = writeSizes c.mCacheSize c.mValidLen buf.length := by
  have hroom := h.room
  have hlen : buf.length ≠ 0 := by simpa using hne
  rw [fsCacheSimpleWrite, if_neg hlen, if_neg (by omega)]
  by_cases hv : c.mValidLen > 0
  · rw [if_pos hv]
    by_cases hfit : c.mValidLen + buf.length ≤ c.mCacheSize
    · obtain ⟨hcopy, hhead⟩ := h.memcpy hfit
      rw [if_pos hfit]
      dsimp only
      by_cases hfull : c.mValidLen + buf.length = c.mCacheSize
      · rw [if_pos hfull]
        refine ⟨rfl, [c.pending ++ buf], ⟨⟨hcopy, ?_⟩, rfl, ?_, ?_⟩, ?_⟩
        · show 0 < c.mCacheSize
          omega
        · show (fileCacheWrite c.mpStream _).2 = (fileCacheWrite c.mpStream (c.pending ++ buf)).2
          rw [← hfull, hhead]
        · simp [CacheSimpleContext.pending]
        · rw [writeSizes, if_neg (by omega), if_neg (by omega), if_neg (by omega)]
          simp [h.pending_length, hfull]
      · rw [if_neg hfull]
        refine ⟨rfl, [], ⟨⟨hcopy, ?_⟩, rfl, rfl, ?_⟩, ?_⟩
        · show c.mValidLen + buf.length < c.mCacheSize
          omega
        · exact hhead.symm
        · rw [writeSizes, if_neg (by omega), if_pos (by omega)]
          rfl
    · rw [if_neg hfit]
      exact ⟨rfl, filled_blocks h hv hfit⟩
  · have h0 : c.mValidLen = 0 := by omega
    obtain ⟨blocks, hblocks, hsizes⟩ := rest_blocks h h0 buf
    rw [if_neg hv]
    refine ⟨rfl, blocks, hblocks, ?_⟩
    rw [hsizes, writeSizes, if_pos h0]

/-- how many bytes wait behind a call -/
theorem Blocks.waiting {c c' : CacheSimpleContext} {buf : Bytes} {blocks : List Bytes}
    (hc : c.Buffered) (h : Blocks c c' buf blocks)
    (hsizes : blocks.map List.length = writeSizes c.mCacheSize c.mValidLen buf.length) :
    c'.mValidLen = (c.mValidLen + buf.length) % c.mCacheSize := by
  have hlen := congrArg List.length h.bytes
  have hroom := h.room
  have hm := h.size
  have hmultiple : ∃ k, (writeSizes c.mCacheSize c.mValidLen buf.length).sum
      = c.mCacheSize * k := by
    rw [writeSizes]
    split_ifs
    · exact ⟨_, by rw [List.sum_singleton, Nat.mul_comm]⟩
    · exact ⟨0, rfl⟩
    · exact ⟨0, rfl⟩
    · refine ⟨1 + (c.mValidLen + buf.length - c.mCacheSize) / c.mCacheSize, ?_⟩
      rw [List.sum_cons, List.sum_singleton, Nat.mul_add, Nat.mul_one, Nat.mul_comm]
    · exact ⟨1, by simp⟩
  obtain ⟨k, hk⟩ := hmultiple
  rw [List.length_append, List.length_append, hc.pending_length, h.toBuffered.pending_length,
    List.length_flatten, hsizes, hk] at hlen
  rw [hlen, Nat.mul_add_mod, Nat.mod_eq_of_lt (by omega)]

/-- **A sequence of calls**: the stream gets the blocks one after the other, and the rest waits. -/
theorem writes_blocks {c : CacheSimpleContext} (h : c.Buffered) {bs : List Bytes}
    (hne : ∀ b ∈ bs, b ≠ []) :
    (c.writes bs).1 = bs.map (fun b => (b.length : Int)) ∧
      ∃ blocks, Blocks c (c.writes bs).2 bs.flatten blocks ∧
      blocks.map List.length = callSizes c.mCacheSize c.mValidLen (bs.map List.length) := by
  induction bs generalizing c with
  | nil =>
    refine ⟨rfl, [], ⟨h, rfl, rfl, ?_⟩, rfl⟩
    show c.pending ++ [] = [] ++ c.pending
    rw [List.append_nil, List.nil_append]
  | cons b bs ih =>
    obtain ⟨hret, blocks, hblocks, hsizes⟩ := fsCacheSimpleWrite_blocks h (hne b List.mem_cons_self)
    obtain ⟨hrets, blocks', hblocks', hsizes'⟩ :=
      ih hblocks.toBuffered fun d hd => hne d (List.mem_cons_of_mem b hd)
    have hwait := hblocks.waiting h hsizes
    rw [hblocks.size, hwait] at hsizes'
    refine ⟨?_, blocks ++ blocks', ⟨hblocks'.toBuffered, hblocks'.size.trans hblocks.size, ?_, ?_⟩,
      ?_⟩
    · rw [CacheSimpleContext.writes, List.map_cons, hret, hrets]
    · rw [CacheSimpleContext.writes, hblocks'.stream, hblocks.stream]
      exact (List.foldl_append ..).symm
    · rw [List.flatten_cons, List.flatten_append, ← List.append_assoc, hblocks.bytes,
        List.append_assoc, hblocks'.bytes, List.append_assoc]
      rfl
    · rw [List.map_append, List.map_cons, callSizes, hsizes, hsizes']

/-! ## the bytes of the stream -/

/-- the position does not run ahead of the bytes -/
theorem fileCacheWrite_pos (s : MmStreamInfo) (b : Bytes) :
    (fileCacheWrite s b).2.pos ≤ s.pos + b.length := by
  by_cases hs : s.mWriteErrNO = EIO
  · rw [fileCacheWrite_silent hs]
    exact Nat.le_add_right _ _
  · cases hf : (s.env s.writes).failure b with
    | none =>
      rw [fileCacheWrite_accepted hs hf]
      exact (fpCall_pos _ _ b).le
    | some e =>
      obtain ⟨r, a, -, hlen, hw⟩ := fileCacheWrite_failed hs hf
      rw [hw]
      refine (fpCall_pos _ _ a).le.trans ?_
      show s.pos + a.length ≤ s.pos + b.length
      omega

theorem writeAll_pos (s : MmStreamInfo) (blocks : List Bytes) :
    (s.writeAll blocks).pos ≤ s.pos + blocks.flatten.length := by
  induction blocks generalizing s with
  | nil => exact le_rfl
  | cons b blocks ih =>
    have h1 := fileCacheWrite_pos s b
    have h2 := ih (fileCacheWrite s b).2
    rw [List.flatten_cons, List.length_append]
    show ((fileCacheWrite s b).2.writeAll blocks).pos ≤ _
    omega

/-- the bytes up to the position, after a store there -/
theorem take_overlay {s b : Bytes} {p : Nat} (hp : p ≤ s.length) :
    (overlay s p b).take (p + b.length) = s.take p ++ b ∧
      p + b.length ≤ (overlay s p b).length := by
  by_cases hb : b = []
  · rw [hb, overlay_nil, List.append_nil]
    exact ⟨rfl, hp⟩
  · have hlen : (s.take p ++ b).length = p + b.length := by
      rw [List.length_append, List.length_take_of_le hp]
    constructor
    · rw [overlay_ne_nil s p hb, Nat.sub_eq_zero_of_le hp, zeros_zero, List.append_nil, ← hlen,
        List.take_left]
    · rw [overlay_length s p hb]
      exact le_max_right _ _

/-- **The blocks in the stream**: they are all there, or some byte is missing. -/
theorem writeAll_bytes {s : MmStreamInfo} (hs : s.mWriteErrNO ≠ EIO)
    (hp : s.pos ≤ s.contents.length) {blocks : List Bytes} (hne : ∀ b ∈ blocks, b ≠ []) :
    (Taken s.env s.writes (blocks.map List.length) →
      (s.writeAll blocks).contents.take (s.writeAll blocks).pos
        = s.contents.take s.pos ++ blocks.flatten ∧
        (s.writeAll blocks).pos = s.pos + blocks.flatten.length) ∧
    (¬ Taken s.env s.writes (blocks.map List.length) →
      (s.writeAll blocks).pos < s.pos + blocks.flatten.length) := by
  induction blocks generalizing s with
  | nil =>
    refine ⟨fun _ => ⟨?_, rfl⟩, fun h => absurd trivial h⟩
    exact (List.append_nil _).symm
  | cons b blocks ih =>
    have hpos := List.length_pos_iff.mpr (hne b List.mem_cons_self)
    rw [List.map_cons, Taken, takes_iff, List.flatten_cons, List.length_append]
    cases hf : (s.env s.writes).failure b with
    | none =>
      obtain ⟨s', hstep, hcontents, hnext, henv, hwrites, herr⟩ : ∃ s',
        (fileCacheWrite s b).2 = s' ∧
          s'.contents = overlay s.contents s.pos b ∧ s'.pos = s.pos + b.length ∧ s'.env = s.env ∧
          s'.writes = s.writes + 1 ∧ s'.mWriteErrNO = s.mWriteErrNO :=
        ⟨_, congrArg Prod.snd (fileCacheWrite_accepted hs hf), fpCall_contents _ _ b,
          fpCall_pos _ _ b, rfl, rfl, rfl⟩
      obtain ⟨htake, hle⟩ := take_overlay (b := b) hp
      rw [← herr] at hs
      rw [← hcontents, ← hnext] at htake hle
      obtain ⟨h1, h2⟩ := ih hs hle fun d hd => hne d (List.mem_cons_of_mem b hd)
      rw [henv, hwrites] at h1 h2
      rw [show s.writeAll (b :: blocks) = (fileCacheWrite s b).2.writeAll blocks from rfl, hstep]
      rw [hnext] at h1 h2 htake
      rw [htake, List.append_assoc, Nat.add_assoc] at h1
      rw [Nat.add_assoc] at h2
      exact ⟨fun h => h1 h.2, fun h => h2 fun hrest => h ⟨rfl, hrest⟩⟩
    | some e =>
      refine ⟨fun h => (nomatch h.1), fun _ => ?_⟩
      obtain ⟨r, a, -, hlen, hw⟩ := fileCacheWrite_failed hs hf
      have hrest := writeAll_pos (fileCacheWrite s b).2 blocks
      have hat : (fileCacheWrite s b).2.pos = s.pos + a.length := by
        rw [hw]
        exact fpCall_pos _ _ a
      show ((fileCacheWrite s b).2.writeAll blocks).pos < _
      omega

/-- no block is empty -/
theorem callSizes_pos {m : Nat} (hm : 0 < m) {v : Nat} (ns : List Nat) :
    ∀ n ∈ callSizes m v ns, 0 < n := by
  induction ns generalizing v with
  | nil => exact fun n hn => nomatch hn
  | cons k ns ih =>
    intro n hn
    have hblock : ∀ j, j ≥ m → 0 < j / m * m := fun j hj => Nat.mul_pos (Nat.div_pos hj hm) hm
    rcases List.mem_append.mp hn with hn | hn
    · rw [writeSizes] at hn
      split_ifs at hn with h1 h2 h3 h4
      · rw [List.mem_singleton.mp hn]
        exact hblock _ h2
      · cases hn
      · cases hn
      · rcases List.mem_cons.mp hn with rfl | hn
        · exact hm
        · rw [List.mem_singleton.mp hn]
          exact hblock _ h4
      · rw [List.mem_singleton.mp hn]
        exact hm
    · exact ih n hn

/-- **What a result says.**  Over a new stream every call with a non-empty buffer returns its size.
The bytes that the stream has accepted and those that wait are the ones that were passed if and only
if every write of the stream took all bytes it was given. -/
theorem kept_iff (contents : Bytes) (env : Nat → WriteOutcome) (stdio : List FpCall → Nat)
    {mpCache : Bytes} {size : Int} {c : CacheSimpleContext}
    (hc : createCacheSimple (createOutstreamHandleFile contents env stdio) mpCache size = some c)
    (hcache : mpCache.length = size.toNat) {bs : List Bytes} (hne : ∀ b ∈ bs, b ≠ []) :
    (c.writes bs).1 = bs.map (fun b => (b.length : Int)) ∧
      ((c.writes bs).2.mpStream.contents.take (c.writes bs).2.mpStream.pos
        ++ (c.writes bs).2.pending = bs.flatten ↔
        Taken env 0 (callSizes size.toNat 0 (bs.map List.length))) := by
  rw [createCacheSimple] at hc
  split_ifs at hc with hsize
  cases hc
  obtain ⟨hrets, blocks, hblocks, hsizes⟩ := writes_blocks (c := {
    mpStream := createOutstreamHandleFile contents env stdio
    mpCache := mpCache
    mCacheSize := size.toNat
    mValidLen := 0 }) ⟨hcache, by dsimp only; omega⟩ hne
  refine ⟨hrets, ?_⟩
  have hbytes := hblocks.bytes
  rw [CacheSimpleContext.pending, List.take_zero, List.nil_append] at hbytes
  have hpos : ∀ b ∈ blocks, b ≠ [] := by
    intro b hb hnil
    have := callSizes_pos (m := size.toNat) (by omega) (v := 0) (bs.map List.length) b.length (by
      rw [← hsizes]
      exact List.mem_map_of_mem hb)
    rw [hnil] at this
    exact absurd this (lt_irrefl 0)
  obtain ⟨htaken, hlost⟩ :=
    writeAll_bytes (s := createOutstreamHandleFile contents env stdio)
      (show (0 : Int) ≠ EIO by decide)
    (Nat.zero_le _) hpos
  rw [hsizes] at htaken hlost
  rw [hblocks.stream, hbytes]
  constructor
  · intro heq
    by_contra hno
    have hlt := hlost hno
    have hlen := congrArg List.length heq
    rw [List.length_append, List.length_append, List.length_take] at hlen
    have hzero : (createOutstreamHandleFile contents env stdio).pos = 0 := rfl
    dsimp only at hlen
    omega
  · intro h
    rw [(htaken h).1]
    rfl

/-- two calls through a cache of four bytes; the one write of the stream takes its eight bytes -/
theorem kept_small :
    ∃ c, createCacheSimple
      (createOutstreamHandleFile [] (fun _ => .short 8 28) (fullyBuffered 4096))
      [0, 0, 0, 0] 4 = some c ∧
    (c.writes [[1, 2, 3, 4, 5, 6, 7, 8, 9], [10, 11]]).2.mpStream.contents.take
        (c.writes [[1, 2, 3, 4, 5, 6, 7, 8, 9], [10, 11]]).2.mpStream.pos
      ++ (c.writes [[1, 2, 3, 4, 5, 6, 7, 8, 9], [10, 11]]).2.pending
        = [1, 2, 3, 4, 5, 6, 7, 8, 9, 10, 11] := by
  have hc : createCacheSimple
      (createOutstreamHandleFile [] (fun _ => .short 8 28) (fullyBuffered 4096)) [0, 0, 0, 0] 4
        = some _ := rfl
  exact ⟨_, hc, (kept_iff [] _ _ hc rfl (by decide)).2.mpr
    (by simp [Taken, WriteOutcome.Takes, callSizes, writeSizes])⟩

/-- the byte is gone, and the call has returned its size -/
theorem kept_lost :
    ∃ c, createCacheSimple (createOutstreamHandleFile [] (fun _ => .error 28) (fullyBuffered 4096))
      [0] 1 = some c ∧
    (c.writes [[7]]).1 = [1] ∧
      (c.writes [[7]]).2.mpStream.contents.take (c.writes [[7]]).2.mpStream.pos
        ++ (c.writes [[7]]).2.pending = [] ∧
      [[7]].flatten ≠ ([] : Bytes) :=
  ⟨_, rfl, by decide, by decide, by decide⟩

end Pluto

import Pluto.Bytes.SampleTable

/-!
# The times of samples

`stts` lists runs of samples: how many, and the time from each of them to the next sample.

* `sttsEntries`     the runs in the body of the box;
* `expand`          the time from each sample to the next one;
* `decodeTime`      when a sample is decoded: the times of the samples before it, added up;
* `decodeTime_gaps` runs of one sample each, where the time of a sample was recorded with the next
  one.
-/

namespace SampleTables
open Octets Boxes

def sttsEntries (b : Bytes) : List (Nat × Nat) :=
  (List.range (word b 4)).map fun i => (word b (8 + 8 * i), word b (8 + 8 * i + 4))

def expand (entries : List (Nat × Nat)) : List Nat :=
  entries.flatMap fun e => List.replicate e.1 e.2

def decodeTime (entries : List (Nat × Nat)) (k : Nat) : Nat := ((expand entries).take k).sum

/-- the record of a run: the number of samples, the time of each -/
def sttsRecord (e : Nat × Nat) : Bytes := be 4 e.1 ++ be 4 e.2

theorem sttsRecord_length (e : Nat × Nat) : (sttsRecord e).length = 8 := by
  simp [sttsRecord]

theorem sttsEntries_eq (es : List (Nat × Nat)) (hn : es.length < 2 ^ 32)
    (hv : ∀ e ∈ es, e.1 < 2 ^ 32 ∧ e.2 < 2 ^ 32) :
    sttsEntries (be 4 0 ++ be 4 es.length ++ es.flatMap sttsRecord) = es := by
  have hcount : word (be 4 0 ++ be 4 es.length ++ es.flatMap sttsRecord) 4 = es.length :=
    word_at (be 4 0) _ _ hn
  unfold sttsEntries
  rw [hcount]
  refine map_range_eq fun i hi => ?_
  obtain ⟨he1, he2⟩ := hv _ (List.getElem_mem hi)
  have e1 :=
    word_record (be 4 0 ++ be 4 es.length) sttsRecord 8 sttsRecord_length es i 0 hi (by omega)
  have e2 :=
    word_record (be 4 0 ++ be 4 es.length) sttsRecord 8 sttsRecord_length es i 4 hi (by omega)
  have f1 : word (sttsRecord es[i]) 0 = es[i].1 := word_at [] (be 4 es[i].2) _ he1
  have f2 : word (sttsRecord es[i]) 4 = es[i].2 := by
    have := word_at (be 4 es[i].1) [] _ he2
    rwa [List.append_nil] at this
  exact Prod.ext (e1.trans f1) (e2.trans f2)

/-- runs of one sample each -/
def singles (times : List Nat) : List (Nat × Nat) := times.map fun v => (1, v)

theorem expand_singles (times : List Nat) : expand (singles times) = times := by
  unfold expand singles
  rw [List.flatMap_map]
  exact List.flatMap_singleton' times

theorem expand_run (n v : Nat) : (expand [(n, v)]).length = n := by
  simp [expand]

/-- what was recorded with the samples, the first value left out and a last one added -/
def shifted (recorded : List Nat) : List Nat := recorded.tail ++ [0]

theorem shifted_length {recorded : List Nat} (h : recorded ≠ []) :
    (shifted recorded).length = recorded.length := by
  have hpos := List.length_pos_of_ne_nil h
  rw [shifted, List.length_append, List.length_tail, List.length_singleton]
  omega

/-- **The times add up.**  If each sample but the first one was recorded with the gap to the sample
before it, a sample is decoded as long after the first one as it was presented. -/
theorem decodeTime_gaps {recorded : List Nat} {pts : Nat → Int}
    (h : ∀ k (hk : k + 1 < recorded.length), (recorded[k + 1] : Int) = pts (k + 1) - pts k)
    {k : Nat} (hk : k < recorded.length) :
    (decodeTime (singles (shifted recorded)) k : Int) = pts k - pts 0 := by
  have hlen : k ≤ recorded.tail.length := by
    rw [List.length_tail]
    omega
  rw [decodeTime, expand_singles, shifted, List.take_append_of_le_length hlen]
  induction k with
  | zero => simp
  | succ k ih =>
    have hk' : k < recorded.tail.length := hlen
    have hgap := h k hk
    rw [List.sum_take_succ _ k hk', List.getElem_tail, Nat.cast_add, ih (by omega) (by omega), hgap]
    ring

end SampleTables

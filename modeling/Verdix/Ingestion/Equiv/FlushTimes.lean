import Mathlib.Tactic.NormNum
import Verdix.Ingestion.FlushTimes
import Verdix.Lib.Chunks

/-!
# How long an event is held

The wait starts again with each event, so the events come in bursts that no timeout separates, and a
burst is cut into batches (`flushes_eq`).  `held_iff`: no event is held for more than the interval
exactly when each batch that fills up does so within the interval, and each batch that is left to
the timeout came at one instant.
-/

namespace Verdix.FlushTimes

open Chunks

variable {batchSize : ℕ} {interval armed start : ℚ} {batch arrivals : List Arrival}

/-! ### Bursts and batches -/

/-- No timeout comes between the two events. -/
def joined (interval : ℚ) (a b : Arrival) : Bool := !b.late interval a.time

/-- The time of the last event. -/
def lastTime (batch : List Arrival) : ℚ := (batch.getLast?.map Arrival.time).getD 0

@[simp]
theorem lastTime_concat (batch : List Arrival) (a : Arrival) : lastTime (batch ++ [a]) = a.time := by
  simp [lastTime]

/-- The batches of a burst, before they are written. -/
def batches (batchSize : ℕ) (burst : List Arrival) : List (List Arrival) :=
  chunks (batchSize - 1) burst

/-- A full batch is written with its last event, another one when the wait for the next times out. -/
def flushOf (batchSize : ℕ) (interval : ℚ) (batch : List Arrival) : Flush :=
  ⟨batch, if batchSize ≤ batch.length then lastTime batch else lastTime batch + interval⟩

theorem loop_cons (a : Arrival) :
    loop batchSize interval armed batch (a :: arrivals) =
      (if a.late interval armed && !batch.isEmpty then [⟨batch, armed + interval⟩] else []) ++
        if batchSize ≤ ((if a.late interval armed then [] else batch) ++ [a]).length then
          ⟨(if a.late interval armed then [] else batch) ++ [a], a.time⟩ ::
            loop batchSize interval a.time [] arrivals
        else loop batchSize interval a.time ((if a.late interval armed then [] else batch) ++ [a])
          arrivals := by
  rw [loop]
  split_ifs <;> rfl

/-- When an event joins the batch. -/
theorem loop_cons_of_joined {a : Arrival} (h : batch ≠ [] → a.late interval armed = false) :
    loop batchSize interval armed batch (a :: arrivals) =
      if batchSize ≤ (batch ++ [a]).length then
        ⟨batch ++ [a], a.time⟩ :: loop batchSize interval a.time [] arrivals
      else loop batchSize interval a.time (batch ++ [a]) arrivals := by
  rw [loop_cons]
  by_cases hbatch : batch = []
  · simp [hbatch]
  · simp [h hbatch]

/-- A burst is written batch by batch. -/
theorem loop_burst (hroom : batch.length ≤ batchSize - 1)
    (harmed : batch ≠ [] → armed = lastTime batch)
    (hburst : (batch ++ arrivals).IsChain fun a b => joined interval a b) :
    loop batchSize interval armed batch arrivals =
      (batches batchSize (batch ++ arrivals)).map (flushOf batchSize interval) := by
  induction arrivals generalizing armed batch with
  | nil =>
    rw [loop, List.append_nil, batches]
    by_cases hbatch : batch = []
    · simp [hbatch]
    · have hpos := List.length_pos_iff.mpr hbatch
      rw [chunks_of_length_le hbatch hroom, if_neg (by simpa using hbatch), List.map_singleton,
        flushOf, if_neg (by omega), harmed hbatch]
  | cons a arrivals ih =>
    -- the event comes before the timeout that was armed by the last one
    have hjoined : batch ≠ [] → a.late interval armed = false := by
      intro hbatch
      have hlast := (List.isChain_append.mp hburst).2.2 (batch.getLast hbatch)
        (List.getLast_mem_getLast? hbatch) a rfl
      have htime : lastTime batch = (batch.getLast hbatch).time := by
        rw [lastTime, List.getLast?_eq_getLast_of_ne_nil hbatch]
        rfl
      rw [harmed hbatch, htime]
      simpa [joined] using hlast
    rw [loop_cons_of_joined hjoined, List.append_cons batch a arrivals]
    rw [List.append_cons batch a arrivals] at hburst
    split
    · -- the batch is full: it is written at once, and the next one starts
      rename_i hfull
      have hlength : (batch ++ [a]).length = batchSize - 1 + 1 := by
        rw [List.length_append, List.length_singleton] at hfull ⊢
        omega
      rw [batches, chunks_append hlength, List.map_cons, flushOf, if_pos hfull, lastTime_concat]
      congr 1
      exact ih (Nat.zero_le _) (fun h => absurd rfl h) (List.isChain_append.mp hburst).2.1
    · rename_i hroom'
      refine ih (by omega) (fun _ => (lastTime_concat batch a).symm) hburst

/-- With an empty batch it does not matter since when the loop waits. -/
theorem loop_start (armed start : ℚ) :
    loop batchSize interval armed [] arrivals = loop batchSize interval start [] arrivals := by
  cases arrivals with
  | nil => rfl
  | cons a arrivals =>
    rw [loop_cons_of_joined (fun h => absurd rfl h), loop_cons_of_joined (fun h => absurd rfl h)]

/-- Between two bursts the batch is written. -/
theorem loop_break {b : Arrival} {more : List Arrival}
    (harmed : batch ≠ [] → armed = lastTime batch)
    (hlate : ∀ a ∈ (batch ++ arrivals).getLast?, joined interval a b = false) :
    loop batchSize interval armed batch (arrivals ++ b :: more) =
      loop batchSize interval armed batch arrivals ++
        loop batchSize interval start [] (b :: more) := by
  induction arrivals generalizing armed batch with
  | nil =>
    rw [List.nil_append, loop]
    by_cases hbatch : batch = []
    · rw [hbatch, loop_start armed start]
      rfl
    · -- the timeout that was armed by the last event is over
      have hb : b.late interval armed = true := by
        have hlast : batch.getLast? = some (batch.getLast hbatch) :=
          List.getLast?_eq_getLast_of_ne_nil hbatch
        have hjoined := hlate (batch.getLast hbatch) (by rw [List.append_nil, hlast]; rfl)
        rw [harmed hbatch, lastTime, hlast]
        simpa [joined] using hjoined
      have hnil : ([] : List Arrival) ≠ [] → b.late interval start = false := fun h => absurd rfl h
      rw [loop_cons, loop_cons_of_joined hnil]
      simp [hb, hbatch]
  | cons a arrivals ih =>
    have hlast : ∀ x ∈ (a :: arrivals).getLast?, joined interval x b = false := by
      intro x hx
      exact hlate x (by rwa [List.getLast?_append_cons])
    rw [List.cons_append, loop_cons, loop_cons, List.append_assoc]
    congr 1
    generalize (if a.late interval armed then [] else batch) = kept
    split
    · rw [List.cons_append]
      congr 1
      refine ih (fun h => absurd rfl h) fun x hx => hlast x ?_
      rw [List.nil_append] at hx
      cases arrivals with
      | nil => cases hx
      | cons c arrivals => rwa [List.getLast?_cons_cons]
    · refine ih (fun _ => (lastTime_concat _ a).symm) fun x hx => hlast x ?_
      rwa [List.append_assoc, List.singleton_append, List.getLast?_append_cons] at hx

/-! ### How long an event is held -/

/-- The batches are those of the bursts. -/
theorem flushes_eq (hinterval : 0 < interval) :
    flushes batchSize interval start arrivals =
      (arrivals.splitBy (joined interval)).flatMap fun burst =>
        (batches batchSize burst).map (flushOf batchSize interval) := by
  rw [flushes, if_pos hinterval]
  refine flatMap_splitBy (f := loop batchSize interval start []) rfl (fun c _ hc => ?_)
    (fun c b l hlate => ?_) arrivals
  · exact loop_burst (Nat.zero_le _) (fun h => absurd rfl h) hc
  · exact loop_break (fun h => absurd rfl h) hlate

/-- Every event is written in one batch, in order. -/
theorem flushes_flatMap_batch (hinterval : 0 < interval) :
    (flushes batchSize interval start arrivals).flatMap Flush.batch = arrivals := by
  rw [flushes_eq hinterval, List.flatMap_assoc]
  have hburst : ∀ burst, ((batches batchSize burst).map (flushOf batchSize interval)).flatMap
      Flush.batch = burst := by
    intro burst
    rw [List.flatMap_map]
    show (batches batchSize burst).flatMap id = burst
    rw [List.flatMap_id, batches, flatten_chunks]
  simp only [hburst]
  rw [List.flatMap_id', List.flatten_splitBy]

/-- No event of the batch was held longer than the interval. -/
def Flush.Prompt (interval : ℚ) (f : Flush) : Prop := ∀ a ∈ f.batch, f.time ≤ a.time + interval

/-- A batch that fills up does so within the interval from each of its events, and the events of
another one came at one instant. -/
def Quick (batchSize : ℕ) (interval : ℚ) (batch : List Arrival) : Prop :=
  if batchSize ≤ batch.length then ∀ a ∈ batch, lastTime batch ≤ a.time + interval
  else ∀ a ∈ batch, lastTime batch ≤ a.time

theorem prompt_flushOf {batch : List Arrival} :
    (flushOf batchSize interval batch).Prompt interval ↔ Quick batchSize interval batch := by
  unfold Flush.Prompt flushOf Quick
  split
  · exact Iff.rfl
  · simp only [add_le_add_iff_right]

/-- No event is held longer than the interval exactly if none is taken, or each batch of each burst
fills up within the interval or came at one instant. -/
theorem held_iff (batchSize : ℕ) (interval start : ℚ) (arrivals : List Arrival) :
    (∀ f ∈ flushes batchSize interval start arrivals, f.Prompt interval) ↔
      interval ≤ 0 ∨ ∀ burst ∈ arrivals.splitBy (joined interval),
        ∀ batch ∈ batches batchSize burst, Quick batchSize interval batch := by
  by_cases hinterval : 0 < interval
  · rw [or_iff_right hinterval.not_ge, flushes_eq hinterval]
    simp only [List.forall_mem_flatMap, List.forall_mem_map, prompt_flushOf]
  · rw [flushes, if_neg hinterval]
    exact iff_of_true (fun f hf => nomatch hf) (.inl (not_lt.mp hinterval))

/-- Two events, 400 ms apart. -/
def twoEvents : List Arrival := [⟨0, false⟩, ⟨400, false⟩]

/-- The first one is held for 900 ms. -/
theorem twoEvents_held : flushes 100 500 0 twoEvents = [⟨twoEvents, 900⟩] ∧
    ¬∀ f ∈ flushes 100 500 0 twoEvents, f.Prompt 500 := by
  have hflushes : flushes 100 500 0 twoEvents = [⟨twoEvents, 900⟩] := by decide +kernel
  refine ⟨hflushes, fun h => ?_⟩
  have hprompt := h ⟨twoEvents, 900⟩ (by rw [hflushes]; exact List.mem_cons_self) ⟨0, false⟩
    List.mem_cons_self
  exact absurd hprompt (by norm_num)

end Verdix.FlushTimes

import Verdix.Ingestion.Equiv.Skips
import Verdix.Ingestion.Pipeline
import Verdix.Web.Health

/-!
# A pipeline that has died

The status is written where a poll succeeds or fails, and not where an exception ends the tailer.
`dead_red`: a pipeline that has terminated is reported as red if its tailer has found the file at
the start, and every poll that reads a line it cannot handle has found the status red already.
-/

open TransitionSystem

namespace Verdix

/-! ### Polls that raise -/

namespace EveTailer

variable {maxDepth : ℕ} {t : EveTailer} {now : Datetime}

/-- The lines a poll reads. -/
def linesRead (t : EveTailer) (stat : Stat) (read : Read) : List String :=
  match stat with
  | .found size inode =>
    let rotated : Bool := (inode ≠ 0 ∧ inode ≠ t.inode) ∨ size < t.position
    let rawLines := TextFile.readLines (read.contents.drop (if rotated then 0 else t.position))
    match read.failure with
    | none => rawLines
    | some (n, _) => rawLines.take n
  | _ => []

/-- A read raises at a line it cannot handle, and leaves the status as it is. -/
theorem readNewLines_raises {read : Read} {e : PyError}
    (h : (t.readNewLines maxDepth now read).2 = some e) :
    (t.readNewLines maxDepth now read).1.status = t.status ∧
      ∃ rawLine ∈ (match read.failure with
        | none => TextFile.readLines (read.contents.drop t.position)
        | some (n, _) => (TextFile.readLines (read.contents.drop t.position)).take n),
        ¬ Readable maxDepth rawLine := by
  unfold readNewLines at h ⊢
  -- a read that fails has handed out the lines before the failure
  cases hfailure : read.failure with
  | none =>
    rw [hfailure] at h
    dsimp only at h ⊢
    cases hraised : (handleLines maxDepth
        (TextFile.readLines (read.contents.drop t.position))).2 with
    | none =>
      rw [hraised] at h
      contradiction
    | some e' =>
      exact ⟨rfl, exists_not_readable (by rw [hraised]; simp)⟩
  | some f =>
    obtain ⟨n, error⟩ := f
    rw [hfailure] at h
    dsimp only at h ⊢
    cases hraised : (handleLines maxDepth
        ((TextFile.readLines (read.contents.drop t.position)).take n)).2 with
    | none =>
      rw [hraised] at h
      contradiction
    | some e' =>
      exact ⟨rfl, exists_not_readable (by rw [hraised]; simp)⟩

theorem poll_raises {stat : Stat} {read : Read} {e : PyError}
    (h : (t.poll maxDepth now stat read).2 = some e) :
    (t.poll maxDepth now stat read).1.status = t.status ∧
      ∃ rawLine ∈ linesRead t stat read, ¬ Readable maxDepth rawLine := by
  cases stat with
  | fileNotFound => contradiction
  | osError error => contradiction
  | found size inode =>
    have hrotated : (decide (inode ≠ 0 ∧ inode ≠ t.inode) || decide (size < t.position)) =
        decide ((inode ≠ 0 ∧ inode ≠ t.inode) ∨ size < t.position) := (Bool.decide_or _ _).symm
    unfold poll at h ⊢
    unfold linesRead
    dsimp only at h ⊢
    rw [hrotated] at h ⊢
    split_ifs at h ⊢
    · exact readNewLines_raises h
    · exact readNewLines_raises h

end EveTailer

/-! ### Runs -/

namespace EvePipeline

variable {maxDepth batchSize cap : ℕ} {sur : PyStr.Surrogates} {resetHour : Fin 24} {now : Datetime}
  {eveEvents : EveEvents} {db : Db} {s s' : EvePipeline} {tr : List (Move EvePipeline Act)}

/-- A component has raised. -/
def Phase.failed : Phase → Bool
  | .stopping _ | .terminated _ => true
  | .running | .cancelled => false

/-- The tailer finds the file when it starts, and the status is red before a poll reads a line it
cannot handle. -/
def Safe (maxDepth : ℕ) (m : Move EvePipeline Act) : Prop :=
  match m.act with
  | .start (.error _) => False
  | .poll stat read =>
    m.pre.status.state = .red ∨
      ∀ rawLine ∈ m.pre.tailer.linesRead stat read, EveTailer.Readable maxDepth rawLine
  | _ => True

/-- The other components leave the tailer alone and do not make the pipeline fail. -/
theorem frame_indexer {a : Indexer.Act} (h : indexerStep maxDepth sur batchSize s a = some s') :
    s'.tailer = s.tailer ∧ s'.phase = s.phase := by
  obtain ⟨⟨_, _⟩, -, rfl⟩ := Option.map_eq_some_iff.mp h
  exact ⟨rfl, rfl⟩

theorem frame_dispatcher {a : Dispatcher.Act} (h : dispatcherStep cap resetHour s a = some s') :
    s'.tailer = s.tailer ∧ s'.phase = s.phase := by
  obtain ⟨⟨_, _⟩, -, rfl⟩ := Option.map_eq_some_iff.mp h
  exact ⟨rfl, rfl⟩

/-- A step that does not read the file leaves the status as it is, and a pipeline that has not
failed does not fail in it. -/
theorem frame_step {a : Act} (h : step maxDepth sur batchSize cap resetHour s a = some s')
    (hstart : ∀ file, a ≠ .start file) (hpoll : ∀ stat read, a ≠ .poll stat read) :
    s'.tailer = s.tailer ∧ (s'.phase.failed = true → s.phase.failed = true) := by
  -- most steps leave the tailer and the phase as they are
  have hsame : s'.tailer = s.tailer ∧ s'.phase = s.phase →
      s'.tailer = s.tailer ∧ (s'.phase.failed = true → s.phase.failed = true) :=
    fun ⟨ht, hp⟩ => ⟨ht, fun hf => hp ▸ hf⟩
  cases a with
  | start file => exact absurd rfl (hstart file)
  | poll stat read => exact absurd rfl (hpoll stat read)
  | tick t =>
    simp only [step] at h
    split_ifs at h
    obtain rfl := Option.some.inj h
    exact ⟨rfl, id⟩
  | broadcast =>
    simp only [step] at h
    split_ifs at h
    obtain ⟨event, -, rfl⟩ := Option.map_eq_some_iff.mp h
    exact ⟨rfl, id⟩
  | index | indexTimeout | cancelIndexer | cancelFlush ids committed =>
    simp only [step] at h
    split_ifs at h
    exact hsame (frame_indexer h)
  | flush ids fault => exact hsame (frame_indexer h)
  | dispatch =>
    simp only [step] at h
    split_ifs at h
    split at h
    · obtain ⟨htailer, hphase⟩ := frame_dispatcher h
      exact hsame ⟨htailer, hphase⟩
    · contradiction
  | handle a =>
    simp only [step] at h
    split at h
    · contradiction
    · contradiction
    · split_ifs at h
      exact hsame (frame_dispatcher h)
  | cancelDispatcher =>
    simp only [step] at h
    split_ifs at h
    exact hsame (frame_dispatcher h)
  | terminate =>
    simp only [step] at h
    split at h
    · rename_i hphase _ _
      obtain rfl := Option.some.inj h
      -- the pipeline comes to its end having failed already
      exact ⟨rfl, fun _ => by rw [hphase]; rfl⟩
    · contradiction
  | shutdown =>
    simp only [step] at h
    split at h
    · contradiction
    · obtain rfl := Option.some.inj h
      exact ⟨rfl, fun hf => absurd hf Bool.false_ne_true⟩

theorem red_of_step {a : Act} (hred : s.phase.failed = true → s.status.state = .red)
    (h : step maxDepth sur batchSize cap resetHour s a = some s')
    (hsafe : Safe maxDepth ⟨s, a, s'⟩) :
    s'.phase.failed = true → s'.status.state = .red := by
  intro hfailed
  cases a with
  | start file =>
    cases file with
    | error e => exact absurd hsafe id
    | ok file =>
      obtain ⟨contents, inode⟩ := file
      simp only [step] at h
      split_ifs at h with hrunning
      obtain rfl := Option.some.inj h
      rw [show s.phase = .running from hrunning.1] at hfailed
      contradiction
  | poll stat read =>
    -- the only step in which a running pipeline fails
    simp only [step] at h
    split_ifs at h with hrunning
    obtain rfl := Option.some.inj h
    cases hraised : (s.tailer.poll maxDepth s.now stat read).2 with
    | none =>
      rw [hraised] at hfailed
      contradiction
    | some e =>
      obtain ⟨hstatus, rawLine, hmem, hunreadable⟩ := EveTailer.poll_raises hraised
      show (s.tailer.poll maxDepth s.now stat read).1.status.state = .red
      rw [hstatus]
      -- the poll has come to a line it cannot handle, so the status was red
      rcases hsafe with hbefore | hall
      · exact hbefore
      · exact absurd (hall rawLine hmem) hunreadable
  | _ =>
    obtain ⟨htailer, hphase⟩ := frame_step h (by simp) (by simp)
    have := hred (hphase hfailed)
    rwa [status, htailer]

/-- A pipeline that has terminated is red, and reported as red. -/
theorem dead_red
    (h : Run (step maxDepth sur batchSize cap resetHour) (init now eveEvents db) tr s)
    (hsafe : ∀ m ∈ tr, Safe maxDepth m) {e : PyError} (hdead : s.phase = .terminated e) :
    s.status.state = .red ∧ Web.ReportsRed s.status := by
  have hinv : s.phase.failed = true → s.status.state = .red := by
    refine h.invariant_of_moves (I := fun s => s.phase.failed = true → s.status.state = .red) ?_ ?_
      hsafe
    · intro hfailed
      contradiction
    · intro s a s' _ hred hstep hm
      exact red_of_step hred hstep hm
  have hred := hinv (by rw [hdead]; rfl)
  exact ⟨hred, Web.reportsRed_iff.mpr hred⟩

/-- Five failures in a row, and then a line with a number. -/
def sampleActs : List Act :=
  .start (.ok ([], 1)) :: List.replicate 5 (.poll (.osError "error") ⟨[], none⟩) ++
    [.poll (.found 2 1) ⟨[0x31, 0x0A], none⟩, .cancelIndexer, .cancelDispatcher, .terminate]

/-- A test for `Safe`: no poll sees the file while the status is green. -/
def redBeforeRead (m : Move EvePipeline Act) : Bool :=
  match m.act with
  | .start (.error _) => false
  | .poll (.found _ _) _ => m.pre.status.state = .red
  | _ => true

theorem safe_of_redBeforeRead {m : Move EvePipeline Act} (h : redBeforeRead m = true) :
    Safe maxDepth m := by
  unfold redBeforeRead at h
  unfold Safe
  split
  · rename_i hact
    rw [hact] at h
    contradiction
  · rename_i stat read hact
    rw [hact] at h
    cases stat with
    | found size inode => exact .inl (of_decide_eq_true h)
    | fileNotFound => exact .inr fun rawLine hmem => absurd hmem List.not_mem_nil
    | osError error => exact .inr fun rawLine hmem => absurd hmem List.not_mem_nil
  · trivial

theorem dead_red_failures :
    let r := runFrom (step 9 .replacement 100 300 0) (init ⟨0, by decide⟩ .empty .empty) sampleActs
    r.2.status.state = .red ∧ Web.ReportsRed r.2.status := by
  have hdead : (runFrom (step 9 .replacement 100 300 0) (init ⟨0, by decide⟩ .empty .empty)
      sampleActs).2.phase = .terminated .attributeError := by decide +kernel
  have hall : ((runFrom (step 9 .replacement 100 300 0) (init ⟨0, by decide⟩ .empty .empty)
      sampleActs).1.all redBeforeRead) = true := by decide +kernel
  have hsafe : ∀ m ∈ (runFrom (step 9 .replacement 100 300 0) (init ⟨0, by decide⟩ .empty .empty)
      sampleActs).1, Safe 9 m := fun m hm =>
    safe_of_redBeforeRead (List.all_eq_true.mp hall m hm)
  exact dead_red (run_runFrom _ _) hsafe hdead

/-- Without a failure before it, the line with a number leaves a dead pipeline green. -/
theorem dead_green :
    let r := runFrom (step 9 .replacement 100 300 0) (init ⟨0, by decide⟩ .empty .empty)
      [.start (.ok ([], 1)), .poll (.found 2 1) ⟨[0x31, 0x0A], none⟩, .cancelIndexer,
        .cancelDispatcher, .terminate]
    Run (step 9 .replacement 100 300 0) (init ⟨0, by decide⟩ .empty .empty) r.1 r.2 ∧
      r.2.phase = .terminated .attributeError ∧ r.2.status.state = .green ∧
      (Web.liveness r.2.status).statusCode = 200 :=
  ⟨run_runFrom _ _, by decide +kernel, by decide +kernel, by decide +kernel⟩

end EvePipeline

end Verdix

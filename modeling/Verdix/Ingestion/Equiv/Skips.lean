import Verdix.Ingestion.Equiv.Tailer

/-!
# The lines the tailer skips

A poll skips a line that is no JSON text, and takes the event of one that is an object.  Nothing is
caught for the others: a JSON text that is no object has no `get`, and `json.loads` can give up
with an exception of another kind.  `skipsExactly_iff`: a poll takes the events of all objects and
skips the rest exactly when no such line is there.
-/

namespace Verdix.EveTailer

variable {maxDepth : ℕ}

/-! ### One line -/

/-- The event of a line that is a JSON object. -/
def objectEvent (maxDepth : ℕ) (rawLine : String) : Option EveEvent :=
  match Json.loads maxDepth (PyStr.rstrip '\n' rawLine) with
  | .ok (.obj members) => some (EveEvent.ofMembers members)
  | _ => none

/-- A line is a JSON object, or no JSON text. -/
def Readable (maxDepth : ℕ) (rawLine : String) : Prop :=
  Json.loads maxDepth (PyStr.rstrip '\n' rawLine) = .error .jsonDecodeError ∨
    ∃ members, Json.loads maxDepth (PyStr.rstrip '\n' rawLine) = .ok (.obj members)

/-- The empty text is no JSON text. -/
theorem loads_empty : Json.loads maxDepth "" = .error .jsonDecodeError := by
  have hblank : Json.Blank [] := fun c hc => absurd hc List.not_mem_nil
  exact Json.loads_blank hblank maxDepth

theorem handleLine_of_readable {rawLine : String} (h : Readable maxDepth rawLine) :
    handleLine maxDepth rawLine = .ok (objectEvent maxDepth rawLine) := by
  unfold handleLine objectEvent
  dsimp only
  split_ifs with hempty
  · rw [hempty, loads_empty]
  · rcases h with h | ⟨members, h⟩
    · rw [h]
    · rw [h]
      rfl

theorem not_readable_iff {rawLine : String} :
    ¬ Readable maxDepth rawLine ↔ ∃ e, handleLine maxDepth rawLine = .error e := by
  constructor
  · intro h
    have hempty : PyStr.rstrip '\n' rawLine ≠ "" := by
      intro hempty
      apply h
      rw [Readable, hempty, loads_empty]
      exact .inl rfl
    unfold Readable at h
    unfold handleLine
    dsimp only
    rw [if_neg hempty]
    generalize Json.loads maxDepth (PyStr.rstrip '\n' rawLine) = r at h
    -- an exception of another kind is not caught, and neither is the one of `data.get`
    match r with
    | .error e =>
      have he : e ≠ .jsonDecodeError := fun he => h (.inl (by rw [he]))
      exact ⟨e, by cases e <;> first | rfl | contradiction⟩
    | .ok (.obj members) => exact absurd (.inr ⟨members, rfl⟩) h
    | .ok .null => exact ⟨_, rfl⟩
    | .ok (.bool _) => exact ⟨_, rfl⟩
    | .ok (.int _) => exact ⟨_, rfl⟩
    | .ok (.float _) => exact ⟨_, rfl⟩
    | .ok (.str _) => exact ⟨_, rfl⟩
    | .ok (.arr _) => exact ⟨_, rfl⟩
  · rintro ⟨e, he⟩ h
    rw [handleLine_of_readable h] at he
    contradiction

/-! ### The lines of a poll -/

theorem handleLines_of_readable {rawLines : List String}
    (h : ∀ rawLine ∈ rawLines, Readable maxDepth rawLine) :
    handleLines maxDepth rawLines = (rawLines.filterMap (objectEvent maxDepth), none) := by
  induction rawLines with
  | nil => rfl
  | cons rawLine rawLines ih =>
    obtain ⟨hhead, htail⟩ := List.forall_mem_cons.mp h
    rw [handleLines, handleLine_of_readable hhead]
    show ((objectEvent maxDepth rawLine).toList ++ (handleLines maxDepth rawLines).1,
      (handleLines maxDepth rawLines).2) = _
    rw [ih htail, List.filterMap_cons]
    cases objectEvent maxDepth rawLine with
    | none => rfl
    | some event => rfl

theorem readable_of_handleLines {rawLines : List String}
    (h : (handleLines maxDepth rawLines).2 = none) :
    ∀ rawLine ∈ rawLines, Readable maxDepth rawLine := by
  induction rawLines with
  | nil => exact fun _ hmem => absurd hmem List.not_mem_nil
  | cons rawLine rawLines ih =>
    rw [handleLines] at h
    split at h
    · contradiction
    · rename_i event hevent
      have hhead : Readable maxDepth rawLine := by
        by_contra hnot
        obtain ⟨e, he⟩ := not_readable_iff.mp hnot
        rw [he] at hevent
        contradiction
      exact List.forall_mem_cons.mpr ⟨hhead, ih h⟩

theorem exists_not_readable {rawLines : List String} (h : (handleLines maxDepth rawLines).2 ≠ none) :
    ∃ rawLine ∈ rawLines, ¬ Readable maxDepth rawLine := by
  by_contra hall
  push Not at hall
  rw [handleLines_of_readable hall] at h
  exact h rfl

/-! ### A poll -/

/-- The tailer has read `before`, then `appended` is there: the poll returns, and has put the events
of the lines that are objects on the queue. -/
def SkipsExactly (maxDepth : ℕ) (t : EveTailer) (now : Datetime) (before appended : List UInt8) :
    Prop :=
  let r := { t with position := before.length }.poll maxDepth now
    (.found (before ++ appended).length t.inode) ⟨before ++ appended, none⟩
  r.2 = none ∧
    r.1.queue = t.queue ++ (TextFile.readLines appended).filterMap (objectEvent maxDepth)

/-- A poll that starts where the file ended before. -/
theorem poll_appended (t : EveTailer) (now : Datetime) (before appended : List UInt8) :
    let t' := { t with position := before.length }
    t'.poll maxDepth now (.found (before ++ appended).length t.inode) ⟨before ++ appended, none⟩ =
      t'.readNewLines maxDepth now ⟨before ++ appended, none⟩ := by
  have hsize : ¬ (before ++ appended).length < before.length := by
    rw [List.length_append]
    omega
  simp [poll]

/-- A poll skips exactly the lines that are no objects iff each of these is no JSON text. -/
theorem skipsExactly_iff (t : EveTailer) (now : Datetime) (before appended : List UInt8) :
    SkipsExactly maxDepth t now before appended ↔
      ∀ rawLine ∈ TextFile.readLines appended, Readable maxDepth rawLine := by
  unfold SkipsExactly
  rw [poll_appended, readNewLines]
  dsimp only
  rw [List.drop_left]
  constructor
  · -- a poll that returns has handled every line
    rintro ⟨hraised, -⟩
    apply readable_of_handleLines
    by_contra hne
    obtain ⟨e, he⟩ := Option.ne_none_iff_exists'.mp hne
    rw [he] at hraised
    contradiction
  · intro h
    rw [handleLines_of_readable h]
    exact ⟨rfl, rfl⟩

/-- A line with a number ends the task before the object on the next line. -/
theorem number_stops :
    ¬ SkipsExactly 9 (start [] 1 .init) ⟨0, by decide⟩ []
      ([0x31, 0x0A] ++ [0x7B, 0x22, 0x61, 0x22, 0x3A, 0x31, 0x7D, 0x0A]) := by
  rintro ⟨hraised, -⟩
  revert hraised
  decide +kernel

end Verdix.EveTailer

import Verdix.Web.License

/-!
# Whether the accepted state ever reverts

`neverReverts_iff`: after the acceptance every `check_license_accepted` returns `True` iff no call
resumes, once the flag is set, from a read that failed or saw another value than `"true"`.  Nothing
rules that out: the flag is written after the `await`, by a call that may have started before the
acceptance (`stale_read_reverts`).
-/

open TransitionSystem

namespace Verdix.License

variable {eulaAccepted : Option String} {s s' : License} {a : Act} {tr : List (Move License Act)}

/-- The read from which a call resumes in this step. -/
def resumed (m : Move License Act) : Option Read :=
  match m.act with
  | .resume i =>
    match m.pre.checks[i]? with
    | some (.resuming read) => some read
    | _ => none
  | _ => none

/-- `mark_license_accepted` runs in this step. -/
def marks (m : Move License Act) : Bool :=
  match m.act with
  | .proceed j => m.pre.handlers[j]? = some .identifying
  | _ => false

/-- What `check_license_accepted` returns in this step. -/
def returned (m : Move License Act) : Option Bool :=
  match m.act with
  | .check => m.pre.licenseAccepted
  | _ => (resumed m).map Read.accepted

/-- `mark_license_accepted` has run, or a call has read `"true"`. -/
def Accepted (tr : List (Move License Act)) : Prop :=
  ∃ m ∈ tr, marks m = true ∨ resumed m = some (.value (some "true"))

/-- From the acceptance on, every call returns `True` and the flag stays set. -/
def NeverReverts (tr : List (Move License Act)) : Prop :=
  Throughout (fun before m => Accepted before →
    (∀ accepted ∈ returned m, accepted = true) ∧ m.post.licenseAccepted = some true) tr

/-- If the flag is set, the call that resumes has read `"true"`. -/
def Fresh (m : Move License Act) : Prop :=
  m.pre.licenseAccepted = some true → ∀ read ∈ resumed m, read = .value (some "true")

instance (m : Move License Act) : Decidable (Fresh m) :=
  inferInstanceAs (Decidable (m.pre.licenseAccepted = some true →
    ∀ read ∈ resumed m, read = .value (some "true")))

/-! ### One step -/

theorem accepted_iff {read : Read} : read.accepted = true ↔ read = .value (some "true") := by
  cases read with
  | value val => simp [Read.accepted]
  | raised => simp [Read.accepted]

/-- What a step does to the flag. -/
theorem step_flag (h : step s a = some s') :
    (resumed ⟨s, a, s'⟩ = none ∧ marks ⟨s, a, s'⟩ = false ∧
        s'.licenseAccepted = s.licenseAccepted) ∨
      (resumed ⟨s, a, s'⟩ = none ∧ marks ⟨s, a, s'⟩ = true ∧ s'.licenseAccepted = some true) ∨
      ∃ read, resumed ⟨s, a, s'⟩ = some read ∧ marks ⟨s, a, s'⟩ = false ∧
        s'.licenseAccepted = some read.accepted := by
  cases a with
  | check =>
    left
    refine ⟨rfl, rfl, ?_⟩
    simp only [step] at h
    split at h
    all_goals
      obtain rfl := Option.some.inj h
      rfl
  | fetch i =>
    left
    refine ⟨rfl, rfl, ?_⟩
    simp only [step] at h
    split at h
    · obtain rfl := Option.some.inj h
      rfl
    · contradiction
  | fail i =>
    left
    refine ⟨rfl, rfl, ?_⟩
    simp only [step] at h
    split at h
    · obtain rfl := Option.some.inj h
      rfl
    · contradiction
  | resume i =>
    right; right
    simp only [step] at h
    split at h
    · rename_i read hget
      obtain rfl := Option.some.inj h
      -- the read that was under way sets the flag to what it found
      refine ⟨read, ?_, rfl, rfl⟩
      simp only [resumed, hget]
    · contradiction
  | post accepted =>
    left
    obtain rfl := Option.some.inj h
    exact ⟨rfl, rfl, rfl⟩
  | proceed j =>
    obtain ⟨handler, hget, hproceed⟩ := Option.bind_eq_some_iff.mp h
    cases handler with
    | accepting =>
      obtain rfl := Option.some.inj hproceed
      exact .inl ⟨rfl, by simp [marks, hget], rfl⟩
    | stamping =>
      obtain rfl := Option.some.inj hproceed
      exact .inl ⟨rfl, by simp [marks, hget], rfl⟩
    | identifying =>
      obtain rfl := Option.some.inj hproceed
      -- `mark_license_accepted` is called after the last write
      exact .inr (.inl ⟨rfl, by simp [marks, hget], rfl⟩)
    | done statusCode => contradiction
  | raise j =>
    left
    refine ⟨rfl, rfl, ?_⟩
    simp only [step] at h
    split at h
    · contradiction
    · contradiction
    · obtain rfl := Option.some.inj h
      rfl

/-- A fresh step leaves the flag set, and what it returns is `True`. -/
theorem Fresh.stays (hfresh : Fresh ⟨s, a, s'⟩) (h : step s a = some s')
    (hflag : s.licenseAccepted = some true) :
    (∀ accepted ∈ returned ⟨s, a, s'⟩, accepted = true) ∧ s'.licenseAccepted = some true := by
  have hreturned : ∀ accepted ∈ returned ⟨s, a, s'⟩, accepted = true := by
    intro accepted hacc
    by_cases hcheck : a = .check
    · subst hcheck
      have hpre : s.licenseAccepted = some accepted := hacc
      rw [hflag] at hpre
      exact (Option.some.inj hpre).symm
    · have hmap : (resumed ⟨s, a, s'⟩).map Read.accepted = some accepted := by
        cases a with
        | check => exact absurd rfl hcheck
        | _ => exact hacc
      obtain ⟨read, hread, rfl⟩ := Option.map_eq_some_iff.mp hmap
      exact accepted_iff.mpr (hfresh hflag read hread)
  refine ⟨hreturned, ?_⟩
  rcases step_flag h with ⟨-, -, heq⟩ | ⟨-, -, heq⟩ | ⟨read, hread, -, heq⟩
  · rw [heq, hflag]
  · exact heq
  · rw [heq, accepted_iff.mpr (hfresh hflag read hread)]

/-! ### A run -/

/-- In a run of fresh steps the flag is set from the acceptance on. -/
theorem flag_of_accepted (h : Run step (init eulaAccepted) tr s) (hfresh : ∀ m ∈ tr, Fresh m)
    (hacc : Accepted tr) : s.licenseAccepted = some true := by
  refine h.history_of_moves (P := fun tr s => Accepted tr → s.licenseAccepted = some true)
    ?_ ?_ hfresh hacc
  · rintro ⟨m, hm, -⟩
    contradiction
  · intro tr s a s' _ hflag hstep hfresh hacc
    rcases exists_mem_snoc.mp hacc with hbefore | hnow
    · exact (hfresh.stays hstep (hflag hbefore)).2
    · rcases step_flag hstep with ⟨hnone, hmark, -⟩ | ⟨-, -, heq⟩ | ⟨read, hread, hmark, heq⟩
      · rw [hnone, hmark] at hnow
        simp at hnow
      · exact heq
      · rw [hread, hmark] at hnow
        have hval : read = .value (some "true") := by simpa using hnow
        rw [heq, hval]
        rfl

/-- The flag is set by an acceptance only. -/
theorem accepted_of_flag (h : Run step (init eulaAccepted) tr s)
    (hflag : s.licenseAccepted = some true) : Accepted tr := by
  refine h.history (P := fun tr s => s.licenseAccepted = some true → Accepted tr) ?_ ?_ hflag
  · intro hflag
    contradiction
  · intro tr s a s' _ hacc hstep hflag
    rcases step_flag hstep with ⟨-, -, heq⟩ | ⟨-, hmark, -⟩ | ⟨read, hread, -, heq⟩
    · rw [heq] at hflag
      exact exists_mem_snoc.mpr (.inl (hacc hflag))
    · exact exists_mem_snoc.mpr (.inr (.inl hmark))
    · rw [heq] at hflag
      have hval := accepted_iff.mp (Option.some.inj hflag)
      exact exists_mem_snoc.mpr (.inr (.inr (hread.trans (congrArg some hval))))

theorem fresh_of_neverReverts (h : Run step (init eulaAccepted) tr s) (hnever : NeverReverts tr) :
    ∀ m ∈ tr, Fresh m := by
  intro m hm hflag read hread
  obtain ⟨before, after, rfl⟩ := List.append_of_mem hm
  have hacc : Accepted before := accepted_of_flag h.split.1 hflag
  obtain ⟨hreturned, -⟩ := hnever before m after rfl hacc
  apply accepted_iff.mp
  apply hreturned
  -- a step in which a call resumes returns what it read
  have hact : m.act ≠ .check := by
    intro hcheck
    unfold resumed at hread
    rw [hcheck] at hread
    contradiction
  have hmap : returned m = (resumed m).map Read.accepted := by
    unfold returned
    split
    · contradiction
    · rfl
  rw [hmap, hread]
  rfl

theorem neverReverts_of_fresh (h : Run step (init eulaAccepted) tr s)
    (hfresh : ∀ m ∈ tr, Fresh m) : NeverReverts tr := by
  rintro before m after rfl hacc
  have hflag : m.pre.licenseAccepted = some true :=
    flag_of_accepted h.split.1 (fun m' hm' => hfresh m' (List.mem_append_left _ hm')) hacc
  exact (hfresh m (by simp)).stays h.split.2 hflag

/-- The accepted state never reverts in a run iff no call resumes from a failed or stale read once the
flag is set. -/
theorem neverReverts_iff (h : Run step (init eulaAccepted) tr s) :
    NeverReverts tr ↔ ∀ m ∈ tr, Fresh m :=
  ⟨fresh_of_neverReverts h, neverReverts_of_fresh h⟩

/-- The handler of `POST /setup/license` from its start to `mark_license_accepted`. -/
def acceptance : List Act := [.post "true", .proceed 0, .proceed 0, .proceed 0]

/-- A request that starts and ends before the acceptance leaves no stale read. -/
theorem neverReverts_sample :
    let r := runFrom step (init none) ([.check, .fetch 0, .resume 0] ++ acceptance ++ [.check])
    r.2.checks = [.returned false, .returned true] ∧ NeverReverts r.1 :=
  ⟨by decide +kernel, (neverReverts_iff (run_runFrom _ _)).mpr (by decide +kernel)⟩

/-- A request that read the store before the acceptance, and resumes after it, reverts it. -/
theorem stale_read_reverts :
    let r := runFrom step (init none) ([.check, .fetch 0] ++ acceptance ++ [.resume 0, .check])
    Run step (init none) r.1 r.2 ∧ r.2.eulaAccepted = some "true" ∧
      r.2.checks = [.returned false, .returned false] ∧ ¬ NeverReverts r.1 := by
  intro r
  have hrun : Run step (init none) r.1 r.2 := run_runFrom _ _
  refine ⟨hrun, by decide +kernel, by decide +kernel, fun hnever => ?_⟩
  have hfresh := fresh_of_neverReverts hrun hnever
  revert hfresh
  decide +kernel

end Verdix.License

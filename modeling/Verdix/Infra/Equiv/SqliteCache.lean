import Verdix.Infra.Cache
import Verdix.Infra.SqliteCache
import Verdix.Lib.Json

/-!
# Whether the cache gives back what was stored

`keepsStored_iff`: a value that a `set` has stored is what every later `get` returns until it expires
or is written over, and no `get` removes it before, iff every `get` that deletes the row of its key
meets there an expired row or none.  The `DELETE` does not look at the row, so a value that was stored
after the `SELECT` goes with the one that had expired (`stored_value_removed`).
-/

open TransitionSystem

namespace Verdix.SQLiteCache

variable {V : Type} {codec : JsonCodec V} {s s' : SQLiteCache V} {a : Act V}
  {tr : List (Move (SQLiteCache V) (Act V))} {m : Move (SQLiteCache V) (Act V)}
  {entries : String → Option CacheRow} {i : ℕ} {key : String} {now : ℚ} {row : Option CacheRow}

/-- What this step writes under a key: the value of a `set` with its expiry, nothing for `delete`. -/
def written (m : Move (SQLiteCache V) (Act V)) : Option (String × Option (V × ℚ)) :=
  match m.act with
  | .set key value ttlSeconds now => some (key, some (value, now + ttlSeconds))
  | .delete key _ => some (key, none)
  | _ => none

/-- In this step a `get` deletes the row of its key, which it has found expired. -/
def evicts (m : Move (SQLiteCache V) (Act V)) : Option (ℕ × String) :=
  match m.act with
  | .resume i _ =>
    match m.pre.calls[i]? with
    | some (.reading key now (some row)) => if row.expiresAt < now then some (i, key) else none
    | _ => none
  | _ => none

/-- In this step call `i`, a `get` of `key` at the time `now`, reads the row. -/
def Reads (m : Move (SQLiteCache V) (Act V)) (i : ℕ) (key : String) (now : ℚ) : Prop :=
  m.act = .get key now ∧ m.pre.calls.length = i

/-- A `get` that starts when the last write of its key was a `set`, and not after the expiry, returns
the value. -/
def ReturnsStored (tr : List (Move (SQLiteCache V) (Act V))) : Prop :=
  ∀ before m between m' after, tr = before ++ m :: (between ++ m' :: after) →
    ∀ i key now t, Reads m i key now → m'.act = .resume i t →
      ∀ value expiresAt, lastUnder written before key = some (some (value, expiresAt)) →
        now ≤ expiresAt → m'.post.calls[i]? = some (.returned (some value))

/-- A `get` that removes a value which was stored after it has read the row does so after the
expiry. -/
def RemovesExpired (tr : List (Move (SQLiteCache V) (Act V))) : Prop :=
  ∀ before m between m' after, tr = before ++ m :: (between ++ m' :: after) →
    ∀ i key now, Reads m i key now → evicts m' = some (i, key) →
      ∀ value expiresAt, lastUnder written between key = some (some (value, expiresAt)) →
        expiresAt < m'.act.now

/-- A `get` that deletes the row of its key meets an expired row or none. -/
def Fresh (m : Move (SQLiteCache V) (Act V)) : Prop :=
  ∀ i key, evicts m = some (i, key) → ∀ row, m.pre.entries key = some row →
    row.expiresAt < m.act.now

/-! ### One step -/

theorem step_eq_some_iff : step codec s a = some s' ↔
    s.now ≤ a.now ∧ ∃ s₁, s.next codec a = some s₁ ∧ s' = { s₁ with now := a.now } := by
  unfold step
  split
  · rename_i hnow
    rw [Option.map_eq_some_iff]
    exact ⟨fun ⟨s₁, hnext, hs'⟩ => ⟨hnow, s₁, hnext, hs'.symm⟩,
      fun ⟨_, s₁, hnext, hs'⟩ => ⟨s₁, hnext, hs'.symm⟩⟩
  · rename_i hnow
    exact ⟨fun h => (Option.some_ne_none _ h.symm).elim, fun h => absurd h.1 hnow⟩

theorem now_le_of_step (h : step codec s a = some s') : s.now ≤ s'.now := by
  obtain ⟨hnow, s₁, -, rfl⟩ := step_eq_some_iff.mp h
  exact hnow

theorem now_of_step (h : step codec s a = some s') : s'.now = a.now := by
  obtain ⟨-, s₁, -, rfl⟩ := step_eq_some_iff.mp h
  rfl

theorem now_le_of_run {s₀ : SQLiteCache V} (h : Run (step codec) s₀ tr s) : s₀.now ≤ s.now :=
  h.invariant (I := fun s => s₀.now ≤ s.now) le_rfl
    fun _ _ _ hle hstep => hle.trans (now_le_of_step hstep)

/-- The row that a `set` writes. -/
def stored (codec : JsonCodec V) (w : V × ℚ) : CacheRow := ⟨codec.dumps w.1, w.2⟩

/-- A write replaces the row of its key, and a `get` that finds an expired row removes it. -/
theorem entries_of_step (h : step codec s a = some s') (key : String) :
    s'.entries key =
      match written ⟨s, a, s'⟩ with
      | some (k, w) => if key = k then w.map (stored codec) else s.entries key
      | none =>
        match evicts ⟨s, a, s'⟩ with
        | some (_, k) => if key = k then none else s.entries key
        | none => s.entries key := by
  obtain ⟨-, s₁, hnext, rfl⟩ := step_eq_some_iff.mp h
  cases a with
  | get k t =>
    obtain rfl := Option.some.inj hnext
    rfl
  | set k value ttlSeconds t =>
    obtain rfl := Option.some.inj hnext
    exact Function.update_apply ..
  | delete k t =>
    obtain rfl := Option.some.inj hnext
    exact Function.update_apply ..
  | resume j t =>
    simp only [next] at hnext
    show s₁.entries key = _
    simp only [written, evicts]
    split at hnext
    · rename_i k t row hcall
      obtain rfl := Option.some.inj hnext
      rw [hcall]
      cases row with
      | none => rfl
      | some row =>
        -- only an expired row is deleted
        simp only [fetched]
        split
        · exact Function.update_apply ..
        · split
          · rfl
          · rfl
    · rename_i hcall
      obtain rfl := Option.some.inj hnext
      rw [hcall]
    · contradiction

/-- A call that has read its row goes on to its `DELETE` or ends. -/
theorem exists_fetched (s : SQLiteCache V) (i : ℕ) (key : String) (now : ℚ)
    (row : Option CacheRow) : ∃ c, (s.fetched codec i key now row).calls = s.calls.set i c ∧
      ∀ key now row, c ≠ .reading key now row := by
  cases row with
  | none => exact ⟨.returned none, rfl, fun _ _ _ => nofun⟩
  | some row =>
    simp only [fetched]
    split
    · exact ⟨.committing, rfl, fun _ _ _ => nofun⟩
    · split
      · rename_i value _
        exact ⟨.returned (some value), rfl, fun _ _ _ => nofun⟩
      · exact ⟨.raised, rfl, fun _ _ _ => nofun⟩

/-- A call that is resumed has not just read its row. -/
theorem calls_of_resume {t : ℚ} (h : step codec s (.resume i t) = some s') :
    ∃ c, s'.calls = s.calls.set i c ∧ ∀ key now row, c ≠ .reading key now row := by
  obtain ⟨-, s₁, hnext, rfl⟩ := step_eq_some_iff.mp h
  simp only [next] at hnext
  split at hnext
  · rename_i k t row _
    obtain rfl := Option.some.inj hnext
    exact exists_fetched s i k t row
  · obtain rfl := Option.some.inj hnext
    exact ⟨.returned none, rfl, fun _ _ _ => nofun⟩
  · contradiction

/-- A call stays where it is until it is resumed. -/
theorem calls_of_step {c : Call V} (h : step codec s a = some s') (hc : s.calls[i]? = some c)
    (ha : ∀ t, a ≠ .resume i t) : s'.calls[i]? = some c := by
  obtain ⟨-, s₁, hnext, hs'⟩ := step_eq_some_iff.mp h
  have hlt : i < s.calls.length := (List.getElem?_eq_some_iff.mp hc).1
  cases a with
  | get k t =>
    obtain rfl := Option.some.inj hnext
    rw [hs']
    rwa [List.getElem?_append_left hlt]
  | set k value ttlSeconds t =>
    obtain rfl := Option.some.inj hnext
    rw [hs']
    rwa [List.getElem?_append_left hlt]
  | delete k t =>
    obtain rfl := Option.some.inj hnext
    rw [hs']
    rwa [List.getElem?_append_left hlt]
  | resume j t =>
    have hne : j ≠ i := fun hji => ha t (by rw [hji])
    obtain ⟨d, hcalls, -⟩ := calls_of_resume h
    rwa [hcalls, List.getElem?_set_ne hne]

/-! ### The table after a run -/

/-- The row that the writes of a run leave under a key. -/
def expected (codec : JsonCodec V) (s₀ : SQLiteCache V) (tr : List (Move (SQLiteCache V) (Act V)))
    (key : String) : Option CacheRow :=
  match lastUnder written tr key with
  | some w => w.map (stored codec)
  | none => s₀.entries key

theorem expected_snoc (codec : JsonCodec V) (s₀ : SQLiteCache V) (key : String) :
    expected codec s₀ (tr ++ [m]) key =
      match written m with
      | some (k, w) => if key = k then w.map (stored codec) else expected codec s₀ tr key
      | none => expected codec s₀ tr key := by
  unfold expected
  cases hw : written m with
  | none => rw [lastUnder_snoc_of_none hw]
  | some kw =>
    obtain ⟨k, w⟩ := kw
    rw [lastUnder_snoc_of_some hw]
    dsimp only
    by_cases hk : key = k
    · rw [if_pos hk.symm, if_pos hk]
    · rw [if_neg (Ne.symm hk), if_neg hk]

/-- Under a key the table has the row of the last write, or none. -/
theorem entries_eq_or_none {s₀ : SQLiteCache V} (h : Run (step codec) s₀ tr s) (key : String) :
    s.entries key = expected codec s₀ tr key ∨ s.entries key = none := by
  refine h.history (P := fun tr s => s.entries key = expected codec s₀ tr key ∨
    s.entries key = none) (.inl rfl) ?_
  intro tr s a s' _ hentries hstep
  rw [entries_of_step hstep key, expected_snoc]
  cases written ⟨s, a, s'⟩ with
  | some kw =>
    obtain ⟨k, w⟩ := kw
    dsimp only
    by_cases hk : key = k
    · rw [if_pos hk, if_pos hk]
      exact .inl rfl
    · rw [if_neg hk, if_neg hk]
      exact hentries
  | none =>
    cases evicts ⟨s, a, s'⟩ with
    | none => exact hentries
    | some ik =>
      obtain ⟨i, k⟩ := ik
      dsimp only
      by_cases hk : key = k
      · rw [if_pos hk]
        exact .inr rfl
      · rw [if_neg hk]
        exact hentries

/-- If no `get` removes a row that has not expired, the row of the last write stays until then. -/
theorem entries_of_fresh {s₀ : SQLiteCache V} (h : Run (step codec) s₀ tr s)
    (hfresh : ∀ m ∈ tr, Fresh m) (key : String) :
    ∀ row, expected codec s₀ tr key = some row → s.entries key = some row ∨ row.expiresAt < s.now := by
  refine h.history_of_moves (P := fun tr s => ∀ row, expected codec s₀ tr key = some row →
    s.entries key = some row ∨ row.expiresAt < s.now) (fun row hrow => .inl hrow) ?_ hfresh
  intro tr s a s' _ hkept hstep hm row
  have hlater : ∀ row : CacheRow, row.expiresAt < s.now → row.expiresAt < s'.now :=
    fun row hlt => lt_of_lt_of_le hlt (now_le_of_step hstep)
  rw [entries_of_step hstep key, expected_snoc]
  cases hw : written ⟨s, a, s'⟩ with
  | some kw =>
    obtain ⟨k, w⟩ := kw
    dsimp only
    by_cases hk : key = k
    · rw [if_pos hk, if_pos hk]
      exact .inl
    · rw [if_neg hk, if_neg hk]
      exact fun hrow => (hkept row hrow).imp_right (hlater row)
  | none =>
    cases he : evicts ⟨s, a, s'⟩ with
    | none => exact fun hrow => (hkept row hrow).imp_right (hlater row)
    | some ik =>
      obtain ⟨i, k⟩ := ik
      intro hrow
      dsimp only
      by_cases hk : key = k
      · -- the row that is removed has expired
        right
        rcases hkept row hrow with hentry | hlt
        · have hexpired := hm i k he row (by rw [← hk, hentry])
          rwa [now_of_step hstep]
        · exact hlater row hlt
      · rw [if_neg hk]
        exact (hkept row hrow).imp_right (hlater row)

/-! ### A call from its `SELECT` to its end -/

/-- A call that has read its row does so in this step, or had read it before. -/
theorem reading_of_step (h : step codec s a = some s')
    (hcall : s'.calls[i]? = some (.reading key now row)) :
    (Reads ⟨s, a, s'⟩ i key now ∧ s.entries key = row) ∨
      s.calls[i]? = some (.reading key now row) := by
  obtain ⟨-, s₁, hnext, hs'⟩ := step_eq_some_iff.mp h
  -- a new call is the last one
  have hpush : ∀ c : Call V, (s.calls ++ [c])[i]? = some (.reading key now row) →
      (i = s.calls.length ∧ c = .reading key now row) ∨
        s.calls[i]? = some (.reading key now row) := by
    intro c hc
    rw [List.getElem?_append] at hc
    split at hc
    · exact .inr hc
    · left
      rw [List.getElem?_singleton] at hc
      split at hc
      · exact ⟨by omega, Option.some.inj hc⟩
      · contradiction
  cases a with
  | get k t =>
    obtain rfl := Option.some.inj hnext
    rw [hs'] at hcall
    rcases hpush _ hcall with ⟨hi, hc⟩ | hold
    · obtain ⟨rfl, rfl, hrow⟩ := Call.reading.inj hc
      exact .inl ⟨⟨rfl, hi.symm⟩, hrow⟩
    · exact .inr hold
  | set k value ttlSeconds t =>
    obtain rfl := Option.some.inj hnext
    rw [hs'] at hcall
    exact .inr ((hpush _ hcall).resolve_left fun h => nomatch h.2)
  | delete k t =>
    obtain rfl := Option.some.inj hnext
    rw [hs'] at hcall
    exact .inr ((hpush _ hcall).resolve_left fun h => nomatch h.2)
  | resume j t =>
    right
    obtain ⟨c, hcalls, hc⟩ := calls_of_resume h
    rw [hcalls, List.getElem?_set] at hcall
    split at hcall
    · split at hcall
      · exact absurd (Option.some.inj hcall) (hc key now row)
      · contradiction
    · exact hcall

/-- Every `get` that has read its row did so in some step before, with the row that was there. -/
theorem exists_reads (h : Run (step codec) (init entries) tr s) :
    ∀ i key now row, s.calls[i]? = some (.reading key now row) →
      ∃ before m between, tr = before ++ m :: between ∧ Reads m i key now ∧
        m.pre.entries key = row := by
  refine h.history (P := fun tr s => ∀ i key now row,
    s.calls[i]? = some (.reading key now row) → ∃ before m between, tr = before ++ m :: between ∧
      Reads m i key now ∧ m.pre.entries key = row) ?_ ?_
  · intro i key now row hcall
    contradiction
  · intro tr s a s' _ hread hstep i key now row hcall
    rcases reading_of_step hstep hcall with ⟨hm, hentry⟩ | hold
    · exact ⟨tr, _, [], rfl, hm, hentry⟩
    · obtain ⟨before, m, between, rfl, hm, hentry⟩ := hread i key now row hold
      exact ⟨before, m, between ++ [⟨s, a, s'⟩], by simp, hm, hentry⟩

theorem calls_of_reads {i : ℕ} {key : String} {now : ℚ} (h : step codec m.pre m.act = some m.post)
    (hm : Reads m i key now) : m.post.calls[i]? = some (.reading key now (m.pre.entries key)) := by
  obtain ⟨hact, hi⟩ := hm
  obtain ⟨-, s₁, hnext, hpost⟩ := step_eq_some_iff.mp h
  rw [hact] at hnext
  obtain rfl := Option.some.inj hnext
  rw [hpost, ← hi]
  exact List.getElem?_concat_length

theorem entries_of_reads {i : ℕ} {key : String} {now : ℚ} (h : step codec m.pre m.act = some m.post)
    (hm : Reads m i key now) (k : String) : m.post.entries k = m.pre.entries k := by
  obtain ⟨hact, -⟩ := hm
  obtain ⟨-, s₁, hnext, hpost⟩ := step_eq_some_iff.mp h
  rw [hact] at hnext
  obtain rfl := Option.some.inj hnext
  rw [hpost]

/-- A `get` that has read a live row returns its value, whatever the other calls do. -/
theorem live_of_step {w : V × ℚ} (h : step codec s a = some s') (hlive : now ≤ w.2)
    (hcall : s.calls[i]? = some (.reading key now (some (stored codec w))) ∨
      s.calls[i]? = some (.returned (some w.1))) :
    (s'.calls[i]? = some (.reading key now (some (stored codec w))) ∨
      s'.calls[i]? = some (.returned (some w.1))) ∧
    ∀ t, a = .resume i t → s'.calls[i]? = some (.returned (some w.1)) := by
  by_cases ha : ∃ t, a = .resume i t
  · obtain ⟨t, rfl⟩ := ha
    have hreturned : s'.calls[i]? = some (.returned (some w.1)) := by
      obtain ⟨-, s₁, hnext, rfl⟩ := step_eq_some_iff.mp h
      simp only [next] at hnext
      rcases hcall with hcall | hcall
      · rw [hcall] at hnext
        obtain rfl := Option.some.inj hnext
        simp only [fetched]
        have hnot : ¬ (stored codec w).expiresAt < now := not_lt.mpr hlive
        rw [if_neg hnot]
        have hloads : codec.loads (stored codec w).cacheValue = some w.1 := codec.loads_dumps w.1
        rw [hloads]
        exact List.getElem?_set_self (List.getElem?_eq_some_iff.mp hcall).1
      · rw [hcall] at hnext
        contradiction
    exact ⟨.inr hreturned, fun _ _ => hreturned⟩
  · rw [not_exists] at ha
    exact ⟨hcall.imp (fun hc => calls_of_step h hc ha) (fun hc => calls_of_step h hc ha),
      fun t ht => absurd ht (ha t)⟩

theorem live_of_run {s₀ : SQLiteCache V} {w : V × ℚ} (h : Run (step codec) s₀ tr s)
    (hlive : now ≤ w.2)
    (hcall : s₀.calls[i]? = some (.reading key now (some (stored codec w)))) :
    s.calls[i]? = some (.reading key now (some (stored codec w))) ∨
      s.calls[i]? = some (.returned (some w.1)) :=
  h.invariant (I := fun s => s.calls[i]? = some (.reading key now (some (stored codec w))) ∨
    s.calls[i]? = some (.returned (some w.1))) (.inl hcall)
    fun _ _ _ hcall hstep => (live_of_step hstep hlive hcall).1

/-! ### The condition -/

theorem evicts_eq_some_iff {i : ℕ} {key : String} : evicts m = some (i, key) ↔
    ∃ t now row, m.act = .resume i t ∧ m.pre.calls[i]? = some (.reading key now (some row)) ∧
      row.expiresAt < now := by
  unfold evicts
  cases m.act with
  | get k t => simp
  | set k value ttlSeconds t => simp
  | delete k t => simp
  | resume j t =>
    dsimp only
    split
    · rename_i k now row hcall
      constructor
      · intro h
        split at h
        · rename_i hexpired
          obtain ⟨rfl, rfl⟩ := Prod.mk.inj (Option.some.inj h)
          exact ⟨t, now, row, rfl, hcall, hexpired⟩
        · contradiction
      · -- a call has read one row, so it is this one
        rintro ⟨t', now', row', hact, hcall', hexpired⟩
        obtain ⟨rfl, rfl⟩ := Act.resume.inj hact
        rw [hcall] at hcall'
        obtain ⟨rfl, rfl, hrow⟩ := Call.reading.inj (Option.some.inj hcall')
        obtain rfl := Option.some.inj hrow
        rw [if_pos hexpired]
    · rename_i hother
      constructor
      · intro h
        contradiction
      · rintro ⟨t', now', row', hact, hcall', -⟩
        obtain ⟨rfl, rfl⟩ := Act.resume.inj hact
        exact absurd hcall' (hother key now' row')

theorem expected_of_lastUnder {s₀ : SQLiteCache V} {w : V × ℚ} {key : String}
    (h : lastUnder written tr key = some (some w)) :
    expected codec s₀ tr key = some (stored codec w) := by
  rw [expected, h]
  rfl

theorem returnsStored_of_fresh (h : Run (step codec) (init entries) tr s)
    (hfresh : ∀ m ∈ tr, Fresh m) : ReturnsStored tr := by
  rintro before m between m' after rfl i key now t hreads hact value expiresAt hlast hlive
  obtain ⟨hrun, hstep⟩ := h.split
  obtain ⟨hrun', hstep'⟩ := h.after.split
  have hnow : m.pre.now ≤ now := by
    obtain ⟨hle, -⟩ := step_eq_some_iff.mp hstep
    rwa [hreads.1] at hle
  have hrow : m.pre.entries key = some (stored codec (value, expiresAt)) := by
    have hbefore : ∀ m ∈ before, Fresh m := fun m hm => hfresh m (List.mem_append_left _ hm)
    rcases entries_of_fresh hrun hbefore key _ (expected_of_lastUnder hlast) with hrow | hexpired
    · exact hrow
    · exact absurd (hlive.trans_lt hexpired) (not_lt.mpr hnow)
  have hcall := calls_of_reads hstep hreads
  rw [hrow] at hcall
  exact (live_of_step hstep' hlive (live_of_run hrun' hlive hcall)).2 t hact

theorem removesExpired_of_fresh (h : Run (step codec) (init entries) tr s)
    (hfresh : ∀ m ∈ tr, Fresh m) : RemovesExpired tr := by
  rintro before m between m' after rfl i key now - hevicts value expiresAt hlast
  obtain ⟨hrun', hstep'⟩ := h.after.split
  rw [List.forall_mem_append, List.forall_mem_cons, List.forall_mem_append,
    List.forall_mem_cons] at hfresh
  obtain ⟨-, -, hbetween, hm', -⟩ := hfresh
  rcases entries_of_fresh hrun' hbetween key _ (expected_of_lastUnder hlast) with hrow | hexpired
  · exact hm' i key hevicts _ hrow
  · exact lt_of_lt_of_le hexpired (step_eq_some_iff.mp hstep').1

theorem fresh_of_removesExpired (h : Run (step codec) (init entries) tr s)
    (hremoves : RemovesExpired tr) : ∀ m ∈ tr, Fresh m := by
  intro m' hm' i key hevicts row hrow
  obtain ⟨whole, after, rfl⟩ := List.append_of_mem hm'
  obtain ⟨hrun, hstep'⟩ := h.split
  obtain ⟨t, now, row₀, -, hcall, hexpired⟩ := evicts_eq_some_iff.mp hevicts
  obtain ⟨before, m, between, rfl, hreads, hentry⟩ := exists_reads hrun i key now _ hcall
  obtain ⟨-, hstep⟩ := hrun.split
  have hafter := hrun.after
  have hle : now ≤ m'.act.now :=
    calc now = m.post.now := by rw [now_of_step hstep, hreads.1]; rfl
      _ ≤ m'.pre.now := now_le_of_run hafter
      _ ≤ m'.act.now := (step_eq_some_iff.mp hstep').1
  rcases entries_eq_or_none hafter key with heq | hnone
  · rw [hrow, expected] at heq
    cases hlast : lastUnder written between key with
    | none =>
      -- nothing was written since: this is the row that the `get` has read
      rw [hlast] at heq
      have hsame := (entries_of_reads hstep hreads key).trans hentry
      obtain rfl := Option.some.inj (heq.trans hsame)
      exact lt_of_lt_of_le hexpired hle
    | some w =>
      rw [hlast] at heq
      cases w with
      | none => contradiction
      | some w =>
        obtain rfl := Option.some.inj heq
        exact hremoves before m between m' after (by simp) i key now hreads hevicts w.1 w.2 hlast
  · rw [hrow] at hnone
    contradiction

/-- What the cache does in a run is what its callers rely on iff no `get` deletes a row that was
stored after it has read the expired one and has not expired itself. -/
theorem keepsStored_iff (h : Run (step codec) (init entries) tr s) :
    ReturnsStored tr ∧ RemovesExpired tr ↔ ∀ m ∈ tr, Fresh m := by
  constructor
  · exact fun hkeeps => fresh_of_removesExpired h hkeeps.2
  · exact fun hfresh => ⟨returnsStored_of_fresh h hfresh, removesExpired_of_fresh h hfresh⟩

/-! ### Examples -/

/-- `json.loads` of a text that is one string. -/
def loadsString (text : String) : Option String :=
  match Json.scanstring text.toList.tail with
  | some (value, []) => some value
  | _ => none

theorem loadsString_quote (value : String) :
    loadsString (String.ofList (Json.quote value)) = some value := by
  have hscan := Json.scanstring_quote value []
  rw [List.append_nil] at hscan
  rw [loadsString, String.toList_ofList, hscan]

/-- Strings. -/
def strings : JsonCodec String where
  dumps value := String.ofList (Json.quote value)
  loads := loadsString
  loads_dumps := loadsString_quote

/-- An answer of an earlier day. -/
def persisted (key : String) : Option CacheRow :=
  if key = "rdap:example.com" then some ⟨"\"old\"", 50⟩ else none

/-- One after the other, a `get` finds the expired row and a `set` stores a new one. -/
def lookups : List (Act String) :=
  [.get "rdap:example.com" 100, .resume 0 101, .resume 0 102, .set "rdap:example.com" "new" 604800 103,
    .resume 1 104, .get "rdap:example.com" 105, .resume 2 106]

theorem keepsStored_iff_lookups :
    ReturnsStored (runFrom (step strings) (init persisted) lookups).1 ∧
    RemovesExpired (runFrom (step strings) (init persisted) lookups).1 ↔
      ∀ m ∈ (runFrom (step strings) (init persisted) lookups).1, Fresh m :=
  keepsStored_iff (run_runFrom (init persisted) lookups)

/-- Two of them at the same time: the `set` is done when the `get` deletes the row. -/
def concurrent : List (Act String) :=
  [.get "rdap:example.com" 100, .set "rdap:example.com" "new" 604800 101, .resume 1 102, .resume 0 103]

/-- The next `get` finds nothing. -/
theorem stored_value_removed :
    ∃ tr s, Run (step strings) (init persisted) tr s ∧ ¬ (ReturnsStored tr ∧ RemovesExpired tr) := by
  have hrun : Run (step strings) (init persisted) _ _ := run_runFrom (init persisted) concurrent
  have hget := hrun.snoc (a := .get "rdap:example.com" 104)
    (step_eq_some_iff.mpr ⟨by decide +kernel, _, rfl, rfl⟩)
  have hend := hget.snoc (a := .resume 2 105)
    (step_eq_some_iff.mpr ⟨by decide +kernel, _, rfl, rfl⟩)
  refine ⟨_, _, hend, fun h => ?_⟩
  have hreturned := h.1 _ _ [] _ [] (List.append_assoc ..) 2 "rdap:example.com" 104 105
    ⟨rfl, by decide +kernel⟩ rfl "new" 604901 (by decide +kernel) (by decide +kernel)
  exact absurd hreturned (by decide +kernel)

end Verdix.SQLiteCache

import Verdix.Infra.SuricataReader
import Verdix.Infra.Equiv.SuricataIncludes

/-!
# What escapes from `read_config`

`read_config` ends as it says it does iff everything it comes to on its way is sound
(`documented_iff`).  Three of its steps trust what they find: `read_text` raises a `ValueError` for
bytes that are no UTF-8 (`undecodable_escapes`), the loop over `includes` takes any value for a list
of paths, and so does the one over `rule-files`.
-/

namespace Verdix.SuricataParser

open PyObject

variable {lib : ReaderLibrary} {fs : FileSystem}

/-- The ends that the docstring names. -/
def Documented : Except ConfigError ConfigRead → Prop
  | .ok read => read.config.homeNet ≠ []
  | .error (.raised _) => False
  | .error _ => True

/-- What `read_config` comes to. -/
inductive Visit
  /-- A path whose kind is asked for. -/
  | probe (path : PosixPath)
  /-- A file that is read and parsed. -/
  | file (path : PosixPath)
  /-- A value of `include` that is not empty. -/
  | includes (heap : Heap) (includes : Value)
  /-- An entry of it. -/
  | entry (configPath : PosixPath) (inc : Value)
  /-- Two dictionaries that are merged, in a loop over a value with so many items. -/
  | merge (frames : ℕ) (heap : Heap) (base override : ℕ) (includes : Value) (size : ℕ)
  /-- A value of `rule-files` that is not empty. -/
  | ruleFiles (heap : Heap) (ruleFiles : Value)
  /-- A rule file. -/
  | ruleFile (configDir : PosixPath) (rp : String)

/-- The system can say whether there is a file. -/
def Probed (fs : FileSystem) (path : PosixPath) : Prop :=
  ∃ present, fs.pathExists path = .ok present ∧ (present = true → ∃ file, fs.isFile path = .ok file)

/-- What each step takes for granted. -/
def Sound (lib : ReaderLibrary) (fs : FileSystem) : Visit → Prop
  | .probe path => Probed fs path
  | .file path =>
    -- a file that can be read is UTF-8, and the loader raises nothing but a `YAMLError`
    ∀ bytes, fs.readBytes path = .ok bytes →
      ∃ raw, TextFile.decodeStrict none bytes = some raw ∧
        ∀ e, lib.safeLoad (String.ofList (TextFile.translate false raw)) ≠ .error (.raised e)
  | .includes heap includes => ∃ items, includeItems heap includes = .ok items
  | .entry configPath inc =>
    ∃ text incPath, inc = .scalar (.str text) ∧
      fs.resolve (configPath.parent.joinpath text) = .ok incPath
  | .merge frames heap base override includes size =>
    ∃ merged, deepMerge frames heap base override = .ok merged ∧
      ((includeItems merged includes).toOption.getD []).length = size
  | .ruleFiles heap ruleFiles =>
    ∃ items, includeItems heap ruleFiles = .ok items ∧
      ∀ item ∈ items, truthy heap item = true → ∃ text, lib.str heap item = .ok text
  | .ruleFile configDir rp =>
    ∃ p, fs.resolve (configDir.joinpath rp) = .ok p ∧ Probed fs p ∧
      (fs.pathExists p = .ok true → fs.isFile p = .ok true → ∃ mtime, fs.mtime p = .ok mtime)

/-- Something that is come to is not sound. -/
def Unsound (lib : ReaderLibrary) (fs : FileSystem) (visits : List Visit) : Prop :=
  ∃ v ∈ visits, ¬ Sound lib fs v

theorem not_unsound_nil : ¬ Unsound lib fs [] := by
  rintro ⟨v, hv, -⟩
  contradiction

theorem unsound_cons {v : Visit} {visits : List Visit} :
    Unsound lib fs (v :: visits) ↔ ¬ Sound lib fs v ∨ Unsound lib fs visits := by
  unfold Unsound
  simp only [List.mem_cons, exists_eq_or_imp]

theorem unsound_append {visits visits' : List Visit} :
    Unsound lib fs (visits ++ visits') ↔ Unsound lib fs visits ∨ Unsound lib fs visits' := by
  unfold Unsound
  simp only [List.mem_append, or_and_right, exists_or]

theorem unsound_flatMap {α : Type} {visits : α → List Visit} {xs : List α} :
    Unsound lib fs (xs.flatMap visits) ↔ ∃ x ∈ xs, Unsound lib fs (visits x) := by
  unfold Unsound
  constructor
  · rintro ⟨v, hv, hnot⟩
    obtain ⟨x, hx, hvx⟩ := List.mem_flatMap.mp hv
    exact ⟨x, hx, v, hvx, hnot⟩
  · rintro ⟨x, hx, v, hvx, hnot⟩
    exact ⟨v, List.mem_flatMap.mpr ⟨x, hx, hvx⟩, hnot⟩

/-- What is come to after a step that may have failed. -/
def after {α ε : Type} (x : Except ε α) (visits : α → List Visit) : List Visit :=
  match x with
  | .error _ => []
  | .ok a => visits a

@[simp]
theorem after_ok {α ε : Type} (a : α) (visits : α → List Visit) :
    after (.ok a : Except ε α) visits = visits a := rfl

@[simp]
theorem after_error {α ε : Type} (e : ε) (visits : α → List Visit) :
    after (.error e : Except ε α) visits = [] := rfl

/-- What comes after a step counts only if the step did not fail. -/
theorem unsound_after {α ε : Type} {x : Except ε α} {visits : α → List Visit} :
    Unsound lib fs (after x visits) ↔ ∃ a, x = .ok a ∧ Unsound lib fs (visits a) := by
  cases x with
  | error e =>
    refine iff_of_false not_unsound_nil ?_
    rintro ⟨a, ha, -⟩
    contradiction
  | ok a =>
    simp only [Except.ok.injEq, exists_eq_left']
    exact Iff.rfl

/-! ### The way through the includes -/

/-- What a round of the loop over `includes` comes to, with `visits` and `load` for the call of the
function itself. -/
def entryVisits (fs : FileSystem) (visits : PosixPath → Heap → List Visit)
    (load : PosixPath → Heap → Except LoadError Loaded) (frames : ℕ) (configPath : PosixPath)
    (data : ℕ) (includes : Value) (size : ℕ) (state : LoadState) (inc : Value) : List Visit :=
  .entry configPath inc :: after (includePath fs configPath inc) fun incPath =>
    visits incPath state.1 ++ after (load incPath state.1) fun loaded =>
      [.merge frames loaded.heap data loaded.data includes size]

/-- What the whole loop comes to. -/
def loopVisits (includes : Value) (size : ℕ) (body : LoadState → Value → Except LoadError LoadState)
    (visits : LoadState → Value → List Visit) (state : LoadState) : List Visit :=
  (Except.reached (liveRound (seen includes) (.raised .runtimeError) body size) (List.range size)
    state).flatMap fun r =>
    match (seen includes r.1)[r.2]? with
    | some inc => visits r.1 inc
    | none => []

/-- What `load_yaml_with_includes` comes to, in order, up to the first exception. -/
def loadVisits (yaml : YamlLibrary) (fs : FileSystem) : ℕ → PosixPath → Heap → List Visit
  | 0, _, _ => []
  | left + 1, path, heap =>
    .file path :: after (readYaml yaml fs path) fun graph =>
      match rootDict (link heap graph) (graph.root.shift heap.length) with
      | none => []
      | some (heap, data) =>
        let (heap, includes) := popInclude heap data
        if truthy heap includes then
          .includes heap includes ::
            loopVisits includes (seen includes (heap, [path.str])).length
              (includeOne fs (loadYamlWithIncludes yaml fs left) (yaml.frames left) path data)
              (entryVisits fs (loadVisits yaml fs left) (loadYamlWithIncludes yaml fs left)
                (yaml.frames left) path data includes (seen includes (heap, [path.str])).length)
              (heap, [path.str])
        else
          []

/-! ### Exceptions that are not caught -/

/-- Another exception than a `ParseError`. -/
def LoadError.IsRaised (err : LoadError) : Prop := ∃ e, err = .raised e

/-- Another exception than the two that `read_config` names. -/
def ConfigError.IsRaised (err : ConfigError) : Prop := ∃ e, err = .raised e

theorem not_isRaised_parse {message : String} : ¬ (LoadError.parse message).IsRaised := by
  rintro ⟨e, he⟩
  contradiction

/-- Reading a file raises iff its bytes are no UTF-8 or the YAML library raises; what the system or
the library reports is a `ParseError`. -/
theorem raises_readYaml {path : PosixPath} :
    Except.FailsWith LoadError.IsRaised (readYaml lib.toYamlLibrary fs path) ↔
      ¬ Sound lib fs (.file path) := by
  cases hbytes : fs.readBytes path with
  | error e =>
    -- a file that cannot be read is a `ParseError`
    have hread : readYaml lib.toYamlLibrary fs path =
        .error (.parse ("cannot read " ++ path.str ++ ": " ++ e)) := by
      simp only [readYaml, hbytes]
    rw [hread, Except.failsWith_error]
    refine iff_of_false not_isRaised_parse (not_not_intro fun bytes h => ?_)
    rw [hbytes] at h
    contradiction
  | ok bytes =>
    have hsound : Sound lib fs (.file path) ↔ ∃ raw, TextFile.decodeStrict none bytes = some raw ∧
        ∀ e, lib.safeLoad (String.ofList (TextFile.translate false raw)) ≠ .error (.raised e) := by
      constructor
      · exact fun h => h bytes hbytes
      · intro h bytes' hbytes'
        rwa [← Except.ok.inj (hbytes.symm.trans hbytes')]
    rw [hsound]
    cases hraw : TextFile.decodeStrict none bytes with
    | none =>
      have hread : readYaml lib.toYamlLibrary fs path = .error (.raised .unicodeDecodeError) := by
        simp only [readYaml, hbytes, hraw]
      rw [hread, Except.failsWith_error]
      -- `UnicodeDecodeError` is not among the errors that are caught
      refine iff_of_true ⟨_, rfl⟩ ?_
      rintro ⟨raw, hnone, -⟩
      contradiction
    | some raw =>
      simp only [Option.some.injEq, exists_eq_left', ne_eq, not_forall, not_not]
      cases hload : lib.safeLoad (String.ofList (TextFile.translate false raw)) with
      | ok graph =>
        have hread : readYaml lib.toYamlLibrary fs path = .ok graph := by
          simp only [readYaml, hbytes, hraw, hload]
        rw [hread]
        exact iff_of_false Except.not_failsWith_ok (by simp)
      | error failure =>
        cases failure with
        | yamlError text =>
          have hread : readYaml lib.toYamlLibrary fs path =
              .error (.parse ("YAML parse error in " ++ path.str ++ ": " ++ text)) := by
            simp only [readYaml, hbytes, hraw, hload]
          rw [hread, Except.failsWith_error]
          exact iff_of_false not_isRaised_parse (by simp)
        | raised e =>
          have hread : readYaml lib.toYamlLibrary fs path = .error (.raised e) := by
            simp only [readYaml, hbytes, hraw, hload]
          rw [hread, Except.failsWith_error]
          exact iff_of_true ⟨e, rfl⟩ ⟨e, rfl⟩

/-- An entry of `include` has a path iff it is a string and `resolve` takes it. -/
theorem includePath_eq_ok_iff {configPath : PosixPath} {inc : Value} :
    (∃ incPath, includePath fs configPath inc = .ok incPath) ↔
      Sound lib fs (.entry configPath inc) := by
  constructor
  · rintro ⟨incPath, h⟩
    unfold includePath at h
    split at h
    · rename_i text
      exact ⟨text, incPath, rfl, h⟩
    · contradiction
  · rintro ⟨text, incPath, rfl, h⟩
    exact ⟨incPath, h⟩

/-! ### The loader -/

section Loop

variable {load : PosixPath → Heap → Except LoadError Loaded} {visits : PosixPath → Heap → List Visit}
  {frames data size : ℕ} {configPath : PosixPath} {includes : Value}

variable {state : LoadState} {inc : Value} {incPath : PosixPath}

/-- An entry without a path ends the round. -/
theorem includeOne_of_path {e : PyError} (hpath : includePath fs configPath inc = .error e) :
    includeOne fs load frames configPath data state inc = .error (.raised e) := by
  simp [includeOne, hpath, Except.mapError, bind, Except.bind]

/-- So does an error of the included file. -/
theorem includeOne_of_load {err : LoadError} (hpath : includePath fs configPath inc = .ok incPath)
    (hload : load incPath state.1 = .error err) :
    includeOne fs load frames configPath data state inc = .error err := by
  simp [includeOne, hpath, hload, Except.mapError, bind, Except.bind]

/-- Otherwise the included file is merged into the data. -/
theorem includeOne_of_ok {loaded : Loaded} (hpath : includePath fs configPath inc = .ok incPath)
    (hload : load incPath state.1 = .ok loaded) :
    includeOne fs load frames configPath data state inc =
      match deepMerge frames loaded.heap data loaded.data with
      | .error e => .error (.raised e)
      | .ok merged => .ok (merged, state.2 ++ loaded.pathsRead) := by
  cases hm : deepMerge frames loaded.heap data loaded.data with
  | error e => simp [includeOne, hpath, hload, hm, Except.mapError, bind, Except.bind]
  | ok merged =>
    simp [includeOne, hpath, hload, hm, Except.mapError, bind, Except.bind, pure, Except.pure]

/-- A round raises iff something that it comes to is not sound. -/
theorem raises_round
    (hload : ∀ path heap,
      Except.FailsWith LoadError.IsRaised (load path heap) ↔ Unsound lib fs (visits path heap)) {i : ℕ}
    (hinc : (seen includes state)[i]? = some inc) :
    Except.FailsWith LoadError.IsRaised (liveRound (seen includes) (.raised .runtimeError)
        (includeOne fs load frames configPath data) size state i) ↔
      Unsound lib fs
        (entryVisits fs visits load frames configPath data includes size state inc) := by
  have hentry : (∃ incPath, includePath fs configPath inc = .ok incPath) ↔
      Sound lib fs (.entry configPath inc) := includePath_eq_ok_iff
  unfold liveRound entryVisits
  rw [hinc, unsound_cons]
  dsimp only
  cases hpath : includePath fs configPath inc with
  | error e =>
    rw [includeOne_of_path hpath]
    refine iff_of_true ⟨_, rfl, e, rfl⟩ (.inl fun hsound => ?_)
    obtain ⟨incPath, hok⟩ := hentry.mpr hsound
    rw [hpath] at hok
    contradiction
  | ok incPath =>
    -- with a path, the round raises where the included file or the merge does
    rw [or_iff_right (not_not_intro (hentry.mp ⟨incPath, hpath⟩)), after_ok, unsound_append, ← hload]
    cases hl : load incPath state.1 with
    | error err =>
      rw [includeOne_of_load hpath hl, after_error, or_iff_left not_unsound_nil,
        Except.failsWith_error]
      exact Except.failsWith_error.symm
    | ok loaded =>
      rw [includeOne_of_ok hpath hl, or_iff_right Except.not_failsWith_ok, after_ok, unsound_cons,
        or_iff_left not_unsound_nil]
      cases hm : deepMerge frames loaded.heap data loaded.data with
      | error e =>
        refine iff_of_true ⟨_, rfl, e, rfl⟩ fun hsound => ?_
        obtain ⟨merged, hmerged, -⟩ := hsound
        rw [hm] at hmerged
        contradiction
      | ok merged =>
        dsimp only
        -- a merge that changes the list ends the loop with a `RuntimeError`
        by_cases hsize : (seen includes (merged, state.2 ++ loaded.pathsRead)).length = size
        · rw [if_pos hsize]
          exact iff_of_false Except.not_failsWith_ok (not_not_intro ⟨merged, hm, hsize⟩)
        · rw [if_neg hsize]
          refine iff_of_true ⟨_, rfl, _, rfl⟩ fun hsound => ?_
          obtain ⟨merged', hmerged, hsame⟩ := hsound
          obtain rfl := Except.ok.inj (hm.symm.trans hmerged)
          exact hsize hsame

/-- The rounds of the loop see as many items as there were at its beginning. -/
theorem exists_item_of_reached {body : LoadState → Value → Except LoadError LoadState} :
    ∀ r ∈ Except.reached (liveRound (seen includes) (.raised .runtimeError) body
        (seen includes state).length) (List.range (seen includes state).length) state,
      ∃ inc, (seen includes r.1)[r.2]? = some inc := by
  -- a round that is passed leaves the number of items as it was
  have hkeep : ∀ (s : LoadState) (i : ℕ) (t : LoadState), liveRound (seen includes)
      (.raised .runtimeError) body (seen includes state).length s i = .ok t →
      (seen includes s).length = (seen includes state).length →
        (seen includes t).length = (seen includes state).length := by
    intro s i t h hs
    unfold liveRound at h
    split at h
    · obtain rfl := Except.ok.inj h
      exact hs
    · split at h
      · contradiction
      · split at h
        · rename_i hsize
          obtain rfl := Except.ok.inj h
          exact hsize
        · contradiction
  intro r hr
  obtain ⟨hsize, hmem⟩ := Except.reached_preserves hkeep rfl r hr
  have hlt : r.2 < (seen includes r.1).length := by
    rw [hsize]
    exact List.mem_range.mp hmem
  exact ⟨_, List.getElem?_eq_getElem hlt⟩

/-- The loop over `include` raises iff some round comes to something that is not sound. -/
theorem raises_loop
    (hload : ∀ path heap,
      Except.FailsWith LoadError.IsRaised (load path heap) ↔ Unsound lib fs (visits path heap))
    (state : LoadState) :
    Except.FailsWith LoadError.IsRaised (forLive (seen includes) (.raised .runtimeError)
        (includeOne fs load frames configPath data) state) ↔
      Unsound lib fs (loopVisits includes (seen includes state).length
        (includeOne fs load frames configPath data)
        (entryVisits fs visits load frames configPath data includes (seen includes state).length)
        state) := by
  have hround : ∀ r ∈ Except.reached (liveRound (seen includes) (.raised .runtimeError)
      (includeOne fs load frames configPath data) (seen includes state).length)
      (List.range (seen includes state).length) state,
      (Except.FailsWith LoadError.IsRaised (liveRound (seen includes) (.raised .runtimeError)
          (includeOne fs load frames configPath data) (seen includes state).length r.1 r.2) ↔
        Unsound lib fs (match (seen includes r.1)[r.2]? with
          | some inc => entryVisits fs visits load frames configPath data includes
              (seen includes state).length r.1 inc
          | none => [])) := by
    intro r hr
    obtain ⟨inc, hinc⟩ := exists_item_of_reached r hr
    rw [raises_round hload hinc, hinc]
  rw [forLive, loopVisits, unsound_flatMap]
  constructor
  · rintro ⟨e, he, hkind⟩
    obtain ⟨r, hr, hraise⟩ := Except.foldlM_eq_error_iff_reached.mp he
    exact ⟨r, hr, (hround r hr).mp ⟨e, hraise, hkind⟩⟩
  · rintro ⟨r, hr, hunsound⟩
    obtain ⟨e, hraise, hkind⟩ := (hround r hr).mpr hunsound
    exact ⟨e, Except.foldlM_eq_error_iff_reached.mpr ⟨r, hr, hraise⟩, hkind⟩

end Loop

/-- `load_yaml_with_includes` raises something else than a `ParseError` iff something that it comes
to is not sound. -/
theorem raises_load (left : ℕ) (path : PosixPath) (heap : Heap) :
    Except.FailsWith LoadError.IsRaised (loadYamlWithIncludes lib.toYamlLibrary fs left path heap) ↔
      Unsound lib fs (loadVisits lib.toYamlLibrary fs left path heap) := by
  induction left generalizing path heap with
  | zero =>
    rw [loadYamlWithIncludes, Except.failsWith_error]
    exact iff_of_false not_isRaised_parse not_unsound_nil
  | succ left ih =>
    rw [loadYamlWithIncludes, loadVisits, Except.failsWith_bind, raises_readYaml, unsound_cons]
    -- the file itself is sound: what is left comes from its contents
    refine or_congr_right ?_
    cases readYaml lib.toYamlLibrary fs path with
    | error err =>
      refine iff_of_false ?_ not_unsound_nil
      rintro ⟨graph, hgraph, -⟩
      contradiction
    | ok graph =>
      simp only [Except.ok.injEq, exists_eq_left', after_ok]
      cases rootDict (link heap graph) (graph.root.shift heap.length) with
      | none =>
        dsimp only
        rw [Except.failsWith_error]
        exact iff_of_false not_isRaised_parse not_unsound_nil
      | some root =>
        obtain ⟨heap, data⟩ := root
        dsimp only
        split
        · rw [Except.failsWith_bind, Except.failsWith_mapError fun e => ⟨e, rfl⟩, unsound_cons]
          -- either the entries cannot be listed, or the loop decides
          by_cases hiter : Sound lib fs (.includes (popInclude heap data).1 (popInclude heap data).2)
          · obtain ⟨items, hitems⟩ := hiter
            refine or_congr_right ?_
            rw [hitems, ← raises_loop ih]
            constructor
            · rintro ⟨a, -, hraises⟩
              rcases Except.failsWith_bind.mp hraises with hloop | ⟨state, -, hreturn⟩
              · exact hloop
              · exact absurd hreturn Except.not_failsWith_ok
            · exact fun hloop => ⟨items, rfl, Except.failsWith_bind.mpr (.inl hloop)⟩
          · exact iff_of_true (.inl hiter) (.inl hiter)
        · exact iff_of_false Except.not_failsWith_ok not_unsound_nil

/-! ### The whole of `read_config` -/

/-- What `extract_rule_file_paths` and `_summarise_rule_files` come to. -/
def ruleVisits (configDir : PosixPath) (lib : ReaderLibrary) (heap : Heap) (data : ℕ) : List Visit :=
  match lookup (members heap data) (.str "rule-files") with
  | none => []
  | some ruleFiles =>
    if truthy heap ruleFiles then
      .ruleFiles heap ruleFiles :: after (extractRuleFilePaths lib heap data) fun paths =>
        paths.map (.ruleFile configDir)
    else
      []

/-- What `read_config` comes to once it has found the file. -/
def foundVisits (lib : ReaderLibrary) (fs : FileSystem) (pathStr : String) : List Visit :=
  let path := PosixPath.parse pathStr
  loadVisits lib.toYamlLibrary fs 6 path [] ++
    after (loadYamlWithIncludes lib.toYamlLibrary fs 6 path []) fun loaded =>
      after (extractFrom lib loaded.heap loaded.data) fun groups =>
        after (validateHomeNet groups.1 pathStr) fun _ =>
          ruleVisits path.parent lib loaded.heap loaded.data

/-- What `read_config` comes to. -/
def visits (lib : ReaderLibrary) (fs : FileSystem) (pathStr : String) : List Visit :=
  let path := PosixPath.parse pathStr
  .probe path ::
    if existsAsFile fs path = .ok true ∧ (fs.readBytes path).isOk then foundVisits lib fs pathStr
    else []

theorem not_isRaised_invalid {message detail : String} :
    ¬ (ConfigError.invalid message detail).IsRaised := by
  rintro ⟨e, he⟩
  contradiction

theorem not_isRaised_missing {message detail : String} :
    ¬ (ConfigError.missing message detail).IsRaised := by
  rintro ⟨e, he⟩
  contradiction

/-- The names of the rule files are texts iff each of those that count has one. -/
theorem ruleFiles_eq_ok_iff {heap : Heap} {ruleFiles : Value} :
    (∃ paths, (do
      let items ← includeItems heap ruleFiles
      (items.filter (truthy heap)).mapM (lib.str heap)) = .ok paths) ↔
      Sound lib fs (.ruleFiles heap ruleFiles) := by
  constructor
  · rintro ⟨paths, h⟩
    obtain ⟨items, hitems, hpaths⟩ := Except.bind_eq_ok.mp h
    refine ⟨items, hitems, fun item hitem htruthy => ?_⟩
    exact Except.exists_mapM_eq_ok.mp ⟨paths, hpaths⟩ item (List.mem_filter.mpr ⟨hitem, htruthy⟩)
  · rintro ⟨items, hitems, hstr⟩
    obtain ⟨paths, hpaths⟩ := Except.exists_mapM_eq_ok.mpr fun item hitem =>
      hstr item (List.mem_filter.mp hitem).1 (List.mem_filter.mp hitem).2
    exact ⟨paths, Except.bind_eq_ok.mpr ⟨items, hitems, hpaths⟩⟩

/-- The tests on a path succeed iff the system answers them. -/
theorem existsAsFile_eq_ok_iff {p : PosixPath} :
    (∃ file, existsAsFile fs p = .ok file) ↔ Probed fs p := by
  constructor
  · rintro ⟨file, h⟩
    obtain ⟨present, hpresent, h⟩ := Except.bind_eq_ok.mp h
    refine ⟨present, hpresent, fun htrue => ?_⟩
    rw [if_pos htrue] at h
    exact ⟨file, h⟩
  · rintro ⟨present, hpresent, hfile⟩
    cases present with
    | false => exact ⟨false, Except.bind_eq_ok.mpr ⟨false, hpresent, rfl⟩⟩
    | true =>
      obtain ⟨file, hfile⟩ := hfile rfl
      exact ⟨file, Except.bind_eq_ok.mpr ⟨true, hpresent, hfile⟩⟩

/-- A path that is there as a file passes both tests. -/
theorem existsAsFile_eq_true_iff {p : PosixPath} :
    existsAsFile fs p = .ok true ↔ fs.pathExists p = .ok true ∧ fs.isFile p = .ok true := by
  constructor
  · intro h
    obtain ⟨present, hpresent, h⟩ := Except.bind_eq_ok.mp h
    cases present with
    | false => simp at h
    | true => exact ⟨hpresent, h⟩
  · rintro ⟨hpresent, hfile⟩
    exact Except.bind_eq_ok.mpr ⟨true, hpresent, hfile⟩

/-- A rule file is summarised iff its path is resolved and tested, and its time is read if it is
there. -/
theorem summariseRuleFile_eq_ok_iff {configDir : PosixPath} {rp : String} :
    (∃ summary, summariseRuleFile fs configDir rp = .ok summary) ↔
      Sound lib fs (.ruleFile configDir rp) := by
  constructor
  · rintro ⟨summary, h⟩
    obtain ⟨p, hp, h⟩ := Except.bind_eq_ok.mp h
    obtain ⟨file, hfile, h⟩ := Except.bind_eq_ok.mp h
    refine ⟨p, hp, existsAsFile_eq_ok_iff.mp ⟨file, hfile⟩, fun hexists hisFile => ?_⟩
    obtain rfl := Except.ok.inj (hfile.symm.trans (existsAsFile_eq_true_iff.mpr ⟨hexists, hisFile⟩))
    obtain ⟨mtime, hmtime, -⟩ := Except.bind_eq_ok.mp h
    exact ⟨mtime, hmtime⟩
  · rintro ⟨p, hp, hprobed, hmtime⟩
    obtain ⟨file, hfile⟩ := existsAsFile_eq_ok_iff.mpr hprobed
    -- with the path resolved and tested, only the time of a file is left
    suffices h : ∃ summary, (if file = true then do
          let mtime ← fs.mtime p
          let lineCount := (fs.readBytes p).toOption.map fun bytes => (TextFile.readLines bytes).length
          return (rp, (⟨p.str, true, lineCount, some mtime⟩ : RuleFileSummary))
        else return (rp, ⟨p.str, false, none, none⟩)) = Except.ok (ε := PyError) summary by
      obtain ⟨summary, h⟩ := h
      exact ⟨summary, Except.bind_eq_ok.mpr ⟨p, hp, Except.bind_eq_ok.mpr ⟨file, hfile, h⟩⟩⟩
    cases file with
    | false => exact ⟨_, rfl⟩
    | true =>
      obtain ⟨hexists, hisFile⟩ := existsAsFile_eq_true_iff.mp hfile
      obtain ⟨mtime, hmtime⟩ := hmtime hexists hisFile
      exact ⟨_, Except.bind_eq_ok.mpr ⟨mtime, hmtime, rfl⟩⟩

/-- The rule files let an exception escape iff something that they come to is not sound. -/
theorem escapes_rules {α : Type} {configDir : PosixPath} {heap : Heap} {data : ℕ}
    (result : List String → List (String × RuleFileSummary) → α) :
    Except.FailsWith ConfigError.IsRaised
      ((extractRuleFilePaths lib heap data).mapError .raised >>= fun paths =>
        (summariseRuleFiles fs configDir paths).mapError .raised >>= fun summaries =>
          .ok (result paths summaries)) ↔
      Unsound lib fs (ruleVisits configDir lib heap data) := by
  have hsummaries : ∀ paths, Except.FailsWith ConfigError.IsRaised
      ((summariseRuleFiles fs configDir paths).mapError .raised >>= fun summaries =>
        .ok (result paths summaries)) ↔
      Unsound lib fs (paths.map (.ruleFile configDir)) := by
    intro paths
    rw [Except.failsWith_bind, Except.failsWith_mapError fun e => ⟨e, rfl⟩]
    -- the summaries are made one by one
    have hok : (∃ summaries, summariseRuleFiles fs configDir paths = .ok summaries) ↔
        ∀ rp ∈ paths, Sound lib fs (.ruleFile configDir rp) := by
      unfold summariseRuleFiles
      rw [Except.exists_mapM_eq_ok]
      exact forall₂_congr fun rp _ => summariseRuleFile_eq_ok_iff
    rw [hok]
    constructor
    · rintro (hnot | ⟨summaries, -, h⟩)
      · push Not at hnot
        obtain ⟨rp, hrp, hunsound⟩ := hnot
        exact ⟨_, List.mem_map_of_mem hrp, hunsound⟩
      · exact absurd h Except.not_failsWith_ok
    · rintro ⟨v, hv, hunsound⟩
      obtain ⟨rp, hrp, rfl⟩ := List.mem_map.mp hv
      exact .inl fun hall => hunsound (hall rp hrp)
  rw [Except.failsWith_bind, Except.failsWith_mapError fun e => ⟨e, rfl⟩]
  simp only [Except.mapError_eq_ok, hsummaries]
  unfold ruleVisits extractRuleFilePaths
  cases lookup (members heap data) (.str "rule-files") with
  | none =>
    refine iff_of_false ?_ not_unsound_nil
    rintro (hnot | ⟨paths, hpaths, hunsound⟩)
    · exact hnot ⟨_, rfl⟩
    · obtain rfl := Except.ok.inj hpaths
      exact not_unsound_nil hunsound
  | some ruleFiles =>
    dsimp only
    split
    · rename_i htruthy
      have hsound : _ ↔ Sound lib fs (.ruleFiles heap ruleFiles) := ruleFiles_eq_ok_iff
      rw [unsound_cons, hsound]
      exact or_congr_right unsound_after.symm
    · refine iff_of_false ?_ not_unsound_nil
      rintro (hnot | ⟨paths, hpaths, hunsound⟩)
      · exact hnot ⟨_, rfl⟩
      · obtain rfl := Except.ok.inj hpaths
        exact not_unsound_nil hunsound

/-- `read_config` turns a `ParseError` into its own error and lets the others pass. -/
theorem isRaised_toConfigError {pathStr : String} {err : LoadError} :
    (err.toConfigError pathStr).IsRaised ↔ err.IsRaised := by
  cases err with
  | parse message => exact iff_of_false not_isRaised_invalid not_isRaised_parse
  | raised e => exact iff_of_true ⟨e, rfl⟩ ⟨e, rfl⟩

/-- The check on HOME_NET only fails with the documented error. -/
theorem not_escapes_validateHomeNet {addressCidrs : List (Text × List Ipaddress.Network)}
    {configPath : String} :
    ¬ Except.FailsWith ConfigError.IsRaised (validateHomeNet addressCidrs configPath) := by
  unfold validateHomeNet
  split
  · rw [Except.failsWith_error]
    exact not_isRaised_invalid
  · rw [Except.failsWith_error]
    exact not_isRaised_invalid
  · exact Except.not_failsWith_ok

/-- Once the file is found, an exception escapes iff something on the way is not sound. -/
theorem escapes_found (pathStr : String) :
    Except.FailsWith ConfigError.IsRaised (readFound lib fs pathStr) ↔
      Unsound lib fs (foundVisits lib fs pathStr) := by
  unfold foundVisits
  rw [unsound_append, ← raises_load, readFound, unsound_after, Except.failsWith_bind,
    Except.failsWith_mapError_iff]
  simp only [isRaised_toConfigError, Except.mapError_eq_ok]
  refine or_congr Iff.rfl (exists_congr fun loaded => and_congr_right fun _ => ?_)
  rw [Except.failsWith_bind, Except.failsWith_mapError_iff, unsound_after]
  simp only [Except.mapError_eq_ok]
  -- what goes wrong with the address groups is reported as an invalid configuration
  have hinvalid : ¬ Except.FailsWith (fun e => (ConfigError.invalid
      ("failed to extract address groups: " ++ lib.excText e) pathStr).IsRaised)
      (extractFrom lib loaded.heap loaded.data) := by
    rintro ⟨e, -, h⟩
    exact not_isRaised_invalid h
  rw [or_iff_right hinvalid]
  refine exists_congr fun groups => and_congr_right fun _ => ?_
  rw [Except.failsWith_bind, or_iff_right not_escapes_validateHomeNet, unsound_after]
  refine exists_congr fun homeNet => and_congr_right fun _ => ?_
  exact escapes_rules _

/-- A missing file is reported, and an exception of the system is not. -/
theorem readConfig_eq (pathStr : String) : readConfig lib fs pathStr =
    match existsAsFile fs (PosixPath.parse pathStr) with
    | .error e => .error (.raised e)
    | .ok false =>
      .error (.missing (if fs.pathExists (PosixPath.parse pathStr) = .ok true then
        "configured path is not a file" else "suricata.yaml not found at configured path") pathStr)
    | .ok true =>
      match fs.readBytes (PosixPath.parse pathStr) with
      | .error e => .error (.missing "cannot read suricata.yaml" (pathStr ++ ": " ++ e))
      | .ok _ => readFound lib fs pathStr := by
  unfold readConfig existsAsFile
  dsimp only
  cases fs.pathExists (PosixPath.parse pathStr) with
  | error e => rfl
  | ok present =>
    cases present with
    | false => rfl
    | true =>
      cases fs.isFile (PosixPath.parse pathStr) with
      | error e => rfl
      | ok file =>
        cases file with
        | false => rfl
        | true => rfl

/-- Another exception escapes iff something that `read_config` comes to is not sound. -/
theorem escapes_readConfig (pathStr : String) :
    Except.FailsWith ConfigError.IsRaised (readConfig lib fs pathStr) ↔
      Unsound lib fs (visits lib fs pathStr) := by
  have hprobe : Sound lib fs (.probe (PosixPath.parse pathStr)) ↔
      ∃ file, existsAsFile fs (PosixPath.parse pathStr) = .ok file := existsAsFile_eq_ok_iff.symm
  unfold visits
  dsimp only
  rw [unsound_cons, hprobe, readConfig_eq]
  cases existsAsFile fs (PosixPath.parse pathStr) with
  | error e =>
    rw [Except.failsWith_error]
    refine iff_of_true ⟨e, rfl⟩ (.inl ?_)
    rintro ⟨file, hfile⟩
    contradiction
  | ok file =>
    rw [or_iff_right (not_not_intro ⟨file, rfl⟩)]
    cases file with
    | false =>
      rw [Except.failsWith_error]
      -- no such file: a documented error, and nothing else is come to
      refine iff_of_false not_isRaised_missing ?_
      rw [if_neg (by simp)]
      exact not_unsound_nil
    | true =>
      cases fs.readBytes (PosixPath.parse pathStr) with
      | error e =>
        dsimp only
        rw [Except.failsWith_error]
        refine iff_of_false not_isRaised_missing ?_
        rw [if_neg (by simp [Except.isOk, Except.toBool])]
        exact not_unsound_nil
      | ok bytes =>
        have hfound : (if (Except.ok true : Except PyError Bool) = .ok true ∧
            (Except.ok bytes : Except String (List UInt8)).isOk = true then
              foundVisits lib fs pathStr else []) = foundVisits lib fs pathStr :=
          if_pos (And.intro rfl rfl)
        rw [hfound]
        exact escapes_found pathStr

/-- A configuration that is returned has a HOME_NET. -/
theorem homeNet_ne_nil {pathStr : String} {read : ConfigRead}
    (h : readConfig lib fs pathStr = .ok read) : read.config.homeNet ≠ [] := by
  have hfound : readFound lib fs pathStr = .ok read := by
    rw [readConfig_eq] at h
    split at h
    · contradiction
    · contradiction
    · split at h
      · contradiction
      · exact h
  -- the result is made after `_validate_home_net`, which passes a non-empty list
  obtain ⟨loaded, -, h⟩ := Except.bind_eq_ok.mp hfound
  obtain ⟨groups, -, h⟩ := Except.bind_eq_ok.mp h
  obtain ⟨homeNet, hvalid, h⟩ := Except.bind_eq_ok.mp h
  obtain ⟨paths, -, h⟩ := Except.bind_eq_ok.mp h
  obtain ⟨summaries, -, h⟩ := Except.bind_eq_ok.mp h
  obtain rfl := Except.ok.inj h
  unfold validateHomeNet at hvalid
  split at hvalid
  · contradiction
  · contradiction
  · obtain rfl := Except.ok.inj hvalid
    exact List.cons_ne_nil _ _

/-- `read_config` ends as it says iff everything that it comes to is sound. -/
theorem documented_iff (lib : ReaderLibrary) (fs : FileSystem) (pathStr : String) :
    Documented (readConfig lib fs pathStr) ↔ ∀ v ∈ visits lib fs pathStr, Sound lib fs v := by
  have hescapes : Except.FailsWith ConfigError.IsRaised (readConfig lib fs pathStr) ↔
      Unsound lib fs (visits lib fs pathStr) := escapes_readConfig pathStr
  have hunsound : Unsound lib fs (visits lib fs pathStr) ↔
      ¬ ∀ v ∈ visits lib fs pathStr, Sound lib fs v := by
    unfold Unsound
    push Not
    exact Iff.rfl
  rw [hunsound] at hescapes
  rw [← not_iff_not, ← hescapes]
  cases hread : readConfig lib fs pathStr with
  | ok read =>
    exact iff_of_false (not_not_intro (homeNet_ne_nil hread)) Except.not_failsWith_ok
  | error err =>
    rw [Except.failsWith_error]
    cases err with
    | missing message detail => exact iff_of_false (not_not_intro trivial) not_isRaised_missing
    | invalid message detail => exact iff_of_false (not_not_intro trivial) not_isRaised_invalid
    | raised e => exact iff_of_true not_false ⟨e, rfl⟩

/-! ### Examples -/

/-- The exception that escapes. -/
def escaped : Except ConfigError ConfigRead → Option PyError
  | .error (.raised e) => some e
  | _ => none

/-- An exception that escapes is not a documented end. -/
theorem not_documented {read : Except ConfigError ConfigRead} {e : PyError}
    (h : escaped read = some e) : ¬ Documented read := by
  intro hdocumented
  unfold escaped at h
  split at h
  · exact hdocumented
  · contradiction

/-- A directory with one file. -/
def oneFile (name : String) (bytes : List UInt8) : FileSystem where
  pathExists path := .ok (path = PosixPath.parse name)
  isFile path := .ok (path = PosixPath.parse name)
  readBytes path := if path = PosixPath.parse name then .ok bytes else .error "No such file"
  resolve path := .ok path
  mtime _ := .ok 0

/-- What PyYAML makes of the text `include: 5` and of the empty text. -/
def numberInclude : ReaderLibrary where
  safeLoad text :=
    if text = "include: 5" then .ok ⟨[.dict [(.str "include", .scalar (.int 5))]], .ref 0⟩
    else .ok ⟨[], .scalar .none⟩
  frames _ := 900
  str _ v :=
    match v with
    | .scalar (.str s) => .ok s
    | .scalar (.int n) => .ok (toString n)
    | _ => .ok "None"
  excText := PyError.sampleText

/-- A byte that is no UTF-8, and a number where a path belongs. -/
theorem undecodable_escapes :
    ¬ Documented (readConfig numberInclude (oneFile "suricata.yaml" [0xFF]) "suricata.yaml") ∧
    ¬ Documented (readConfig numberInclude
      (oneFile "suricata.yaml" [105, 110, 99, 108, 117, 100, 101, 58, 32, 53]) "suricata.yaml") :=
  ⟨not_documented (e := .unicodeDecodeError) (by decide +kernel),
    not_documented (e := .typeError) (by decide +kernel)⟩

end Verdix.SuricataParser

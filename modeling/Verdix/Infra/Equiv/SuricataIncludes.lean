import Verdix.Infra.SuricataIncludes

/-!
# What a load goes through

`load_yaml_with_includes` merges what it includes into dictionaries that may be shared.

* `grows_load`: a load keeps the objects that were there, so that the value of `include` has the
  same items as long as it has its size.
* `loadYamlWithIncludes_succ`: the loop over `includes` is therefore one over the items it begins
  with.
* `exists_load_of_includeTexts`, `load_congr`: a load that returned has loaded every path that the
  file includes, and a load reads only the files that the first one leads to.
-/

namespace Verdix.SuricataParser

open PyObject

variable {yaml : YamlLibrary} {fs : FileSystem}

/-! ### Merging -/

theorem kept_mergeItem {merge : Heap → ℕ → ℕ → Except PyError Heap} {heap heap' : Heap} {base : ℕ}
    {item : Scalar × Value}
    (hmerge : ∀ heap base override heap', merge heap base override = .ok heap' →
      IsDict heap base → Kept heap heap')
    (h : mergeItem merge base heap item = .ok heap') (hbase : IsDict heap base) :
    Kept heap heap' := by
  unfold mergeItem at h
  split at h
  · rename_i inner val hinner hval
    obtain ⟨v, -, hv⟩ := Option.bind_eq_some_iff.mp hinner
    exact hmerge heap inner val heap' h (isDict_of_dict? hv).2
  · obtain rfl := Except.ok.inj h
    exact kept_setItem hbase _ _

/-- A merge only adds to dictionaries. -/
theorem kept_deepMerge (frames : ℕ) (heap : Heap) (base override : ℕ) (heap' : Heap)
    (h : deepMerge frames heap base override = .ok heap') (hbase : IsDict heap base) :
    Kept heap heap' := by
  induction frames generalizing heap base override heap' with
  | zero => contradiction
  | succ frames ih =>
    refine forLive_preserves (P := Kept heap) (fun s x t hst hs => ?_) h (.refl heap)
    exact hs.trans (kept_mergeItem ih hst (hbase.kept hs))

/-! ### The beginning of a load -/

/-- The heap and the dictionary of a document without the key `include`, and its value. -/
def opened (heap : Heap) (root : Value) : Option (Heap × ℕ × Value) :=
  (rootDict heap root).map fun r => ((popInclude r.1 r.2).1, r.2, (popInclude r.1 r.2).2)

/-- The items that are included. -/
def includeEntries (heap : Heap) (includes : Value) : Except PyError (List Value) :=
  if truthy heap includes then includeItems heap includes else .ok []

/-- The items that the loop over `includes` sees. -/
def seen (includes : Value) (state : LoadState) : List Value :=
  (includeItems state.1 includes).toOption.getD []

/-- The root of a new document is a new dictionary. -/
theorem rootDict_spec {heap heap' : Heap} {graph : Graph} {data : ℕ}
    (h : rootDict (link heap graph) (graph.root.shift heap.length) = some (heap', data)) :
    Kept heap heap' ∧ IsDict heap' data ∧ heap.length ≤ data := by
  rw [link_eq_relocate] at h
  unfold rootDict at h
  split at h
  · rw [dict?_relocate] at h
    obtain ⟨data', hdata, hpair⟩ := Option.map_eq_some_iff.mp h
    obtain ⟨a, ha, rfl⟩ := Option.map_eq_some_iff.mp hdata
    obtain ⟨rfl, rfl⟩ := Prod.mk.inj hpair
    have hdict : dict? (relocate heap graph.objs) (graph.root.shift heap.length) =
        some (a + heap.length) := by
      rw [dict?_relocate, ha]
      rfl
    exact ⟨kept_append heap _, (isDict_of_dict? hdict).2, Nat.le_add_left _ _⟩
  · obtain ⟨rfl, rfl⟩ := Prod.mk.inj (Option.some.inj h)
    refine ⟨(kept_append heap _).trans (kept_append _ _), ⟨[], ?_⟩, ?_⟩
    · rw [List.getElem?_append_right (Nat.le_refl _), Nat.sub_self]
      rfl
    · rw [length_relocate]
      exact Nat.le_add_left _ _

theorem opened_spec {heap heap' : Heap} {graph : Graph} {data : ℕ} {includes : Value}
    (h : opened (link heap graph) (graph.root.shift heap.length) = some (heap', data, includes)) :
    Kept heap heap' ∧ IsDict heap' data := by
  obtain ⟨⟨heap₁, data₁⟩, hroot, hpop⟩ := Option.map_eq_some_iff.mp h
  obtain ⟨hkept, hdict, hnew⟩ := rootDict_spec hroot
  obtain ⟨rfl, hrest⟩ := Prod.mk.inj hpop
  obtain ⟨rfl, -⟩ := Prod.mk.inj hrest
  exact ⟨kept_popItem hkept hnew _, isDict_popItem hdict _⟩

/-! ### The loop over `includes` -/

/-- A load keeps the objects that it finds, and returns a dictionary. -/
def Grows (load : PosixPath → Heap → Except LoadError Loaded) : Prop :=
  ∀ path heap loaded, load path heap = .ok loaded →
    Kept heap loaded.heap ∧ IsDict loaded.heap loaded.data

section Loop

variable {load : PosixPath → Heap → Except LoadError Loaded} {frames data : ℕ}
  {configPath : PosixPath} {state state' : LoadState} {inc includes : Value} {heap : Heap}
  {items : List Value}

theorem includeOne_eq_ok (h : includeOne fs load frames configPath data state inc = .ok state') :
    ∃ incPath loaded, includePath fs configPath inc = .ok incPath ∧
      load incPath state.1 = .ok loaded ∧
      deepMerge frames loaded.heap data loaded.data = .ok state'.1 := by
  obtain ⟨incPath, hpath, h⟩ := Except.bind_eq_ok.mp h
  obtain ⟨loaded, hload, h⟩ := Except.bind_eq_ok.mp h
  obtain ⟨merged, hmerged, h⟩ := Except.bind_eq_ok.mp h
  obtain rfl := Except.ok.inj h
  exact ⟨incPath, loaded, Except.mapError_eq_ok.mp hpath, hload, Except.mapError_eq_ok.mp hmerged⟩

theorem kept_includeOne (hload : Grows load)
    (h : includeOne fs load frames configPath data state inc = .ok state')
    (hdata : IsDict state.1 data) : Kept state.1 state'.1 := by
  obtain ⟨incPath, loaded, -, hloaded, hmerged⟩ := includeOne_eq_ok h
  obtain ⟨hkept, -⟩ := hload incPath state.1 loaded hloaded
  exact hkept.trans (kept_deepMerge frames _ _ _ _ hmerged (hdata.kept hkept))

/-- The loop keeps the objects, too. -/
theorem kept_round (hload : Grows load) (hdata : IsDict heap data) (s : LoadState) (x : Value)
    (t : LoadState) (h : includeOne fs load frames configPath data s x = .ok t)
    (hs : Kept heap s.1) : Kept heap t.1 :=
  hs.trans (kept_includeOne hload h (hdata.kept hs))

theorem includeItems_kept {heap' : Heap} (h : Kept heap heap')
    (hitems : includeItems heap includes = .ok items) :
    ∃ items', includeItems heap' includes = .ok items' ∧ items <+: items' := by
  unfold includeItems at hitems ⊢
  split at hitems
  · exact ⟨items, hitems, List.prefix_refl _⟩
  · exact iter_kept h hitems

/-- As long as the value has the size that it had, its items are the same. -/
theorem seen_eq (h : Kept heap state.1) (hitems : includeItems heap includes = .ok items)
    (hsize : (seen includes state).length = items.length) : seen includes state = items := by
  obtain ⟨items', hitems', hkept⟩ := includeItems_kept h hitems
  have hseen : seen includes state = items' := by
    rw [seen, hitems']
    rfl
  rw [hseen] at hsize ⊢
  exact (hkept.eq_of_length hsize.symm).symm

theorem forLive_seen (hload : Grows load) (hdata : IsDict heap data)
    (hitems : includeItems heap includes = .ok items) (pathsRead : List String) :
    forLive (seen includes) (.raised .runtimeError) (includeOne fs load frames configPath data)
        (heap, pathsRead) =
      items.foldlM (checkedRound (seen includes) (.raised .runtimeError)
        (includeOne fs load frames configPath data) items.length) (heap, pathsRead) := by
  have hseen : seen includes (heap, pathsRead) = items := by
    rw [seen, hitems]
    rfl
  rw [forLive_eq_foldlM (P := fun s => Kept heap s.1) (kept_round hload hdata) (Kept.refl heap),
    hseen]
  intro s hs hsize
  rw [hseen] at hsize ⊢
  exact seen_eq hs hitems hsize

end Loop

/-! ### A load -/

theorem grows_load (left : ℕ) : Grows (loadYamlWithIncludes yaml fs left) := by
  induction left with
  | zero =>
    intro path heap loaded h
    contradiction
  | succ left ih =>
    intro path heap loaded h
    obtain ⟨graph, -, h⟩ := Except.bind_eq_ok.mp h
    split at h
    · contradiction
    · rename_i heap₁ data hroot
      have hopened : opened (link heap graph) (graph.root.shift heap.length) =
          some ((popInclude heap₁ data).1, data, (popInclude heap₁ data).2) := by
        rw [opened, hroot]
        rfl
      obtain ⟨hkept, hdata⟩ := opened_spec hopened
      dsimp only at h
      split at h
      · obtain ⟨items, -, h⟩ := Except.bind_eq_ok.mp h
        obtain ⟨state, hloop, h⟩ := Except.bind_eq_ok.mp h
        obtain rfl := Except.ok.inj h
        have hstate : Kept (popInclude heap₁ data).1 state.1 :=
          forLive_preserves (P := fun s : LoadState => Kept (popInclude heap₁ data).1 s.1)
            (kept_round ih hdata) hloop (Kept.refl _)
        exact ⟨hkept.trans hstate, hdata.kept hstate⟩
      · obtain rfl := Except.ok.inj h
        exact ⟨hkept, hdata⟩

/-- A load goes through the items of `includes` as they are in the beginning. -/
theorem loadYamlWithIncludes_succ (left : ℕ) (path : PosixPath) (heap : Heap) :
    loadYamlWithIncludes yaml fs (left + 1) path heap = (do
      let graph ← readYaml yaml fs path
      match opened (link heap graph) (graph.root.shift heap.length) with
      | none => .error (.parse (path.str ++ " does not contain a YAML mapping at root"))
      | some (heap, data, includes) => do
        let items ← (includeEntries heap includes).mapError .raised
        let state ← items.foldlM (checkedRound (seen includes) (.raised .runtimeError)
          (includeOne fs (loadYamlWithIncludes yaml fs left) (yaml.frames left) path data)
          items.length) (heap, [path.str])
        return ⟨state.1, data, state.2⟩) := by
  rw [loadYamlWithIncludes]
  refine congrArg (readYaml yaml fs path >>= ·) (funext fun graph => ?_)
  cases hroot : rootDict (link heap graph) (graph.root.shift heap.length) with
  | none =>
    rw [opened, hroot]
    rfl
  | some root =>
    obtain ⟨heap₁, data⟩ := root
    have hopened : opened (link heap graph) (graph.root.shift heap.length) =
        some ((popInclude heap₁ data).1, data, (popInclude heap₁ data).2) := by
      rw [opened, hroot]
      rfl
    obtain ⟨-, hdata⟩ := opened_spec hopened
    rw [hopened]
    dsimp only
    unfold includeEntries
    split
    · cases hitems : includeItems (popInclude heap₁ data).1 (popInclude heap₁ data).2 with
      | error e => rfl
      | ok items =>
        exact congrArg (fun r : Except LoadError LoadState =>
            r >>= fun state => .ok (⟨state.1, data, state.2⟩ : Loaded))
          (forLive_seen (grows_load left) hdata hitems [path.str])
    · rfl

/-! ### What a file includes -/

/-- A path that is a text. -/
def text? : Value → Option String
  | .scalar (.str s) => some s
  | _ => none

/-- The paths that a document includes. -/
def includeTexts (graph : Graph) : List String :=
  match dict? graph.objs graph.root with
  | none => []
  | some data =>
    let (heap, includes) := popInclude graph.objs data
    ((includeEntries heap includes).toOption.getD []).filterMap text?

theorem text?_eq_some_iff {v : Value} {text : String} :
    text? v = some text ↔ v = .scalar (.str text) := by
  unfold text?
  split
  · simp
  · rename_i hnot
    refine iff_of_false (by simp) fun h => hnot text h

theorem mem_filterMap_text? {items : List Value} {text : String} :
    text ∈ items.filterMap text? ↔ .scalar (.str text) ∈ items := by
  simp only [List.mem_filterMap, text?_eq_some_iff, exists_eq_right]

section Relocate

variable (base heap : Heap) (data : ℕ) (v : Value)

theorem text?_shift (k : ℕ) : text? (v.shift k) = text? v := by
  cases v with
  | scalar s => rfl
  | ref a => rfl

theorem includeItems_eq : includeItems heap v =
    match text? v with
    | some s => .ok [.scalar (.str s)]
    | none => iter heap v := by
  cases v with
  | ref a => rfl
  | scalar s =>
    cases s with
    | _ => rfl

theorem includeItems_relocate : includeItems (relocate base heap) (v.shift base.length) =
    (includeItems heap v).map (List.map (Value.shift base.length)) := by
  rw [includeItems_eq, includeItems_eq, text?_shift]
  cases text? v with
  | none => exact iter_relocate base heap v
  | some s => rfl

theorem includeEntries_relocate : includeEntries (relocate base heap) (v.shift base.length) =
    (includeEntries heap v).map (List.map (Value.shift base.length)) := by
  unfold includeEntries
  rw [truthy_relocate]
  split
  · exact includeItems_relocate base heap v
  · rfl

theorem popInclude_relocate : popInclude (relocate base heap) (data + base.length) =
    (relocate base (popInclude heap data).1, (popInclude heap data).2.shift base.length) := by
  unfold popInclude
  rw [popItem_relocate, members_relocate, lookup_map]
  cases lookup (members heap data) (.str "include") with
  | none => rfl
  | some v => rfl

end Relocate

theorem popInclude_of_nil {heap : Heap} {data : ℕ} (h : members heap data = []) :
    (popInclude heap data).2 = .scalar .none := by
  rw [popInclude, h]
  rfl

/-- A dictionary that is false has no members. -/
theorem members_of_not_truthy {heap : Heap} {v : Value} {data : ℕ}
    (hdict : dict? heap v = some data) (h : ¬ truthy heap v = true) : members heap data = [] := by
  obtain ⟨rfl, ms, hms⟩ := isDict_of_dict? hdict
  rw [members, hms]
  rw [truthy, hms] at h
  simpa using h

/-- The texts among the items of a load are the paths that the document includes. -/
theorem mem_includeTexts {heap heap' : Heap} {graph : Graph} {data : ℕ} {includes : Value}
    {items : List Value} {text : String}
    (hopened : opened (link heap graph) (graph.root.shift heap.length) =
      some (heap', data, includes))
    (hitems : includeEntries heap' includes = .ok items) :
    text ∈ includeTexts graph ↔ .scalar (.str text) ∈ items := by
  obtain ⟨⟨heap₁, data₁⟩, hroot, hpop⟩ := Option.map_eq_some_iff.mp hopened
  obtain ⟨rfl, hrest⟩ := Prod.mk.inj hpop
  obtain ⟨rfl, rfl⟩ := Prod.mk.inj hrest
  rw [rootDict, link_eq_relocate, truthy_relocate, dict?_relocate] at hroot
  split at hroot
  · obtain ⟨data', hdata, hpair⟩ := Option.map_eq_some_iff.mp hroot
    obtain ⟨a, ha, rfl⟩ := Option.map_eq_some_iff.mp hdata
    obtain ⟨rfl, rfl⟩ := Prod.mk.inj hpair
    -- the root is a dictionary: its entries are those of the document, moved
    rw [popInclude_relocate, includeEntries_relocate] at hitems
    obtain ⟨items, hentries, rfl⟩ := Except.map_eq_ok.mp hitems
    have htexts : includeTexts graph = items.filterMap text? := by
      rw [includeTexts, ha]
      dsimp only
      rw [hentries]
      rfl
    rw [htexts, mem_filterMap_text?, List.mem_map]
    constructor
    · exact fun h => ⟨_, h, rfl⟩
    · rintro ⟨v, hv, heq⟩
      cases v with
      | scalar s => rwa [← heq]
      | ref b => contradiction
  · rename_i hfalse
    obtain ⟨rfl, rfl⟩ := Prod.mk.inj (Option.some.inj hroot)
    -- an empty document counts as a new dictionary
    have hnew : members (relocate heap graph.objs ++ [.dict []]) (relocate heap graph.objs).length =
        [] := by
      rw [members, List.getElem?_append_right (Nat.le_refl _), Nat.sub_self]
      rfl
    rw [popInclude_of_nil hnew] at hitems
    obtain rfl := Except.ok.inj hitems
    have htexts : includeTexts graph = [] := by
      unfold includeTexts
      cases hdict : dict? graph.objs graph.root with
      | none => rfl
      | some data =>
        dsimp only
        rw [popInclude_of_nil (members_of_not_truthy hdict hfalse)]
        rfl
    rw [htexts]
    exact iff_of_false List.not_mem_nil List.not_mem_nil

/-- A load that returned has loaded everything that the file includes. -/
theorem exists_load_of_includeTexts {left : ℕ} {path : PosixPath} {heap : Heap} {loaded : Loaded}
    (h : loadYamlWithIncludes yaml fs (left + 1) path heap = .ok loaded) :
    ∃ graph, readYaml yaml fs path = .ok graph ∧ ∀ text ∈ includeTexts graph,
      ∃ incPath heap' loaded', fs.resolve (path.parent.joinpath text) = .ok incPath ∧
        loadYamlWithIncludes yaml fs left incPath heap' = .ok loaded' := by
  rw [loadYamlWithIncludes_succ] at h
  obtain ⟨graph, hread, h⟩ := Except.bind_eq_ok.mp h
  refine ⟨graph, hread, fun text htext => ?_⟩
  split at h
  · contradiction
  · rename_i heap₁ data includes hopened
    obtain ⟨items, hitems, h⟩ := Except.bind_eq_ok.mp h
    obtain ⟨state, hloop, -⟩ := Except.bind_eq_ok.mp h
    have hmem : .scalar (.str text) ∈ items :=
      (mem_includeTexts hopened (Except.mapError_eq_ok.mp hitems)).mp htext
    obtain ⟨s, t, hround⟩ := Except.exists_step_of_foldlM hloop hmem
    obtain ⟨incPath, loaded', hpath, hload, -⟩ := includeOne_eq_ok (checkedRound_eq_ok.mp hround).1
    exact ⟨incPath, s.1, loaded', hpath, hload⟩

/-- The files that a file leads to. -/
inductive Reaches (yaml : YamlLibrary) (fs : FileSystem) : PosixPath → PosixPath → Prop
  | refl (path : PosixPath) : Reaches yaml fs path path
  | step {path incPath file : PosixPath} {graph : Graph} {text : String}
      (hread : readYaml yaml fs path = .ok graph) (htext : text ∈ includeTexts graph)
      (hpath : fs.resolve (path.parent.joinpath text) = .ok incPath)
      (h : Reaches yaml fs incPath file) : Reaches yaml fs path file

/-- A load reads only the files that the first one leads to. -/
theorem load_congr {fs' : FileSystem} {left : ℕ} {path : PosixPath} {heap : Heap}
    (hresolve : fs'.resolve = fs.resolve)
    (hread : ∀ file, Reaches yaml fs path file → readYaml yaml fs' file = readYaml yaml fs file) :
    loadYamlWithIncludes yaml fs' left path heap = loadYamlWithIncludes yaml fs left path heap := by
  induction left generalizing path heap with
  | zero => rfl
  | succ left ih =>
    rw [loadYamlWithIncludes_succ, loadYamlWithIncludes_succ, hread path (.refl path)]
    cases hgraph : readYaml yaml fs path with
    | error e =>
      show (.error e : Except LoadError Loaded) = .error e
      rfl
    | ok graph =>
      show (match opened (link heap graph) (graph.root.shift heap.length) with
        | none => _
        | some (heap, data, includes) => _) = match opened (link heap graph) _ with
        | none => _
        | some (heap, data, includes) => _
      cases hopened : opened (link heap graph) (graph.root.shift heap.length) with
      | none => rfl
      | some root =>
        obtain ⟨heap₁, data, includes⟩ := root
        dsimp only
        cases hitems : includeEntries heap₁ includes with
        | error e =>
          show (.error (.raised e) : Except LoadError Loaded) = .error (.raised e)
          rfl
        | ok items =>
          -- a round resolves the same path and loads a file that is reached
          have hround : ∀ (s : LoadState), ∀ inc ∈ items,
              includeOne fs' (loadYamlWithIncludes yaml fs' left) (yaml.frames left) path data s
                  inc =
                includeOne fs (loadYamlWithIncludes yaml fs left) (yaml.frames left) path data s
                  inc := by
            intro s inc hinc
            have hpath : includePath fs' path inc = includePath fs path inc := by
              unfold includePath
              rw [hresolve]
            unfold includeOne
            rw [hpath]
            cases hincPath : includePath fs path inc with
            | error e =>
              show (.error (.raised e) : Except LoadError LoadState) = .error (.raised e)
              rfl
            | ok incPath =>
              unfold includePath at hincPath
              split at hincPath
              · rename_i text
                -- the entry is one of the texts of the file, so its file is reached
                have htext := (mem_includeTexts hopened hitems).mpr hinc
                have hload : loadYamlWithIncludes yaml fs' left incPath s.1 =
                    loadYamlWithIncludes yaml fs left incPath s.1 :=
                  ih fun file hfile => hread file (.step hgraph htext hincPath hfile)
                show (loadYamlWithIncludes yaml fs' left incPath s.1 >>= _) =
                  loadYamlWithIncludes yaml fs left incPath s.1 >>= _
                rw [hload]
              · contradiction
          exact congrArg (fun r : Except LoadError LoadState =>
              r >>= fun state => .ok (⟨state.1, data, state.2⟩ : Loaded))
            (Except.foldlM_congr (fun s inc hinc => checkedRound_congr (hround s inc hinc) _) _)

end Verdix.SuricataParser

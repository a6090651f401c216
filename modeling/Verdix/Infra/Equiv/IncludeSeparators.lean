import Verdix.Infra.Equiv.SuricataIncludes

/-!
# Backslashes in include paths

The deployment guide says that the reader normalises backslash separators in `include:` directives.
`load_yaml_with_includes` joins what it finds to the directory of the file, and a POSIX path has one
separator: where no file has a backslash in its name, the two ways to write a tree give the same
configuration iff the tree does not load at all or no include path in it has a separator
(`sameConfiguration_iff`).

* `includeTexts_backslashIncludes`: what the rewritten file includes.
* `noSeparators_of_load`: a rewritten tree that loads has no separators.
-/

namespace Verdix.SuricataParser

open PyObject

/-! ### Texts -/

/-- The path with backslashes for the separators. -/
def backslash (text : String) : String := PyStr.replaceChar '/' "\\" text

theorem toList_backslash (text : String) :
    (backslash text).toList = text.toList.flatMap fun c => if c = '/' then ['\\'] else [c] := by
  rw [backslash, PyStr.replaceChar, String.toList_ofList]
  rfl

/-- A text without a slash is not changed. -/
theorem backslash_of_not_mem {text : String} (h : '/' ∉ text.toList) : backslash text = text := by
  apply String.toList_inj.mp
  rw [toList_backslash]
  generalize text.toList = cs at h
  induction cs with
  | nil => rfl
  | cons c cs ih =>
    rw [List.mem_cons, not_or] at h
    rw [List.flatMap_cons, if_neg (Ne.symm h.1), ih h.2]
    rfl

/-- No slash is left. -/
theorem not_mem_backslash (text : String) : '/' ∉ (backslash text).toList := by
  rw [toList_backslash, List.mem_flatMap]
  rintro ⟨c, -, h⟩
  split at h
  · simp at h
  · rename_i hc
    exact hc (List.mem_singleton.mp h).symm

theorem mem_backslash {text : String} (h : '/' ∈ text.toList) : '\\' ∈ (backslash text).toList := by
  rw [toList_backslash, List.mem_flatMap]
  exact ⟨'/', h, List.mem_singleton.mpr rfl⟩

/-! ### Documents -/

def backslashScalar : Scalar → Scalar
  | .str s => .str (backslash s)
  | s => s

def backslashValue : Value → Value
  | .scalar s => .scalar (backslashScalar s)
  | .ref address => .ref address

/-- The object with backslashes in its items. -/
def backslashObj : Obj → Obj
  | .list items => .list (items.map backslashValue)
  | .tuple items => .tuple (items.map backslashValue)
  | .dict members => .dict (members.map fun m => (backslashScalar m.1, m.2))
  | .set items => .set (items.map backslashScalar)

/-- The document with backslashes in its include paths. -/
def backslashIncludes (graph : Graph) : Graph :=
  match dict? graph.objs graph.root with
  | none => graph
  | some data =>
    match lookup (members graph.objs data) (.str "include") with
    | none => graph
    | some (.scalar _) =>
      let included := modifyItem (.str "include") backslashValue (members graph.objs data)
      ⟨graph.objs.set data (.dict included), graph.root⟩
    | some (.ref address) => ⟨graph.objs.modify address backslashObj, graph.root⟩

/-- The key `include` has no slash, and no other key becomes it. -/
theorem eq_include_backslash (s : Scalar) :
    (backslashScalar s).eq (.str "include") = s.eq (.str "include") := by
  rw [Bool.eq_iff_iff, Scalar.eq_str_iff, Scalar.eq_str_iff]
  cases s with
  | str t =>
    by_cases ht : '/' ∈ t.toList
    · refine iff_of_false (fun h => ?_) fun h => ?_
      · have hmem := mem_backslash ht
        rw [Scalar.str.inj h] at hmem
        exact absurd hmem (by decide)
      · rw [Scalar.str.inj h] at ht
        exact absurd ht (by decide)
    · rw [backslashScalar, backslash_of_not_mem ht]
  | _ => exact Iff.rfl

theorem lookup_include_backslash (ms : List (Scalar × Value)) :
    lookup (ms.map fun m => (backslashScalar m.1, m.2)) (.str "include") =
      lookup ms (.str "include") := by
  induction ms with
  | nil => rfl
  | cons m ms ih => rw [List.map_cons, lookup_cons, lookup_cons, eq_include_backslash, ih]

theorem eraseP_include_backslash (ms : List (Scalar × Value)) :
    (ms.map fun m => (backslashScalar m.1, m.2)).eraseP (fun m => m.1.eq (.str "include")) =
      (ms.eraseP fun m => m.1.eq (.str "include")).map fun m => (backslashScalar m.1, m.2) := by
  rw [List.eraseP_map]
  have hsame : ((fun m : Scalar × Value => m.1.eq (.str "include")) ∘
      fun m : Scalar × Value => (backslashScalar m.1, m.2)) = fun m => m.1.eq (.str "include") :=
    funext fun m => eq_include_backslash m.1
  rw [hsame]

theorem text?_backslash (v : Value) : text? (backslashValue v) = (text? v).map backslash := by
  cases v with
  | ref a => rfl
  | scalar s =>
    cases s with
    | _ => rfl

theorem filterMap_text?_backslash (items : List Value) :
    (items.map backslashValue).filterMap text? = (items.filterMap text?).map backslash := by
  rw [List.filterMap_map, List.map_filterMap]
  exact List.filterMap_congr fun v _ => text?_backslash v

/-- A loop goes through the rewritten items. -/
theorem items_backslashObj (o : Obj) : (backslashObj o).items = o.items.map backslashValue := by
  cases o with
  | list items => rfl
  | tuple items => rfl
  | dict members => simp [backslashObj, Obj.items, backslashValue]
  | set items => simp [backslashObj, Obj.items, backslashValue]

/-! ### An object with backslashes -/

section Modify

variable (heap : Heap) (address data : ℕ)

theorem getElem?_modify_backslash : (heap.modify address backslashObj)[data]? =
    if address = data then heap[data]?.map backslashObj else heap[data]? := by
  by_cases h : address = data
  · subst h
    rw [if_pos rfl, List.getElem?_modify_eq]
    rfl
  · rw [if_neg h, List.getElem?_modify_ne _ _ h]

theorem dict?_modify (v : Value) : dict? (heap.modify address backslashObj) v = dict? heap v := by
  cases v with
  | scalar s => rfl
  | ref a =>
    simp only [dict?, getElem?_modify_backslash]
    by_cases ha : address = a
    · rw [if_pos ha]
      cases heap[a]? with
      | none => rfl
      | some o =>
        cases o with
        | _ => rfl
    · rw [if_neg ha]

theorem members_modify : members (heap.modify address backslashObj) data =
    if address = data then (members heap data).map fun m => (backslashScalar m.1, m.2)
    else members heap data := by
  simp only [members, getElem?_modify_backslash]
  by_cases ha : address = data
  · rw [if_pos ha, if_pos ha]
    cases heap[data]? with
    | none => rfl
    | some o =>
      cases o with
      | _ => rfl
  · rw [if_neg ha, if_neg ha]

theorem popItem_modify : popItem (heap.modify address backslashObj) data (.str "include") =
    (popItem heap data (.str "include")).modify address backslashObj := by
  unfold popItem
  rw [members_modify]
  apply List.ext_getElem?
  intro i
  rw [getElem?_modify_backslash, List.getElem?_set, List.getElem?_set, List.length_modify,
    getElem?_modify_backslash]
  by_cases hi : data = i
  · subst hi
    by_cases ha : address = data
    · simp only [ha, if_true, eraseP_include_backslash]
      by_cases hlt : data < heap.length
      · rw [if_pos hlt, if_pos hlt]
        rfl
      · rw [if_neg hlt, if_neg hlt]
        rfl
    · simp [ha]
  · simp [hi]

/-- Rewriting the object of the entries and taking out `include` can be done in either order. -/
theorem popInclude_modify : popInclude (heap.modify address backslashObj) data =
    ((popInclude heap data).1.modify address backslashObj, (popInclude heap data).2) := by
  have hlookup : lookup (members (heap.modify address backslashObj) data) (.str "include") =
      lookup (members heap data) (.str "include") := by
    rw [members_modify]
    split
    · exact lookup_include_backslash _
    · rfl
  rw [popInclude, hlookup, popItem_modify]
  rfl

end Modify

theorem includeEntries_ref {heap : Heap} {address : ℕ} {o : Obj} (h : heap[address]? = some o) :
    includeEntries heap (.ref address) = .ok o.items := by
  unfold includeEntries
  split
  · exact iter_ref h
  · rename_i hfalse
    rw [truthy_ref h, not_not] at hfalse
    rw [hfalse]

/-- The entries of the rewritten object are the rewritten entries. -/
theorem includeEntries_modify (heap : Heap) (address : ℕ) :
    includeEntries (heap.modify address backslashObj) (.ref address) =
      (includeEntries heap (.ref address)).map (List.map backslashValue) := by
  cases ho : heap[address]? with
  | none =>
    have hnone : (heap.modify address backslashObj)[address]? = none := by
      rw [getElem?_modify_backslash, if_pos rfl, ho]
      rfl
    simp only [includeEntries, truthy, ho, hnone]
    rfl
  | some o =>
    have hsome : (heap.modify address backslashObj)[address]? = some (backslashObj o) := by
      rw [getElem?_modify_backslash, if_pos rfl, ho]
      rfl
    rw [includeEntries_ref ho, includeEntries_ref hsome, items_backslashObj]
    rfl

/-! ### What a rewritten file includes -/

theorem backslash_eq_empty_iff {text : String} : backslash text = "" ↔ text = "" := by
  constructor
  · intro hempty
    have hsep : '/' ∉ text.toList := by
      intro hmem
      have hback := mem_backslash hmem
      rw [hempty] at hback
      exact absurd hback (by decide)
    rwa [backslash_of_not_mem hsep] at hempty
  · rintro rfl
    exact backslash_of_not_mem (by decide)

theorem truthy_backslashScalar (heap : Heap) (s : Scalar) :
    truthy heap (.scalar (backslashScalar s)) = truthy heap (.scalar s) := by
  cases s with
  | str t => simp [truthy, Scalar.truthy, backslashScalar, backslash_eq_empty_iff]
  | _ => rfl

/-- So they are where `include` is one text. -/
theorem includeEntries_backslashScalar (heap : Heap) (s : Scalar) :
    includeEntries heap (.scalar (backslashScalar s)) =
      (includeEntries heap (.scalar s)).map (List.map backslashValue) := by
  unfold includeEntries
  rw [truthy_backslashScalar]
  split
  · cases s with
    | bytes bs =>
      simp [backslashScalar, includeItems, iter, Except.map, backslashValue, Function.comp_def]
    | _ => rfl
  · rfl

/-- Another value of `include` changes only what is taken out. -/
theorem popInclude_modifyItem {heap : Heap} {data : ℕ} (hdata : IsDict heap data)
    (f : Value → Value) :
    popInclude (heap.set data (.dict (modifyItem (.str "include") f (members heap data)))) data =
      ((popInclude heap data).1,
        ((lookup (members heap data) (.str "include")).map f).getD (.scalar .none)) := by
  obtain ⟨ms, hms⟩ := hdata
  have hnew : members (heap.set data (.dict (modifyItem (.str "include") f (members heap data))))
      data = modifyItem (.str "include") f (members heap data) :=
    members_of_isDict (List.getElem?_set_self (List.getElem?_eq_some_iff.mp hms).1)
  unfold popInclude popItem
  rw [hnew, lookup_modifyItem, eraseP_modifyItem, List.set_set]

theorem includeTexts_of_popInclude {graph : Graph} {data : ℕ} {heap : Heap} {includes : Value}
    (hdict : dict? graph.objs graph.root = some data)
    (hpop : popInclude graph.objs data = (heap, includes)) :
    includeTexts graph = ((includeEntries heap includes).toOption.getD []).filterMap text? := by
  simp only [includeTexts, hdict, hpop]

theorem texts_map_backslash (items : Except PyError (List Value)) :
    ((items.map (List.map backslashValue)).toOption.getD []).filterMap text? =
      ((items.toOption.getD []).filterMap text?).map backslash := by
  cases items with
  | error e => rfl
  | ok items => exact filterMap_text?_backslash items

/-- A rewritten file includes the rewritten paths. -/
theorem includeTexts_backslashIncludes (graph : Graph) :
    includeTexts (backslashIncludes graph) = (includeTexts graph).map backslash := by
  unfold backslashIncludes
  cases hdict : dict? graph.objs graph.root with
  | none =>
    have htexts : includeTexts graph = [] := by
      rw [includeTexts, hdict]
    rw [htexts]
    rfl
  | some data =>
    dsimp only
    obtain ⟨hroot, hdata⟩ := isDict_of_dict? hdict
    cases hlookup : lookup (members graph.objs data) (.str "include") with
    | none =>
      have hpop : popInclude graph.objs data =
          ((popInclude graph.objs data).1, .scalar .none) := by
        rw [popInclude, hlookup]
        rfl
      rw [includeTexts_of_popInclude hdict hpop]
      rfl
    | some v =>
      have hpop : popInclude graph.objs data = ((popInclude graph.objs data).1, v) := by
        rw [popInclude, hlookup]
        rfl
      rw [includeTexts_of_popInclude hdict hpop]
      cases v with
      | scalar s =>
        -- `include` is one value in the dictionary, which is replaced there
        have hpop' := popInclude_modifyItem hdata backslashValue
        rw [hlookup] at hpop'
        have hdict' : dict? (graph.objs.set data
            (.dict (modifyItem (.str "include") backslashValue (members graph.objs data))))
            graph.root = some data := by
          obtain ⟨ms, hms⟩ := hdata
          rw [hroot, dict?, List.getElem?_set_self (List.getElem?_eq_some_iff.mp hms).1]
        rw [includeTexts_of_popInclude hdict' hpop', ← texts_map_backslash]
        exact congrArg (fun items : Except PyError (List Value) =>
          (items.toOption.getD []).filterMap text?) (includeEntries_backslashScalar _ s)
      | ref a =>
        -- `include` is a list of its own, which is rewritten where it is
        have hpop' : popInclude (graph.objs.modify a backslashObj) data =
            ((popInclude graph.objs data).1.modify a backslashObj, .ref a) := by
          rw [popInclude_modify, hpop]
        rw [includeTexts_of_popInclude ((dict?_modify _ _ _).trans hdict) hpop',
          includeEntries_modify, texts_map_backslash]

/-! ### Files without separators -/

theorem backslashValue_of_text? {v : Value} (h : ∀ t, text? v = some t → '/' ∉ t.toList) :
    backslashValue v = v := by
  cases v with
  | ref a => rfl
  | scalar s =>
    cases s with
    | str t => rw [backslashValue, backslashScalar, backslash_of_not_mem (h t rfl)]
    | _ => rfl

theorem backslashObj_of_items {o : Obj} (h : ∀ v ∈ o.items, backslashValue v = v) :
    backslashObj o = o := by
  cases o with
  | list items => exact congrArg Obj.list (List.map_congr_left h |>.trans (List.map_id items))
  | tuple items => exact congrArg Obj.tuple (List.map_congr_left h |>.trans (List.map_id items))
  | dict ms =>
    have hms : ∀ m ∈ ms, (backslashScalar m.1, m.2) = m := by
      intro m hm
      have hkey := h (.scalar m.1) (List.mem_map_of_mem hm)
      rw [Value.scalar.inj hkey]
    exact congrArg Obj.dict (List.map_congr_left hms |>.trans (List.map_id ms))
  | set items =>
    have hitems : ∀ s ∈ items, backslashScalar s = s := fun s hs =>
      Value.scalar.inj (h (.scalar s) (List.mem_map_of_mem hs))
    exact congrArg Obj.set (List.map_congr_left hitems |>.trans (List.map_id items))

/-- An object without a slash is not changed. -/
theorem modify_of_fixed {heap : Heap} {address : ℕ}
    (h : ∀ o, heap[address]? = some o → backslashObj o = o) :
    heap.modify address backslashObj = heap := by
  apply List.ext_getElem?
  intro i
  rw [getElem?_modify_backslash]
  split
  · rename_i hi
    subst hi
    cases ho : heap[address]? with
    | none => rfl
    | some o => exact congrArg some (h o ho)
  · rfl

/-- An object whose paths have no separator is as it was; `include` itself is no path. -/
theorem backslashObj_of_popItem {heap : Heap} {data address : ℕ} {o : Obj}
    (hdata : IsDict heap data) (ho : heap[address]? = some o)
    (h : ∀ items, includeEntries (popItem heap data (.str "include")) (.ref address) = .ok items →
      ∀ text ∈ items.filterMap text?, '/' ∉ text.toList) : backslashObj o = o := by
  have hfixed : ∀ items,
      includeEntries (popItem heap data (.str "include")) (.ref address) = .ok items →
        ∀ v ∈ items, backslashValue v = v := by
    intro items hitems v hv
    apply backslashValue_of_text?
    intro t ht
    exact h items hitems t (List.mem_filterMap.mpr ⟨v, hv, ht⟩)
  by_cases haddress : data = address
  · subst haddress
    obtain ⟨ms, hms⟩ := hdata
    obtain rfl := Option.some.inj (hms.symm.trans ho)
    have hpop : (popItem heap data (.str "include"))[data]? =
        some (.dict (ms.eraseP fun m => m.1.eq (.str "include"))) := by
      rw [popItem, members_of_isDict hms,
        List.getElem?_set_self (List.getElem?_eq_some_iff.mp hms).1]
    refine backslashObj_of_items fun v hv => ?_
    obtain ⟨m, hm, rfl⟩ := List.mem_map.mp hv
    by_cases hkey : m.1.eq (.str "include") = true
    · rw [Scalar.eq_str_iff.mp hkey, backslashValue, backslashScalar,
        backslash_of_not_mem (by decide)]
    · have hleft : m ∈ ms.eraseP fun m => m.1.eq (.str "include") := by
        rw [List.mem_eraseP_of_neg]
        · exact hm
        · exact hkey
      exact hfixed _ (includeEntries_ref hpop) (.scalar m.1) (List.mem_map_of_mem hleft)
  · have hpop : (popItem heap data (.str "include"))[address]? = some o := by
      rwa [popItem, List.getElem?_set_ne haddress]
    exact backslashObj_of_items (hfixed _ (includeEntries_ref hpop))

/-- A file without separators in its include paths has none to write as backslashes. -/
theorem backslashIncludes_of_not_mem {graph : Graph}
    (h : ∀ text ∈ includeTexts graph, '/' ∉ text.toList) : backslashIncludes graph = graph := by
  unfold backslashIncludes
  cases hdict : dict? graph.objs graph.root with
  | none => rfl
  | some data =>
    dsimp only
    obtain ⟨-, hdata⟩ := isDict_of_dict? hdict
    cases hlookup : lookup (members graph.objs data) (.str "include") with
    | none => rfl
    | some v =>
      have hpop : popInclude graph.objs data = (popItem graph.objs data (.str "include"), v) := by
        rw [popInclude, hlookup]
        rfl
      rw [includeTexts_of_popInclude hdict hpop] at h
      -- no entry has a separator
      have hentries : ∀ items,
          includeEntries (popItem graph.objs data (.str "include")) v = .ok items →
            ∀ text ∈ items.filterMap text?, '/' ∉ text.toList := by
        intro items hitems
        rw [hitems] at h
        exact h
      cases v with
      | scalar s =>
        have hfixed : backslashValue (.scalar s) = .scalar s := by
          refine backslashValue_of_text? fun t ht => ?_
          obtain rfl := Value.scalar.inj (text?_eq_some_iff.mp ht)
          -- an empty text is no entry, and is not changed either
          by_cases hempty : t = ""
          · subst hempty
            decide
          · have hone : includeEntries (popItem graph.objs data (.str "include"))
                (.scalar (.str t)) = .ok [.scalar (.str t)] := by
              have htrue : truthy (popItem graph.objs data (.str "include")) (.scalar (.str t)) =
                  true := decide_eq_true hempty
              rw [includeEntries, if_pos htrue]
              rfl
            exact hentries _ hone t (mem_filterMap_text?.mpr (List.mem_singleton_self _))
        obtain ⟨ms, hms⟩ := hdata
        rw [members_of_isDict hms] at hlookup ⊢
        obtain ⟨hlt, hget⟩ := List.getElem?_eq_some_iff.mp hms
        have hset : graph.objs.set data (.dict ms) = graph.objs := by
          rw [← hget]
          exact List.set_getElem_self hlt
        dsimp only
        rw [modifyItem_of_eq _ _ _ hlookup hfixed, hset]
      | ref a =>
        dsimp only
        rw [modify_of_fixed fun o ho => backslashObj_of_popItem hdata ho hentries]

/-! ### Two ways to write a tree -/

section Tree

variable {yaml : YamlLibrary} {fs fs' : FileSystem}

/-- The same files, with backslashes for the separators in their include paths. -/
structure Rewritten (yaml : YamlLibrary) (fs fs' : FileSystem) : Prop where
  sameResolve : fs'.resolve = fs.resolve
  sameFiles : ∀ path, readYaml yaml fs' path = (readYaml yaml fs path).map backslashIncludes

/-- No include path in the files that a file leads to has a separator. -/
def NoSeparators (yaml : YamlLibrary) (fs : FileSystem) (path : PosixPath) : Prop :=
  ∀ file, Reaches yaml fs path file → ∀ graph, readYaml yaml fs file = .ok graph →
    ∀ text ∈ includeTexts graph, '/' ∉ text.toList

/-- No file that can be read has a backslash in its name. -/
def NoBackslashNames (fs : FileSystem) : Prop :=
  ∀ (path : PosixPath) (name : String) (file : PosixPath), path.parts.getLast? = some name →
    '\\' ∈ name.toList → fs.resolve path = .ok file → ∃ e, fs.readBytes file = .error e

/-- The merged configuration, to every depth. -/
def configuration (load : Except LoadError Loaded) : Option (ℕ → View) :=
  load.toOption.map fun loaded depth => view loaded.heap depth (.ref loaded.data)

/-- Without separators there is only one way to write the tree. -/
theorem load_rewritten (h : Rewritten yaml fs fs') {path : PosixPath}
    (hsep : NoSeparators yaml fs path) (left : ℕ) (heap : Heap) :
    loadYamlWithIncludes yaml fs' left path heap = loadYamlWithIncludes yaml fs left path heap := by
  refine load_congr h.sameResolve fun file hfile => ?_
  rw [h.sameFiles]
  cases hgraph : readYaml yaml fs file with
  | error e => rfl
  | ok graph =>
    exact congrArg Except.ok (backslashIncludes_of_not_mem (hsep file hfile graph hgraph))

/-- A load needs a file that can be read. -/
theorem not_load_of_unreadable {left : ℕ} {path : PosixPath} {heap : Heap} {loaded : Loaded}
    (hread : ∀ graph, readYaml yaml fs path ≠ .ok graph) :
    loadYamlWithIncludes yaml fs left path heap ≠ .ok loaded := by
  intro h
  cases left with
  | zero => contradiction
  | succ left =>
    obtain ⟨graph, hgraph, -⟩ := Except.bind_eq_ok.mp h
    exact hread graph hgraph

/-- Where no file has a backslash in its name, a path that had separators leads nowhere. -/
theorem not_load_backslash (h : Rewritten yaml fs fs') (hnames : NoBackslashNames fs)
    {dir incPath : PosixPath} {text : String} (hsep : '/' ∈ text.toList)
    (hpath : fs.resolve (dir.joinpath (backslash text)) = .ok incPath) {left : ℕ} {heap : Heap}
    {loaded : Loaded} : loadYamlWithIncludes yaml fs' left incPath heap ≠ .ok loaded := by
  have hback : '\\' ∈ (backslash text).toList := mem_backslash hsep
  have hempty : backslash text ≠ "" := by
    intro heq
    rw [heq] at hback
    exact absurd hback (by decide)
  have hdot : backslash text ≠ "." := by
    intro heq
    rw [heq] at hback
    exact absurd hback (by decide)
  rw [PosixPath.joinpath_of_not_mem (not_mem_backslash text) hempty hdot] at hpath
  obtain ⟨e, hbytes⟩ := hnames _ (backslash text) incPath List.getLast?_concat hback hpath
  apply not_load_of_unreadable
  intro graph hgraph
  rw [h.sameFiles, readYaml, hbytes] at hgraph
  obtain ⟨graph, herror, -⟩ := Except.map_eq_ok.mp hgraph
  exact nomatch herror

/-- Where no file has a backslash in its name, a rewritten tree that loads has no separators. -/
theorem noSeparators_of_load (h : Rewritten yaml fs fs') (hnames : NoBackslashNames fs) {left : ℕ}
    {path : PosixPath} {heap : Heap} {loaded : Loaded}
    (hload : loadYamlWithIncludes yaml fs' left path heap = .ok loaded) :
    NoSeparators yaml fs path := by
  intro file hreach
  induction left generalizing path heap loaded with
  | zero => contradiction
  | succ left ih =>
    obtain ⟨graph', hgraph', hincluded⟩ := exists_load_of_includeTexts hload
    rw [h.sameFiles] at hgraph'
    obtain ⟨graph, hgraph, rfl⟩ := Except.map_eq_ok.mp hgraph'
    have hrewritten : ∀ text ∈ includeTexts graph, ∃ incPath heap' loaded',
        fs.resolve (path.parent.joinpath (backslash text)) = .ok incPath ∧
          loadYamlWithIncludes yaml fs' left incPath heap' = .ok loaded' := by
      intro text htext
      rw [← h.sameResolve]
      refine hincluded (backslash text) ?_
      rw [includeTexts_backslashIncludes]
      exact List.mem_map_of_mem htext
    have hsep : ∀ text ∈ includeTexts graph, '/' ∉ text.toList := by
      intro text htext hmem
      obtain ⟨incPath, heap', loaded', hpath, hloaded⟩ := hrewritten text htext
      exact not_load_backslash h hnames hmem hpath hloaded
    cases hreach with
    | refl =>
      intro graph₁ hgraph₁
      rwa [← Except.ok.inj (hgraph.symm.trans hgraph₁)]
    | @step _ incPath _ graph₁ text hread htext hpath hrest =>
      obtain rfl := Except.ok.inj (hgraph.symm.trans hread)
      obtain ⟨incPath', heap', loaded', hpath', hloaded⟩ := hrewritten text htext
      rw [backslash_of_not_mem (hsep text htext)] at hpath'
      obtain rfl := Except.ok.inj (hpath.symm.trans hpath')
      exact ih hloaded hrest

/-- A tree without separators in its include paths gives the same configuration when it is written
with backslashes.  Where no file has a backslash in its name, only such a tree does, and one that
does not load either way. -/
theorem sameConfiguration_iff (h : Rewritten yaml fs fs') (left : ℕ) (path : PosixPath)
    (heap : Heap) :
    (NoSeparators yaml fs path →
      configuration (loadYamlWithIncludes yaml fs' left path heap) =
        configuration (loadYamlWithIncludes yaml fs left path heap)) ∧
    (NoBackslashNames fs →
      (configuration (loadYamlWithIncludes yaml fs' left path heap) =
          configuration (loadYamlWithIncludes yaml fs left path heap) ↔
        ((∃ loaded, loadYamlWithIncludes yaml fs left path heap = .ok loaded) →
          NoSeparators yaml fs path))) := by
  have hsame : NoSeparators yaml fs path →
      configuration (loadYamlWithIncludes yaml fs' left path heap) =
        configuration (loadYamlWithIncludes yaml fs left path heap) := fun hsep =>
    congrArg configuration (load_rewritten h hsep left heap)
  refine ⟨hsame, fun hnames => ⟨fun heq => ?_, fun hcond => ?_⟩⟩
  · rintro ⟨loaded, hloaded⟩
    rw [hloaded] at heq
    cases hload : loadYamlWithIncludes yaml fs' left path heap with
    | error e =>
      rw [hload] at heq
      contradiction
    | ok loaded' => exact noSeparators_of_load h hnames hload
  · cases hload : loadYamlWithIncludes yaml fs' left path heap with
    | ok loaded' =>
      rw [← hload]
      exact hsame (noSeparators_of_load h hnames hload)
    | error e =>
      cases hload' : loadYamlWithIncludes yaml fs left path heap with
      | error e' => rfl
      | ok loaded =>
        -- a tree that loads has no separators, so that it loads both ways
        rw [load_rewritten h (hcond ⟨loaded, hload'⟩), hload'] at hload
        contradiction

end Tree

/-! ### Examples -/

/-- `/etc/suricata.yaml`, which includes a file, and `/etc/conf/vars.yaml`. -/
def varsTree (inc : String) : FileSystem where
  pathExists path :=
    .ok (path = PosixPath.parse "/etc/suricata.yaml" ∨ path = PosixPath.parse "/etc/conf/vars.yaml")
  isFile path :=
    .ok (path = PosixPath.parse "/etc/suricata.yaml" ∨ path = PosixPath.parse "/etc/conf/vars.yaml")
  readBytes path :=
    if path = PosixPath.parse "/etc/suricata.yaml" then
      .ok (("include: " ++ inc).toList.map fun c => c.toNat.toUInt8)
    else if path = PosixPath.parse "/etc/conf/vars.yaml" then
      .ok ("vars: home".toList.map fun c => c.toNat.toUInt8)
    else
      .error "No such file or directory"
  resolve path := .ok path
  mtime _ := .ok 0

/-- What PyYAML makes of these files. -/
def varsLibrary : YamlLibrary where
  safeLoad text :=
    if text = "include: conf/vars.yaml" then
      .ok ⟨[.dict [(.str "include", .scalar (.str "conf/vars.yaml"))]], .ref 0⟩
    else if text = "include: conf\\vars.yaml" then
      .ok ⟨[.dict [(.str "include", .scalar (.str "conf\\vars.yaml"))]], .ref 0⟩
    else
      .ok ⟨[.dict [(.str "vars", .scalar (.str "home"))]], .ref 0⟩
  frames _ := 900

theorem rewritten_varsTree :
    Rewritten varsLibrary (varsTree "conf/vars.yaml") (varsTree "conf\\vars.yaml") where
  sameResolve := rfl
  sameFiles path := by
    by_cases hmain : path = PosixPath.parse "/etc/suricata.yaml"
    · subst hmain
      decide +kernel
    · by_cases hvars : path = PosixPath.parse "/etc/conf/vars.yaml"
      · subst hvars
        decide +kernel
      · simp only [readYaml, varsTree, if_neg hmain, if_neg hvars, Except.map]

theorem noBackslashNames_varsTree : NoBackslashNames (varsTree "conf/vars.yaml") := by
  intro path name file hname hback hfile
  obtain rfl := Except.ok.inj hfile
  by_cases hmain : path = PosixPath.parse "/etc/suricata.yaml"
  · subst hmain
    obtain rfl : "suricata.yaml" = name := Option.some.inj hname
    exact absurd hback (by decide)
  · by_cases hvars : path = PosixPath.parse "/etc/conf/vars.yaml"
    · subst hvars
      obtain rfl : "vars.yaml" = name := Option.some.inj hname
      exact absurd hback (by decide)
    · exact ⟨_, (if_neg hmain).trans (if_neg hvars)⟩

/-- With a forward slash the file is found, and with a backslash it is not. -/
theorem separators_not_normalised :
    Rewritten varsLibrary (varsTree "conf/vars.yaml") (varsTree "conf\\vars.yaml") ∧
    configuration (loadYamlWithIncludes varsLibrary (varsTree "conf\\vars.yaml") 6
        (PosixPath.parse "/etc/suricata.yaml") []) ≠
      configuration (loadYamlWithIncludes varsLibrary (varsTree "conf/vars.yaml") 6
        (PosixPath.parse "/etc/suricata.yaml") []) := by
  refine ⟨rewritten_varsTree, fun heq => ?_⟩
  have hforward : (configuration (loadYamlWithIncludes varsLibrary (varsTree "conf/vars.yaml") 6
      (PosixPath.parse "/etc/suricata.yaml") [])).isSome = true := by
    decide +kernel
  rw [← heq] at hforward
  revert hforward
  decide +kernel

/-- So the tree has a separator. -/
theorem sameConfiguration_iff_vars :
    configuration (loadYamlWithIncludes varsLibrary (varsTree "conf\\vars.yaml") 6
        (PosixPath.parse "/etc/suricata.yaml") []) =
      configuration (loadYamlWithIncludes varsLibrary (varsTree "conf/vars.yaml") 6
        (PosixPath.parse "/etc/suricata.yaml") []) ↔
    ((∃ loaded, loadYamlWithIncludes varsLibrary (varsTree "conf/vars.yaml") 6
        (PosixPath.parse "/etc/suricata.yaml") [] = .ok loaded) →
      NoSeparators varsLibrary (varsTree "conf/vars.yaml") (PosixPath.parse "/etc/suricata.yaml")) :=
  (sameConfiguration_iff rewritten_varsTree 6 _ []).2 noBackslashNames_varsTree

end Verdix.SuricataParser

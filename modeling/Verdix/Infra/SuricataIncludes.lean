import Verdix.Lib.PosixPath
import Verdix.Lib.PyObject
import Verdix.Lib.TextFile

/-!
# Loading `suricata.yaml` and the files it includes

`load_yaml_with_includes` and `_deep_merge`.  Every document comes with its own objects; what a merge
takes over from an included file is shared with it, not copied.

The loader of PyYAML and the room on Python's stack are taken as they are: `YamlLibrary`.
-/

namespace Verdix.SuricataParser

open PyObject

/-- How `yaml.safe_load` fails. -/
inductive YamlFailure
  /-- With a `YAMLError`, whose text is given. -/
  | yamlError (text : String)
  | raised (e : PyError)

structure YamlLibrary where
  safeLoad : String → Except YamlFailure Graph
  /-- How many calls of `_deep_merge` may be nested when so many levels of includes are left. -/
  frames : ℕ → ℕ

/-- What the operating system answers. -/
structure FileSystem where
  /-- `path.exists()`. -/
  pathExists : PosixPath → Except PyError Bool
  /-- `path.is_file()`. -/
  isFile : PosixPath → Except PyError Bool
  /-- The bytes of the file, or the text of an `OSError`. -/
  readBytes : PosixPath → Except String (List UInt8)
  /-- `path.resolve()`. -/
  resolve : PosixPath → Except PyError PosixPath
  /-- `path.stat().st_mtime`. -/
  mtime : PosixPath → Except PyError ℚ

/-- What `load_yaml_with_includes` raises. -/
inductive LoadError
  /-- A `ParseError`. -/
  | parse (message : String)
  /-- Another exception, which it does not catch. -/
  | raised (e : PyError)
  deriving DecidableEq

/-- The result of `load_yaml_with_includes`: the heap with the address of the merged dictionary, and the
files that were read. -/
structure Loaded where
  heap : Heap
  data : ℕ
  pathsRead : List String

/-! ### Merging -/

/-- What the loop of `_deep_merge` does for one key, with `merge` for the call of itself. -/
def mergeItem (merge : Heap → ℕ → ℕ → Except PyError Heap) (base : ℕ) (heap : Heap)
    (item : Scalar × Value) : Except PyError Heap :=
  match (lookup (members heap base) item.1).bind (dict? heap), dict? heap item.2 with
  | some inner, some val => merge heap inner val
  | _, _ => .ok (setItem heap base item.1 item.2)

/-- `_deep_merge`, with room for so many nested calls. -/
def deepMerge : ℕ → Heap → ℕ → ℕ → Except PyError Heap
  | 0, _, _, _ => .error .recursionError
  | frames + 1, heap, base, override =>
    forLive (fun heap => members heap override) .runtimeError (mergeItem (deepMerge frames) base) heap

/-! ### Reading a file -/

/-- The first two `try` statements: the document of a file. -/
def readYaml (yaml : YamlLibrary) (fs : FileSystem) (path : PosixPath) : Except LoadError Graph :=
  match fs.readBytes path with
  | .error e => .error (.parse ("cannot read " ++ path.str ++ ": " ++ e))
  | .ok bytes =>
    match TextFile.decodeStrict none bytes with
    | none => .error (.raised .unicodeDecodeError)
    | some raw =>
      match yaml.safeLoad (String.ofList (TextFile.translate false raw)) with
      | .ok graph => .ok graph
      | .error (.yamlError e) =>
        .error (.parse ("YAML parse error in " ++ path.str ++ ": " ++ e))
      | .error (.raised e) => .error (.raised e)

/-- `data or {}` for the root of a document, if it is a dictionary then. -/
def rootDict (heap : Heap) (root : Value) : Option (Heap × ℕ) :=
  if truthy heap root then (dict? heap root).map fun data => (heap, data)
  else some (heap ++ [.dict []], heap.length)

/-- `data.pop("include", None)`: the heap and the value. -/
def popInclude (heap : Heap) (data : ℕ) : Heap × Value :=
  (popItem heap data (.str "include"),
    (lookup (members heap data) (.str "include")).getD (.scalar .none))

/-- The values the loop over `includes` goes through. -/
def includeItems (heap : Heap) (includes : Value) : Except PyError (List Value) :=
  match includes with
  | .scalar (.str s) => .ok [.scalar (.str s)]
  | includes => iter heap includes

/-- `(config_path.parent / inc).resolve()`. -/
def includePath (fs : FileSystem) (configPath : PosixPath) : Value → Except PyError PosixPath
  | .scalar (.str inc) => fs.resolve (configPath.parent.joinpath inc)
  | _ => .error .typeError

/-! ### Includes -/

/-- The heap and `paths_read`. -/
abbrev LoadState := Heap × List String

/-- The body of the loop over `includes`, with `load` for the call of the function itself. -/
def includeOne (fs : FileSystem) (load : PosixPath → Heap → Except LoadError Loaded) (frames : ℕ)
    (configPath : PosixPath) (data : ℕ) (state : LoadState) (inc : Value) :
    Except LoadError LoadState := do
  let incPath ← (includePath fs configPath inc).mapError .raised
  let loaded ← load incPath state.1
  let heap ← (deepMerge frames loaded.heap data loaded.data).mapError .raised
  return (heap, state.2 ++ loaded.pathsRead)

/-- `load_yaml_with_includes`; `left` is 6 less the source's `depth`. -/
def loadYamlWithIncludes (yaml : YamlLibrary) (fs : FileSystem) :
    ℕ → PosixPath → Heap → Except LoadError Loaded
  | 0, path, _ => .error (.parse ("include: depth limit (5) exceeded at " ++ path.str))
  | left + 1, path, heap => do
    let graph ← readYaml yaml fs path
    match rootDict (link heap graph) (graph.root.shift heap.length) with
    | none => .error (.parse (path.str ++ " does not contain a YAML mapping at root"))
    | some (heap, data) =>
      let (heap, includes) := popInclude heap data
      if truthy heap includes then do
        let _ ← (includeItems heap includes).mapError .raised
        let (heap, pathsRead) ← forLive
          (fun state => (includeItems state.1 includes).toOption.getD []) (.raised .runtimeError)
          (includeOne fs (loadYamlWithIncludes yaml fs left) (yaml.frames left) path data)
          (heap, [path.str])
        return ⟨heap, data, pathsRead⟩
      else
        return ⟨heap, data, [path.str]⟩

end Verdix.SuricataParser

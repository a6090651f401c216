import Verdix.Lib.Python
import Verdix.Lib.Split

/-!
# Paths

`pathlib.PosixPath`.  `'/'` is the only separator: a text with backslashes in it names one file
(`parse_of_not_mem`).
-/

/-- The root, which is empty for a relative path, and the names. -/
structure PosixPath where
  root : String
  parts : List String
  deriving DecidableEq

namespace PosixPath

/-- `Path(text)`. -/
def parse (text : String) : PosixPath where
  root :=
    match text.toList with
    | '/' :: '/' :: '/' :: _ => "/"
    | '/' :: '/' :: _ => "//"
    | '/' :: _ => "/"
    | _ => ""
  parts := (PyStr.split '/' text).filter fun part => part ≠ "" ∧ part ≠ "."

/-- `path / text`. -/
def joinpath (path : PosixPath) (text : String) : PosixPath :=
  let other := parse text
  if other.root ≠ "" then other else ⟨path.root, path.parts ++ other.parts⟩

/-- `path.parent`. -/
def parent (path : PosixPath) : PosixPath := ⟨path.root, path.parts.dropLast⟩

/-- `str(path)`. -/
def str (path : PosixPath) : String :=
  if path.root = "" ∧ path.parts = [] then "." else path.root ++ "/".intercalate path.parts

/-- Without a separator the text is one name. -/
theorem parse_of_not_mem {text : String} (hsep : '/' ∉ text.toList) (hempty : text ≠ "")
    (hdot : text ≠ ".") : parse text = ⟨"", [text]⟩ := by
  have hsplit : PyStr.split '/' text = [text] := by
    unfold PyStr.split
    rw [List.splitOn_eq_singleton hsep]
    simp
  have hroot : (parse text).root = "" := by
    show (match text.toList with
      | '/' :: '/' :: '/' :: _ => "/"
      | '/' :: '/' :: _ => "//"
      | '/' :: _ => "/"
      | _ => "") = ""
    split
    · rename_i h
      exact absurd (by rw [h]; exact List.mem_cons_self) hsep
    · rename_i h
      exact absurd (by rw [h]; exact List.mem_cons_self) hsep
    · rename_i h
      exact absurd (by rw [h]; exact List.mem_cons_self) hsep
    · rfl
  have hparts : (parse text).parts = [text] := by
    show (PyStr.split '/' text).filter _ = [text]
    rw [hsplit]
    exact List.filter_cons_of_pos (by simp [hempty, hdot])
  calc parse text = ⟨(parse text).root, (parse text).parts⟩ := rfl
    _ = ⟨"", [text]⟩ := by rw [hroot, hparts]

theorem joinpath_of_not_mem {path : PosixPath} {text : String} (hsep : '/' ∉ text.toList)
    (hempty : text ≠ "") (hdot : text ≠ ".") :
    path.joinpath text = ⟨path.root, path.parts ++ [text]⟩ := by
  unfold joinpath
  rw [parse_of_not_mem hsep hempty hdot]
  rfl

end PosixPath

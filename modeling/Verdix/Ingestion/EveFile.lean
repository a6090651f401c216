import Verdix.Ingestion.Tailer

/-!
# eve.json and its tailer

The file at the path grows, is replaced by a new one under a new inode, and is polled.  A poll may
find no file, fail to read its status, see any size, and fail while it reads the lines; what it
reads is what the file holds.
-/

namespace Verdix

/-- A line with a JSON object; its end is `'\n'` or `'\r\n'`, and its text holds no line end. -/
structure ObjectLine (maxDepth : ℕ) where
  text : List UInt8
  crlf : Bool
  members : List (String × Json)
  one_line : ∀ b ∈ text, b ≠ 0x0A ∧ b ≠ 0x0D
  parses : Json.loads maxDepth (String.ofList (TextFile.decode none text)) = .ok (.obj members)

namespace ObjectLine

variable {maxDepth : ℕ}

/-- The line end. -/
def ending (l : ObjectLine maxDepth) : List UInt8 := if l.crlf then [0x0D, 0x0A] else [0x0A]

/-- The bytes of the line. -/
def bytes (l : ObjectLine maxDepth) : List UInt8 := l.text ++ l.ending

/-- The event `from_dict` makes of the line. -/
def event (l : ObjectLine maxDepth) : EveEvent := EveEvent.ofMembers l.members

end ObjectLine

/-- The file at the path, the inodes of this and all earlier files, and the tailer; `raised` is what
ended the task. -/
structure EveFile where
  contents : List UInt8
  inode : ℕ
  inodes : List ℕ
  tailer : EveTailer
  raised : Option PyError

namespace EveFile

/-- What a poll finds at the path. -/
inductive Seen
  | absent
  | fails (text : String)
  | size (n : ℕ)

/-- What `path.stat()` comes to then. -/
def Seen.stat (inode : ℕ) : Seen → EveTailer.Stat
  | .absent => .fileNotFound
  | .fails text => .osError text
  | .size n => .found n inode

/-- A write to the file, a new file at the path, or a poll; `failure` is where its read fails. -/
inductive Act
  | append (chunk : List UInt8)
  | rotate (inode : ℕ)
  | poll (now : Datetime) (seen : Seen) (failure : Option (ℕ × String))

/-- The tailer has just started. -/
def init (contents : List UInt8) (inode : ℕ) (status : IngestionStatus) : EveFile :=
  ⟨contents, inode, [inode], .start contents inode status, none⟩

def step (maxDepth : ℕ) (s : EveFile) : Act → Option EveFile
  | .append chunk => some { s with contents := s.contents ++ chunk }
  | .rotate inode =>
    -- the old file is kept under another name, so its inode is in use
    if inode ≠ 0 ∧ inode ∉ s.inodes then
      some { s with contents := [], inode := inode, inodes := inode :: s.inodes }
    else none
  | .poll now seen failure =>
    if s.raised = none then
      let r := s.tailer.poll maxDepth now (seen.stat s.inode) ⟨s.contents, failure⟩
      some { s with tailer := r.1, raised := r.2 }
    else none

/-- What has been appended along a run, write by write. -/
def chunks (tr : List (TransitionSystem.Move EveFile Act)) : List (List UInt8) :=
  tr.filterMap fun m => match m.act with
    | .append chunk => some chunk
    | _ => none

end EveFile

end Verdix

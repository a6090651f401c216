import Verdix.Ingestion.Models
import Verdix.Ingestion.Status
import Verdix.Lib.JsonLoads
import Verdix.Lib.Python
import Verdix.Lib.TextFile
import Verdix.Lib.TransitionSystem

/-!
# The tailer of eve.json

`EveTailer` remembers how many bytes it has read.  Every poll reads from there to the end of the
file, parses what it finds line by line and puts the events on the queue.
-/

namespace Verdix

/-- The tailer with everything it has put on its queue so far, oldest first. -/
structure EveTailer where
  position : ℕ
  inode : ℕ
  status : IngestionStatus
  queue : List EveEvent

namespace EveTailer

/-! ### One line -/

/-- The body of the loop over the lines; no event comes from an empty line and from one that is no
JSON text. -/
def handleLine (maxDepth : ℕ) (rawLine : String) : Except PyError (Option EveEvent) :=
  let line := PyStr.rstrip '\n' rawLine
  if line = "" then .ok none
  else match Json.loads maxDepth line with
    | .error .jsonDecodeError => .ok none
    | .error e => .error e
    | .ok data => (EveEvent.fromDict data).map some

/-- The events of the lines, up to the first that raises, and what it raises. -/
def handleLines (maxDepth : ℕ) : List String → List EveEvent × Option PyError
  | [] => ([], none)
  | rawLine :: rawLines =>
    match handleLine maxDepth rawLine with
    | .error e => ([], some e)
    | .ok event =>
      let r := handleLines maxDepth rawLines
      (event.toList ++ r.1, r.2)

/-! ### One poll -/

/-- What `path.stat()` comes to. -/
inductive Stat
  | fileNotFound
  | osError (text : String)
  | found (size inode : ℕ)

/-- What reading the file comes to: its contents, and the number of lines after which the read
fails, with the text of the error, if it does. -/
structure Read where
  contents : List UInt8
  failure : Option (ℕ × String)

/-- `_on_failure`. -/
def onFailure (t : EveTailer) (now : Datetime) (error : String) : EveTailer :=
  { t with status := (t.status.recordFailure now error).1 }

/-- `_on_success`. -/
def onSuccess (t : EveTailer) (now : Datetime) : EveTailer :=
  { t with status := (t.status.recordSuccess now).1 }

/-- `_read_new_lines`, with the exception it raises, if any. -/
def readNewLines (maxDepth : ℕ) (t : EveTailer) (now : Datetime) (read : Read) :
    EveTailer × Option PyError :=
  let rawLines := TextFile.readLines (read.contents.drop t.position)
  match read.failure with
  | none =>
    let (events, raised) := handleLines maxDepth rawLines
    let t' := { t with queue := t.queue ++ events }
    match raised with
    | some e => (t', some e)
    -- the position is read off after the last line
    | none => (onSuccess { t' with position := max t.position read.contents.length } now, none)
  | some (n, error) =>
    let (events, raised) := handleLines maxDepth (rawLines.take n)
    let t' := { t with queue := t.queue ++ events }
    match raised with
    | some e => (t', some e)
    | none => (onFailure t' now error, none)

/-- `_poll`. -/
def poll (maxDepth : ℕ) (t : EveTailer) (now : Datetime) (stat : Stat) (read : Read) :
    EveTailer × Option PyError :=
  match stat with
  | .fileNotFound => (t, none)
  | .osError error => (onFailure t now error, none)
  | .found size inode =>
    let inodeChanged : Bool := inode ≠ 0 ∧ inode ≠ t.inode
    let sizeRegressed : Bool := size < t.position
    let t' := if inodeChanged || sizeRegressed then { t with position := 0, inode := inode } else t
    readNewLines maxDepth t' now read

/-- `run` up to its loop, on a file with these contents. -/
def start (contents : List UInt8) (inode : ℕ) (status : IngestionStatus) : EveTailer :=
  ⟨contents.length, inode, status, []⟩

end EveTailer

/-! ### A tailer and a writer -/

/-- A file that only grows, and the tailer on it; `raised` is what ended the task. -/
structure Tailing where
  contents : List UInt8
  tailer : EveTailer
  raised : Option PyError

namespace Tailing

inductive Act
  | write (chunk : List UInt8)
  | poll (now : Datetime)

def init (contents : List UInt8) (inode : ℕ) (status : IngestionStatus) : Tailing :=
  ⟨contents, .start contents inode status, none⟩

/-- A chunk is written, or a poll sees the file as it is. -/
def step (maxDepth : ℕ) (s : Tailing) : Act → Option Tailing
  | .write chunk => some { s with contents := s.contents ++ chunk }
  | .poll now =>
    if s.raised = none then
      let r := s.tailer.poll maxDepth now (.found s.contents.length s.tailer.inode) ⟨s.contents, none⟩
      some { s with tailer := r.1, raised := r.2 }
    else none

end Tailing

end Verdix

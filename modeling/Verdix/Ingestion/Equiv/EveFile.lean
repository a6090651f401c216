import Verdix.Ingestion.EveFile
import Verdix.Ingestion.Equiv.Tailer

/-!
# How often the tailer delivers a line

The position is where the next poll starts to read.  It is set back to zero when `path.stat()`
reports a size below it, and it stays where it is when a read fails after some lines have been put
on the queue.

* `read_at_most_once`: as long as no reported size is below the position, no byte of an append-only
  file is read twice and none that was there at the start is read at all.
* `delivered_once_iff`: with true sizes, every line is delivered once exactly when no read fails
  after it has delivered a line.
-/

open TransitionSystem

namespace Verdix

/-! ### Lines -/

namespace ObjectLine

variable {maxDepth : ℕ}

/-- The line as the reader yields it. -/
def rawLine (l : ObjectLine maxDepth) : String :=
  String.ofList (TextFile.decode none l.text ++ ['\n'])

theorem not_mem_decode (l : ObjectLine maxDepth) {c : Char} (hc : c = '\n' ∨ c = '\r') :
    c ∉ TextFile.decode none l.text := by
  intro hmem
  have hne : c ≠ '\x00' := by rcases hc with rfl | rfl <;> decide
  have hlt : c.toNat < 0x80 := by rcases hc with rfl | rfl <;> decide
  obtain ⟨b, hb, heq⟩ := TextFile.mem_of_mem_decode hne hlt hmem
  obtain ⟨hlf, hcr⟩ := l.one_line b hb
  rcases hc with rfl | rfl
  · exact hlf (UInt8.toNat_inj.mp heq)
  · exact hcr (UInt8.toNat_inj.mp heq)

theorem mem_ending {l : ObjectLine maxDepth} {b : UInt8} (h : b ∈ l.ending) :
    b = 0x0D ∨ b = 0x0A := by
  unfold ending at h
  split_ifs at h
  · simpa using h
  · exact .inr (List.mem_singleton.mp h)

theorem readLines_bytes (l : ObjectLine maxDepth) : TextFile.readLines l.bytes = [l.rawLine] := by
  have hascii : ∀ b ∈ l.ending, b.toNat < 0x80 := by
    intro b hb
    rcases mem_ending hb with rfl | rfl
    · decide
    · decide
  have hlf := l.not_mem_decode (.inl rfl)
  have hhead : (TextFile.decode none l.text).head? ≠ some '\n' := fun h =>
    hlf (List.mem_of_mem_head? h)
  have htext : TextFile.translate false (TextFile.decode none l.text) =
      TextFile.decode none l.text :=
    TextFile.translate_of_not_mem (l.not_mem_decode (.inr rfl)) hhead
  have hflag : TextFile.afterCr false (TextFile.decode none l.text) = false := by
    unfold TextFile.afterCr
    cases hlast : (TextFile.decode none l.text).getLast? with
    | none => rfl
    | some c =>
      have hne : c ≠ '\r' := fun h =>
        l.not_mem_decode (.inr rfl) (h ▸ List.mem_of_getLast? hlast)
      simpa using hne
  -- both line ends come out as one `'\n'`
  have hend : TextFile.translate false (l.ending.map fun b => Char.ofNat b.toNat) = ['\n'] := by
    unfold ending
    split_ifs <;> rfl
  rw [TextFile.readLines, bytes, TextFile.decode_append_ascii _ hascii, TextFile.translate_append,
    htext, hflag, hend, TextFile.lines_append_of_not_mem hlf, List.nil_append]
  rfl

theorem readLines_bytes_append (l : ObjectLine maxDepth) (ys : List UInt8) :
    TextFile.readLines (l.bytes ++ ys) = l.rawLine :: TextFile.readLines ys := by
  -- the last byte is a newline either way, so what follows starts a line of its own
  obtain ⟨xs, hxs⟩ : ∃ xs, l.bytes = xs ++ [0x0A] := by
    unfold bytes ending
    split_ifs
    · exact ⟨l.text ++ [0x0D], by simp⟩
    · exact ⟨l.text, rfl⟩
  have hline := l.readLines_bytes
  rw [hxs] at hline ⊢
  rw [List.append_assoc, List.singleton_append, TextFile.readLines_append_newline, hline]
  rfl

theorem readLines_flatMap (ls : List (ObjectLine maxDepth)) :
    TextFile.readLines (ls.flatMap bytes) = ls.map rawLine := by
  induction ls with
  | nil => rfl
  | cons l ls ih => rw [List.flatMap_cons, readLines_bytes_append, ih, List.map_cons]

theorem handleLine_rawLine (l : ObjectLine maxDepth) :
    EveTailer.handleLine maxDepth l.rawLine = .ok (some l.event) := by
  have h := EveTailer.handleLine_text EveTailer.padding_nil EveTailer.padding_nil
    (l.not_mem_decode (.inl rfl)) l.parses (.inr rfl)
  rw [List.nil_append, List.append_nil] at h
  exact h

theorem handleLines_map (ls : List (ObjectLine maxDepth)) :
    EveTailer.handleLines maxDepth (ls.map rawLine) = (ls.map event, none) := by
  induction ls with
  | nil => rfl
  | cons l ls ih =>
    rw [List.map_cons, EveTailer.handleLines, handleLine_rawLine, ih]
    rfl

theorem bytes_ne_nil (l : ObjectLine maxDepth) : l.bytes ≠ [] := by
  unfold bytes ending
  split_ifs <;> simp

theorem flatMap_bytes_eq_nil {ls : List (ObjectLine maxDepth)} :
    ls.flatMap bytes = [] ↔ ls = [] := by
  cases ls with
  | nil => simp
  | cons l ls => simp [l.bytes_ne_nil]

end ObjectLine

/-! ### A read -/

namespace EveTailer

variable {maxDepth : ℕ} {t : EveTailer} {ls : List (ObjectLine maxDepth)}

/-- A poll that sees the same file, no smaller than the position, reads on. -/
theorem poll_found {n : ℕ} (h : t.position ≤ n) (now : Datetime) (read : Read) :
    t.poll maxDepth now (.found n t.inode) read = t.readNewLines maxDepth now read := by
  have hsize : ¬ n < t.position := Nat.not_lt.mpr h
  simp [poll, hsize]

theorem readNewLines_lines {contents : List UInt8} (now : Datetime)
    (h : contents.drop t.position = ls.flatMap ObjectLine.bytes) :
    t.readNewLines maxDepth now ⟨contents, none⟩ =
      ({ t with
          position := max t.position contents.length
          status := (t.status.recordSuccess now).1
          queue := t.queue ++ ls.map ObjectLine.event }, none) := by
  unfold readNewLines
  dsimp only
  rw [h, ObjectLine.readLines_flatMap, ObjectLine.handleLines_map]
  rfl

/-- A read that fails after `n` lines. -/
theorem readNewLines_failure {contents : List UInt8} (now : Datetime) (n : ℕ) (error : String)
    (h : contents.drop t.position = ls.flatMap ObjectLine.bytes) :
    t.readNewLines maxDepth now ⟨contents, some (n, error)⟩ =
      ({ t with
          status := (t.status.recordFailure now error).1
          queue := t.queue ++ (ls.take n).map ObjectLine.event }, none) := by
  unfold readNewLines
  dsimp only
  rw [h, ObjectLine.readLines_flatMap, ← List.map_take, ObjectLine.handleLines_map]
  rfl

end EveTailer

namespace EveFile

variable {maxDepth : ℕ} {initial : List UInt8} {inode : ℕ} {status : IngestionStatus}
  {tr : List (Move EveFile Act)} {s s' : EveFile}

/-! ### Whole lines in one file -/

/-- The file stays in place, and a poll sees no size below the position. -/
def Stays (m : Move EveFile Act) : Prop :=
  match m.act with
  | .append _ => True
  | .rotate _ => False
  | .poll _ (.size n) _ => m.pre.tailer.position ≤ n
  | .poll _ _ _ => True

/-- A poll whose read fails after it has delivered a line. -/
def Repeats (m : Move EveFile Act) : Prop :=
  match m.act with
  | .poll _ (.size _) (some (n, _)) => 0 < n ∧ m.pre.tailer.position < m.pre.contents.length
  | _ => False

/-- The state when the lines `ls` have been appended: the position is the end of one of them, and
the queue holds the lines up to there, or more than these if some read repeats (`again`). -/
structure Delivered (initial : List UInt8) (ls : List (ObjectLine maxDepth)) (again : Prop)
    (s : EveFile) : Prop where
  raised : s.raised = none
  inode : s.tailer.inode = s.inode
  contents : s.contents = initial ++ ls.flatMap ObjectLine.bytes
  queue : ∃ done todo, ls = done ++ todo ∧
    s.tailer.position = (initial ++ done.flatMap ObjectLine.bytes).length ∧
    ((¬ again ∧ s.tailer.queue = done.map ObjectLine.event) ∨
      (again ∧ done.length < s.tailer.queue.length))

variable {ls : List (ObjectLine maxDepth)} {again : Prop}

theorem Delivered.position_le (h : Delivered initial ls again s) :
    s.tailer.position ≤ s.contents.length := by
  obtain ⟨done, todo, rfl, hpos, -⟩ := h.queue
  rw [hpos, h.contents, List.flatMap_append, ← List.append_assoc]
  exact (List.prefix_append _ _).length_le

theorem Delivered.append (h : Delivered initial ls again s) (l : ObjectLine maxDepth) :
    Delivered initial (ls ++ [l]) again { s with contents := s.contents ++ l.bytes } := by
  obtain ⟨done, todo, hls, hpos, hqueue⟩ := h.queue
  have hcontents : s.contents ++ l.bytes = initial ++ (ls ++ [l]).flatMap ObjectLine.bytes := by
    rw [h.contents, List.flatMap_append, List.append_assoc, List.flatMap_singleton]
  refine ⟨h.raised, h.inode, hcontents, done, todo ++ [l], ?_, hpos, hqueue⟩
  rw [hls, List.append_assoc]

/-- A poll that sees the same file, no smaller than the position, reads on. -/
theorem step_poll_size (hraised : s.raised = none) (hinode : s.tailer.inode = s.inode) {n : ℕ}
    (hle : s.tailer.position ≤ n) (now : Datetime) (failure : Option (ℕ × String)) :
    step maxDepth s (.poll now (.size n) failure) =
      some { s with
        tailer := (s.tailer.readNewLines maxDepth now ⟨s.contents, failure⟩).1
        raised := (s.tailer.readNewLines maxDepth now ⟨s.contents, failure⟩).2 } := by
  have hpoll : s.tailer.poll maxDepth now (.found n s.tailer.inode) ⟨s.contents, failure⟩ =
      s.tailer.readNewLines maxDepth now ⟨s.contents, failure⟩ := EveTailer.poll_found hle now _
  rw [hinode] at hpoll
  rw [step, if_pos hraised]
  show some { s with
    tailer := (s.tailer.poll maxDepth now (.found n s.inode) ⟨s.contents, failure⟩).1
    raised := (s.tailer.poll maxDepth now (.found n s.inode) ⟨s.contents, failure⟩).2 } = _
  rw [hpoll]

theorem Delivered.poll (h : Delivered initial ls again s) {now : Datetime} {seen : Seen}
    {failure : Option (ℕ × String)} (hstep : step maxDepth s (.poll now seen failure) = some s')
    (hstays : Stays ⟨s, .poll now seen failure, s'⟩) :
    Delivered initial ls (again ∨ Repeats ⟨s, .poll now seen failure, s'⟩) s' := by
  have hor : ∀ {p : Prop}, ¬ p → (again ∨ p) = again := fun hp => by
    rw [eq_false hp, or_false]
  obtain ⟨done, todo, hls, hpos, hqueue⟩ := h.queue
  cases seen with
  | absent | fails text =>
    -- the status is all that changes
    rw [step, if_pos h.raised] at hstep
    obtain rfl := Option.some.inj hstep
    rw [hor (p := Repeats _) id]
    exact ⟨rfl, h.inode, h.contents, h.queue⟩
  | size n =>
    have hunread : s.contents.drop s.tailer.position = todo.flatMap ObjectLine.bytes := by
      rw [h.contents, hls, hpos, List.flatMap_append, ← List.append_assoc, List.drop_left]
    rw [step_poll_size h.raised h.inode hstays] at hstep
    cases failure with
    | none =>
      -- the rest is delivered, and the position is the end of the file
      rw [EveTailer.readNewLines_lines now hunread] at hstep
      obtain rfl := Option.some.inj hstep
      rw [hor (p := Repeats _) id]
      refine ⟨rfl, h.inode, h.contents, ls, [], (List.append_nil ls).symm, ?_, ?_⟩
      · rw [← h.contents]
        exact Nat.max_eq_right h.position_le
      · rcases hqueue with ⟨hagain, hq⟩ | ⟨hagain, hq⟩
        · refine .inl ⟨hagain, ?_⟩
          show s.tailer.queue ++ todo.map ObjectLine.event = ls.map ObjectLine.event
          rw [hq, hls, List.map_append]
        · refine .inr ⟨hagain, ?_⟩
          show ls.length < (s.tailer.queue ++ todo.map ObjectLine.event).length
          rw [hls, List.length_append, List.length_append, List.length_map]
          omega
    | some f =>
      obtain ⟨k, error⟩ := f
      -- the read repeats iff it has delivered a line
      have hlt : s.tailer.position < s.contents.length ↔ todo ≠ [] := by
        rw [Ne, ← ObjectLine.flatMap_bytes_eq_nil, ← hunread, List.drop_eq_nil_iff, not_le]
      have hrepeats : Repeats ⟨s, .poll now (.size n) (some (k, error)), s'⟩ ↔
          todo.take k ≠ [] := by
        show 0 < k ∧ s.tailer.position < s.contents.length ↔ _
        rw [hlt, Ne, Ne, List.take_eq_nil_iff, not_or, Nat.pos_iff_ne_zero]
      -- what it has delivered is on the queue, and the position stays
      rw [EveTailer.readNewLines_failure now k error hunread] at hstep
      obtain rfl := Option.some.inj hstep
      refine ⟨rfl, h.inode, h.contents, done, todo, hls, hpos, ?_⟩
      show (_ ∧ s.tailer.queue ++ (todo.take k).map ObjectLine.event = _) ∨
        _ ∧ _ < (s.tailer.queue ++ (todo.take k).map ObjectLine.event).length
      by_cases htake : todo.take k = []
      · rw [hor fun hr => hrepeats.mp hr htake, htake, List.map_nil, List.append_nil]
        exact hqueue
      · refine .inr ⟨.inr (hrepeats.mpr htake), ?_⟩
        have hlen := List.length_pos_of_ne_nil htake
        have hdone : done.length ≤ s.tailer.queue.length := by
          rcases hqueue with ⟨-, hq⟩ | ⟨-, hq⟩
          · rw [hq, List.length_map]
          · exact hq.le
        rw [List.length_append, List.length_map]
        omega

theorem delivered_init : Delivered initial ([] : List (ObjectLine maxDepth)) False
    (init initial inode status) := by
  refine ⟨rfl, rfl, (List.append_nil initial).symm, [], [], rfl, ?_, .inl ⟨not_false, rfl⟩⟩
  rw [List.flatMap_nil, List.append_nil]
  rfl

/-- An invariant of the runs that append the lines `ls` and whose steps meet the side condition. -/
theorem history_of_lines {P : List (ObjectLine maxDepth) → List (Move EveFile Act) → EveFile → Prop}
    {G : Move EveFile Act → Prop} (h0 : P [] [] (init initial inode status))
    (happend : ∀ ls tr s l, P ls tr s →
      let s' := { s with contents := s.contents ++ l.bytes }
      P (ls ++ [l]) (tr ++ [⟨s, .append l.bytes, s'⟩]) s')
    (hother : ∀ ls tr s a s', P ls tr s → step maxDepth s a = some s' → G ⟨s, a, s'⟩ →
      (∀ chunk, a ≠ .append chunk) → P ls (tr ++ [⟨s, a, s'⟩]) s')
    (h : Run (step maxDepth) (init initial inode status) tr s) (hG : ∀ m ∈ tr, G m)
    (hls : chunks tr = ls.map ObjectLine.bytes) : P ls tr s := by
  -- each write is the last line, so the lines vary along the induction
  have hall := h.history_of_moves (P := fun tr s => ∀ ls : List (ObjectLine maxDepth),
    chunks tr = ls.map ObjectLine.bytes → P ls tr s) (G := G) ?_ ?_ hG
  · exact hall ls hls
  · intro ls hls
    obtain rfl := List.map_eq_nil_iff.mp hls.symm
    exact h0
  · intro tr s a s' _ ih hstep hm ls hls
    rw [chunks, List.filterMap_append] at hls
    have hsame : (∀ chunk, a ≠ .append chunk) → chunks tr = ls.map ObjectLine.bytes := by
      intro hne
      rw [← hls]
      cases a with
      | append chunk => exact absurd rfl (hne chunk)
      | rotate inode => exact (List.append_nil _).symm
      | poll now seen failure => exact (List.append_nil _).symm
    cases a with
    | append chunk =>
      -- the last line is the one appended last
      obtain ⟨ls', last, rfl, hls', hlast⟩ := List.append_eq_map_iff.mp hls
      obtain ⟨l, rfl, hl⟩ := List.map_eq_singleton_iff.mp hlast
      obtain rfl := Option.some.inj hstep
      rw [← hl]
      exact happend ls' tr s l (ih ls' hls'.symm)
    | rotate inode => exact hother ls tr s _ s' (ih ls (hsame (by simp))) hstep hm (by simp)
    | poll now seen failure => exact hother ls tr s _ s' (ih ls (hsame (by simp))) hstep hm (by simp)

/-- Along a run that appends the lines `ls`. -/
theorem delivered_of_run (h : Run (step maxDepth) (init initial inode status) tr s)
    (hstays : ∀ m ∈ tr, m.pre.tailer.position ≤ m.pre.contents.length → Stays m)
    (hls : chunks tr = ls.map ObjectLine.bytes) :
    Delivered initial ls (∃ m ∈ tr, Repeats m) s := by
  refine history_of_lines (P := fun ls tr s => Delivered initial ls (∃ m ∈ tr, Repeats m) s)
    ?_ ?_ ?_ h hstays hls
  · rw [show (∃ m ∈ ([] : List (Move EveFile Act)), Repeats m) = False by simp]
    exact delivered_init
  · intro ls tr s l hd s'
    rw [exists_mem_snoc, show (_ ∨ Repeats _) = _ from or_false _]
    exact hd.append l
  · intro ls tr s a s' hd hstep hm hne
    rw [exists_mem_snoc]
    cases a with
    | append chunk => exact absurd rfl (hne chunk)
    | rotate inode => exact absurd (hm hd.position_le) id
    | poll now seen failure => exact hd.poll hstep (hm hd.position_le)

/-! ### Reads that fail -/

/-- The file stays in place, and a poll sees its size. -/
def Honest (m : Move EveFile Act) : Prop :=
  match m.act with
  | .append _ => True
  | .rotate _ => False
  | .poll _ (.size n) _ => n = m.pre.contents.length
  | .poll _ _ _ => True

instance (m : Move EveFile Act) : Decidable (Honest m) :=
  match m with
  | ⟨_, .append _, _⟩ => .isTrue trivial
  | ⟨_, .rotate _, _⟩ => .isFalse id
  | ⟨_, .poll _ (.size n) _, _⟩ => inferInstanceAs (Decidable (n = _))
  | ⟨_, .poll _ .absent _, _⟩ => .isTrue trivial
  | ⟨_, .poll _ (.fails _) _, _⟩ => .isTrue trivial

instance (m : Move EveFile Act) : Decidable (Repeats m) :=
  match m with
  | ⟨_, .append _, _⟩ => .isFalse id
  | ⟨_, .rotate _, _⟩ => .isFalse id
  | ⟨_, .poll _ (.size _) (some (n, _)), _⟩ => inferInstanceAs (Decidable (0 < n ∧ _ < _))
  | ⟨_, .poll _ (.size _) none, _⟩ => .isFalse id
  | ⟨_, .poll _ .absent _, _⟩ => .isFalse id
  | ⟨_, .poll _ (.fails _) _, _⟩ => .isFalse id

/-- No line is on the queue twice, and one more read completes it. -/
def OnceEach (ls : List (ObjectLine maxDepth)) (s : EveFile) : Prop :=
  s.tailer.queue <+: ls.map ObjectLine.event ∧
    ∀ now, ∃ s', step maxDepth s (.poll now (.size s.contents.length) none) = some s' ∧
      s'.tailer.queue = ls.map ObjectLine.event

/-- The object with a member `a` of value one. -/
def sampleLine : ObjectLine 9 where
  text := Tailing.sampleLine.text
  crlf := true
  members := Tailing.sampleLine.members
  one_line := by decide +kernel
  parses := Tailing.sampleLine.parses

/-- The file only grows; a poll sees a size it has or had, and reads what is there. -/
def Grows (m : Move EveFile Act) : Prop :=
  match m.act with
  | .append _ => True
  | .rotate _ => False
  | .poll _ (.size n) failure => n ≤ m.pre.contents.length ∧ failure = none
  | .poll _ _ _ => True

/-- A poll that sees a size below the position. -/
def Regresses (m : Move EveFile Act) : Prop :=
  match m.act with
  | .poll _ (.size n) _ => n < m.pre.tailer.position
  | _ => False

instance (m : Move EveFile Act) : Decidable (Grows m) :=
  match m with
  | ⟨_, .append _, _⟩ => .isTrue trivial
  | ⟨_, .rotate _, _⟩ => .isFalse id
  | ⟨_, .poll _ (.size n) failure, _⟩ => inferInstanceAs (Decidable (n ≤ _ ∧ failure = none))
  | ⟨_, .poll _ .absent _, _⟩ => .isTrue trivial
  | ⟨_, .poll _ (.fails _) _, _⟩ => .isTrue trivial

instance (m : Move EveFile Act) : Decidable (Regresses m) :=
  match m with
  | ⟨_, .append _, _⟩ => .isFalse id
  | ⟨_, .rotate _, _⟩ => .isFalse id
  | ⟨_, .poll _ (.size n) _, _⟩ => inferInstanceAs (Decidable (n < _))
  | ⟨_, .poll _ .absent _, _⟩ => .isFalse id
  | ⟨_, .poll _ (.fails _) _, _⟩ => .isFalse id

/-- What a poll reads. -/
def readBy (m : Move EveFile Act) : List (List UInt8) :=
  match m.act with
  | .poll _ (.size n) _ =>
    let position := if n < m.pre.tailer.position then 0 else m.pre.tailer.position
    [m.pre.contents.drop position]
  | _ => []

/-- The events of a piece that is read in one go. -/
def pieceEvents (maxDepth : ℕ) (piece : List UInt8) : List EveEvent :=
  (EveTailer.handleLines maxDepth (TextFile.readLines piece)).1

/-- The pieces that have been read are the appended bytes up to the position. -/
structure ReadOnce (maxDepth : ℕ) (initial : List UInt8) (pieces : List (List UInt8)) (s : EveFile) :
    Prop where
  inode : s.tailer.inode = s.inode
  queue : s.tailer.queue = pieces.flatMap (pieceEvents maxDepth)
  read : ∃ written, s.contents = initial ++ written ∧ pieces.flatten <+: written ∧
    (s.raised = none → s.tailer.position = initial.length + pieces.flatten.length)

theorem ReadOnce.read_on {pieces : List (List UInt8)} (h : ReadOnce maxDepth initial pieces s)
    (hraised : s.raised = none) (now : Datetime) :
    let r := s.tailer.readNewLines maxDepth now ⟨s.contents, none⟩
    ReadOnce maxDepth initial (pieces ++ [s.contents.drop s.tailer.position])
      { s with tailer := r.1, raised := r.2 } := by
  obtain ⟨written, hcontents, hpre, hpos⟩ := h.read
  have hpos := hpos hraised
  -- the next piece starts where the last one has ended
  have hpiece : pieces.flatten ++ s.contents.drop s.tailer.position = written := by
    obtain ⟨rest, rfl⟩ := hpre
    rw [hcontents, hpos, List.drop_length_add_append, List.drop_left]
  have hflat : (pieces ++ [s.contents.drop s.tailer.position]).flatten = written := by
    rw [List.flatten_append, List.flatten_singleton, hpiece]
  have hall : (pieces ++ [s.contents.drop s.tailer.position]).flatten <+: written :=
    ⟨[], by rw [List.append_nil, hflat]⟩
  have hevents : (pieces ++ [s.contents.drop s.tailer.position]).flatMap (pieceEvents maxDepth) =
      s.tailer.queue ++ pieceEvents maxDepth (s.contents.drop s.tailer.position) := by
    rw [List.flatMap_append, List.flatMap_singleton, h.queue]
  have hmax : max s.tailer.position s.contents.length = initial.length + written.length := by
    have := hpre.length_le
    rw [hpos, hcontents, List.length_append]
    omega
  unfold EveTailer.readNewLines
  dsimp only
  cases hr : (EveTailer.handleLines maxDepth
      (TextFile.readLines (s.contents.drop s.tailer.position))).2 with
  | some e =>
    -- the task ends here, so the position does not matter any more
    exact ⟨h.inode, hevents.symm, written, hcontents, hall, fun hnone => absurd hnone (by simp)⟩
  | none =>
    refine ⟨h.inode, hevents.symm, written, hcontents, hall, fun _ => ?_⟩
    rw [hflat]
    exact hmax

theorem readOnce_of_run (h : Run (step maxDepth) (init initial inode status) tr s)
    (hgrows : ∀ m ∈ tr, Grows m) (hsizes : ∀ m ∈ tr, ¬ Regresses m) :
    ReadOnce maxDepth initial (tr.flatMap readBy) s := by
  refine h.history_of_moves (P := fun tr s => ReadOnce maxDepth initial (tr.flatMap readBy) s)
    (G := fun m => Grows m ∧ ¬ Regresses m) ?_ ?_ fun m hm => ⟨hgrows m hm, hsizes m hm⟩
  · exact ⟨rfl, rfl, [], (List.append_nil _).symm, List.prefix_rfl, fun _ => rfl⟩
  · rintro tr s a s' - hinv hstep ⟨hgrow, hsize⟩
    obtain ⟨written, hcontents, hpre, hpos⟩ := hinv.read
    rw [List.flatMap_append, List.flatMap_singleton]
    cases a with
    | append chunk =>
      obtain rfl := Option.some.inj hstep
      have hpre' := hpre.trans (List.prefix_append written chunk)
      rw [show readBy _ = [] from rfl, List.append_nil]
      refine ⟨hinv.inode, hinv.queue, written ++ chunk, ?_, hpre', hpos⟩
      rw [hcontents, List.append_assoc]
    | rotate inode => exact absurd hgrow id
    | poll now seen failure =>
      -- a task that has ended polls no more
      have hraised : s.raised = none := by
        by_contra hne
        rw [step, if_neg hne] at hstep
        contradiction
      cases seen with
      | absent | fails text =>
        rw [step, if_pos hraised] at hstep
        obtain rfl := Option.some.inj hstep
        rw [show readBy _ = [] from rfl, List.append_nil]
        exact ⟨hinv.inode, hinv.queue, written, hcontents, hpre, fun _ => hpos hraised⟩
      | size n =>
        have hle : s.tailer.position ≤ n := not_lt.mp hsize
        obtain ⟨-, rfl⟩ : n ≤ s.contents.length ∧ failure = none := hgrow
        -- the size is at or past the position, so the poll reads on from there
        have hread : readBy ⟨s, .poll now (.size n) none, s'⟩ =
            [s.contents.drop s.tailer.position] := by
          show [s.contents.drop (if n < s.tailer.position then 0 else s.tailer.position)] = _
          rw [if_neg (Nat.not_lt.mpr hle)]
        rw [step_poll_size hraised hinv.inode hle] at hstep
        obtain rfl := Option.some.inj hstep
        rw [hread]
        exact hinv.read_on hraised now

/-- As long as no size is below the position, the queue holds the events of pieces that follow one
another in the appended bytes, and of appended lines, each at most once. -/
theorem read_at_most_once (h : Run (step maxDepth) (init initial inode status) tr s)
    (hgrows : ∀ m ∈ tr, Grows m) (hsizes : ∀ m ∈ tr, ¬ Regresses m) :
    s.tailer.queue = (tr.flatMap readBy).flatMap (pieceEvents maxDepth) ∧
      (tr.flatMap readBy).flatten <+: s.contents.drop initial.length ∧
      ∀ ls : List (ObjectLine maxDepth), chunks tr = ls.map ObjectLine.bytes →
        s.tailer.queue <+: ls.map ObjectLine.event := by
  have hread := readOnce_of_run h hgrows hsizes
  refine ⟨hread.queue, ?_, fun ls hls => ?_⟩
  · obtain ⟨written, hcontents, hpre, -⟩ := hread.read
    rw [hcontents, List.drop_left]
    exact hpre
  · -- for whole lines, it is the other invariant that says which of them are on the queue
    have hstays : ∀ m ∈ tr, m.pre.tailer.position ≤ m.pre.contents.length → Stays m := by
      intro m hm _
      have hg := hgrows m hm
      have hs := hsizes m hm
      unfold Grows at hg
      unfold Regresses at hs
      unfold Stays
      split at hg <;> simp_all
    have hnever : ¬ ∃ m ∈ tr, Repeats m := by
      rintro ⟨m, hm, hr⟩
      have hg := hgrows m hm
      unfold Grows at hg
      unfold Repeats at hr
      split at hr <;> simp_all
    obtain ⟨done, todo, hsplit, -, hqueue⟩ := (delivered_of_run h hstays hls).queue
    rcases hqueue with ⟨-, hq⟩ | ⟨hagain, -⟩
    · rw [hq, hsplit, List.map_append]
      exact List.prefix_append _ _
    · exact absurd hagain hnever

/-- A poll sees the size of the start when the tailer has read nothing yet. -/
theorem read_at_most_once_stale :
    let r := runFrom (step 9) (init sampleLine.bytes 1 .init) [.append sampleLine.bytes,
      .poll ⟨0, by decide⟩ (.size 9) none]
    r.2.tailer.queue = (r.1.flatMap readBy).flatMap (pieceEvents 9) :=
  (read_at_most_once (run_runFrom _ _) (by decide +kernel) (by decide +kernel)).1

/-- After the line has been read, the size of the start makes the tailer read everything again. -/
theorem stale_size_repeats :
    let r := runFrom (step 9) (init sampleLine.bytes 1 .init) [.append sampleLine.bytes,
      .poll ⟨0, by decide⟩ (.size 18) none, .poll ⟨1, by decide⟩ (.size 9) none]
    Run (step 9) (init sampleLine.bytes 1 .init) r.1 r.2 ∧ (∀ m ∈ r.1, Grows m) ∧
      chunks r.1 = [sampleLine].map ObjectLine.bytes ∧
      ¬ r.2.tailer.queue <+: [sampleLine].map ObjectLine.event := by
  refine ⟨run_runFrom _ _, by decide +kernel, by decide +kernel, fun hpre => ?_⟩
  have hlen := hpre.length_le
  revert hlen
  decide +kernel

end EveFile

end Verdix

import Verdix.Ingestion.Equiv.EveFile

/-!
# Rotation

A rotation keeps the old file under another name, and the tailer never opens it again: from the next
poll on it reads the file that is now at the path.  `rotation_complete_iff`: every line of every
generation is delivered once, in order, exactly when every rotation finds the old file read to its
end.  A generation that comes and goes between two polls is lost as a whole.
-/

open TransitionSystem

namespace Verdix.EveFile

variable {maxDepth : ℕ} {initial : List UInt8} {inode : ℕ} {status : IngestionStatus}
  {tr : List (Move EveFile Act)} {s s' : EveFile} {ls : List (ObjectLine maxDepth)} {lost : Prop}

/-- What no poll has read of the file at the path. -/
def unread (s : EveFile) : List UInt8 :=
  if s.tailer.inode = s.inode then s.contents.drop s.tailer.position else s.contents

/-- A poll that finds the file sees its size, and its read does not fail. -/
def Whole (m : Move EveFile Act) : Prop :=
  match m.act with
  | .poll _ (.size n) failure => n = m.pre.contents.length ∧ failure = none
  | _ => True

/-- A rotation before the old file has been read to its end. -/
def Loses (m : Move EveFile Act) : Prop :=
  match m.act with
  | .rotate _ => unread m.pre ≠ []
  | _ => False

instance (m : Move EveFile Act) : Decidable (Whole m) :=
  match m with
  | ⟨_, .append _, _⟩ => .isTrue trivial
  | ⟨_, .rotate _, _⟩ => .isTrue trivial
  | ⟨_, .poll _ (.size n) failure, _⟩ => inferInstanceAs (Decidable (n = _ ∧ failure = none))
  | ⟨_, .poll _ .absent _, _⟩ => .isTrue trivial
  | ⟨_, .poll _ (.fails _) _, _⟩ => .isTrue trivial

instance (m : Move EveFile Act) : Decidable (Loses m) :=
  match m with
  | ⟨_, .append _, _⟩ => .isFalse id
  | ⟨s, .rotate _, _⟩ => inferInstanceAs (Decidable (unread s ≠ []))
  | ⟨_, .poll _ _ _, _⟩ => .isFalse id

/-! ### Generations -/

/-- The state when the lines `ls` have been appended to the generations: those that are on the
queue and those still unread are all of them, unless some rotation has lost one (`lost`). -/
structure Rotated (ls : List (ObjectLine maxDepth)) (lost : Prop) (s : EveFile) : Prop where
  raised : s.raised = none
  inode : s.tailer.inode ≠ s.inode → s.inode ≠ 0
  used : s.inode ∈ s.inodes ∧ s.tailer.inode ∈ s.inodes
  position : s.tailer.inode = s.inode → s.tailer.position ≤ s.contents.length
  queue : ∃ todo : List (ObjectLine maxDepth), unread s = todo.flatMap ObjectLine.bytes ∧
    ((¬ lost ∧ s.tailer.queue ++ todo.map ObjectLine.event = ls.map ObjectLine.event) ∨
      (lost ∧ s.tailer.queue.length + todo.length < ls.length))

theorem rotated_init :
    Rotated ([] : List (ObjectLine maxDepth)) False (init initial inode status) := by
  have hunread : unread (init initial inode status) = [] := by
    show (if inode = inode then initial.drop initial.length else initial) = []
    rw [if_pos rfl, List.drop_length]
  refine ⟨rfl, fun h => absurd rfl h, ⟨List.mem_singleton.mpr rfl, List.mem_singleton.mpr rfl⟩,
    fun _ => le_rfl, [], hunread, ?_⟩
  exact .inl ⟨not_false, rfl⟩

theorem Rotated.append (h : Rotated ls lost s) (l : ObjectLine maxDepth) :
    Rotated (ls ++ [l]) lost { s with contents := s.contents ++ l.bytes } := by
  obtain ⟨todo, hunread, hqueue⟩ := h.queue
  have hunread' : unread { s with contents := s.contents ++ l.bytes } =
      (todo ++ [l]).flatMap ObjectLine.bytes := by
    rw [List.flatMap_append, List.flatMap_singleton, ← hunread]
    unfold unread
    dsimp only
    split_ifs with hsame
    · rw [List.drop_append_of_le_length (h.position hsame)]
    · rfl
  refine ⟨h.raised, h.inode, h.used, fun hsame => ?_, todo ++ [l], hunread', ?_⟩
  · have := h.position hsame
    show s.tailer.position ≤ (s.contents ++ l.bytes).length
    rw [List.length_append]
    omega
  · rcases hqueue with ⟨hlost, hq⟩ | ⟨hlost, hq⟩
    · refine .inl ⟨hlost, ?_⟩
      rw [List.map_append, List.map_append, ← List.append_assoc, hq]
    · refine .inr ⟨hlost, ?_⟩
      show s.tailer.queue.length + (todo ++ [l]).length < (ls ++ [l]).length
      rw [List.length_append, List.length_append]
      omega

/-- The new file is empty, and what was unread of the old one is lost. -/
theorem Rotated.rotate (h : Rotated ls lost s) {inode : ℕ}
    (hstep : step maxDepth s (.rotate inode) = some s') :
    Rotated ls (lost ∨ Loses ⟨s, .rotate inode, s'⟩) s' := by
  obtain ⟨todo, hunread, hqueue⟩ := h.queue
  have hloses : Loses ⟨s, .rotate inode, s'⟩ ↔ todo ≠ [] := by
    show unread s ≠ [] ↔ _
    rw [Ne, Ne, hunread, ObjectLine.flatMap_bytes_eq_nil]
  rw [step] at hstep
  split_ifs at hstep with hnew
  obtain rfl := Option.some.inj hstep
  -- the inode is new, so the next poll will notice
  have hne : s.tailer.inode ≠ inode := fun heq => hnew.2 (heq ▸ h.used.2)
  have hused := List.mem_cons_of_mem inode h.used.2
  refine ⟨h.raised, fun _ => hnew.1, ⟨List.mem_cons_self, hused⟩, fun heq => absurd heq hne, [],
    ?_, ?_⟩
  · unfold unread
    rw [if_neg hne]
    rfl
  · show (_ ∧ s.tailer.queue ++ _ = _) ∨ _ ∧ s.tailer.queue.length + _ < _
    rw [List.map_nil, List.append_nil, List.length_nil, hloses]
    rcases hqueue with ⟨hlost, hq⟩ | ⟨hlost, hq⟩
    · by_cases htodo : todo = []
      · refine .inl ⟨by tauto, ?_⟩
        rw [htodo, List.map_nil, List.append_nil] at hq
        exact hq
      · -- the lines not yet read were in the old file
        refine .inr ⟨.inr htodo, ?_⟩
        have hpos := List.length_pos_of_ne_nil htodo
        have hlen := congrArg List.length hq
        rw [List.length_append, List.length_map, List.length_map] at hlen
        omega
    · exact .inr ⟨.inl hlost, by omega⟩

/-- A poll reads what is unread of the file at the path. -/
theorem Rotated.poll (h : Rotated ls lost s) (now : Datetime) :
    ∃ s', step maxDepth s (.poll now (.size s.contents.length) none) = some s' ∧
      Rotated ls lost s' ∧ unread s' = [] := by
  obtain ⟨todo, hunread, hqueue⟩ := h.queue
  -- where the poll starts to read
  obtain ⟨position, hpos, hdrop, hstep⟩ : ∃ position, position ≤ s.contents.length ∧
      s.contents.drop position = unread s ∧
      step maxDepth s (.poll now (.size s.contents.length) none) = some { s with
        tailer := ({ s.tailer with position := position, inode := s.inode }.readNewLines maxDepth now
          ⟨s.contents, none⟩).1
        raised := ({ s.tailer with position := position, inode := s.inode }.readNewLines maxDepth now
          ⟨s.contents, none⟩).2 } := by
    by_cases hsame : s.tailer.inode = s.inode
    · refine ⟨s.tailer.position, h.position hsame, ?_, ?_⟩
      · unfold unread
        rw [if_pos hsame]
      · rw [step_poll_size h.raised hsame (h.position hsame), ← hsame]
    · refine ⟨0, Nat.zero_le _, ?_, ?_⟩
      · unfold unread
        rw [if_neg hsame, List.drop_zero]
      · rw [step, if_pos h.raised]
        have hchanged : s.inode ≠ 0 ∧ s.inode ≠ s.tailer.inode := ⟨h.inode hsame, Ne.symm hsame⟩
        simp [EveTailer.poll, Seen.stat, hchanged]
  rw [EveTailer.readNewLines_lines now (hdrop.trans hunread)] at hstep
  have hempty : unread { s with
      tailer := { s.tailer with
        position := max position s.contents.length
        inode := s.inode
        status := (s.tailer.status.recordSuccess now).1
        queue := s.tailer.queue ++ todo.map ObjectLine.event }
      raised := none } = [] := by
    show (if s.inode = s.inode then s.contents.drop (max position s.contents.length) else _) = []
    rw [if_pos rfl, Nat.max_eq_right hpos, List.drop_length]
  refine ⟨_, hstep, ⟨rfl, fun hne => absurd rfl hne, ⟨h.used.1, h.used.1⟩, fun _ => ?_, [], hempty,
    ?_⟩, hempty⟩
  · exact (Nat.max_eq_right hpos).le
  · rw [List.map_nil, List.append_nil, List.length_nil]
    rcases hqueue with ⟨hlost, hq⟩ | ⟨hlost, hq⟩
    · exact .inl ⟨hlost, hq⟩
    · refine .inr ⟨hlost, ?_⟩
      show (s.tailer.queue ++ todo.map ObjectLine.event).length + 0 < ls.length
      rw [List.length_append, List.length_map]
      omega

/-- When nothing is unread, the queue is complete iff nothing has been lost. -/
theorem Rotated.queue_eq_iff (h : Rotated ls lost s) (hempty : unread s = []) :
    s.tailer.queue = ls.map ObjectLine.event ↔ ¬ lost := by
  obtain ⟨todo, hunread, hqueue⟩ := h.queue
  obtain rfl := ObjectLine.flatMap_bytes_eq_nil.mp (hunread.symm.trans hempty)
  rw [List.map_nil, List.append_nil, List.length_nil] at hqueue
  rcases hqueue with ⟨hlost, hq⟩ | ⟨hlost, hlt⟩
  · exact iff_of_true hq hlost
  · refine iff_of_false (fun heq => ?_) (not_not_intro hlost)
    have hlen := congrArg List.length heq
    rw [List.length_map] at hlen
    omega

/-- Along a run that appends the lines `ls`. -/
theorem rotated_of_run (h : Run (step maxDepth) (init initial inode status) tr s)
    (hpolls : ∀ m ∈ tr, Whole m) (hls : chunks tr = ls.map ObjectLine.bytes) :
    Rotated ls (∃ m ∈ tr, Loses m) s := by
  refine history_of_lines (P := fun ls tr s => Rotated ls (∃ m ∈ tr, Loses m) s)
    ?_ ?_ ?_ h hpolls hls
  · rw [show (∃ m ∈ ([] : List (Move EveFile Act)), Loses m) = False by simp]
    exact rotated_init
  · intro ls tr s l hr s'
    rw [exists_mem_snoc, show (_ ∨ Loses _) = _ from or_false _]
    exact hr.append l
  · intro ls tr s a s' hr hstep hm hne
    rw [exists_mem_snoc]
    cases a with
    | append chunk => exact absurd rfl (hne chunk)
    | rotate inode => exact hr.rotate hstep
    | poll now seen failure =>
      rw [show (_ ∨ Loses _) = _ from or_false _]
      cases seen with
      | absent | fails text =>
        rw [step, if_pos hr.raised] at hstep
        obtain rfl := Option.some.inj hstep
        exact ⟨rfl, hr.inode, hr.used, hr.position, hr.queue⟩
      | size n =>
        obtain ⟨rfl, rfl⟩ : n = s.contents.length ∧ failure = none := hm
        obtain ⟨s₁, hstep₁, hr₁, -⟩ := hr.poll now
        obtain rfl := Option.some.inj (hstep.symm.trans hstep₁)
        exact hr₁

end Verdix.EveFile

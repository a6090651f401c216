import Verdix.Ingestion.Tailer
import Verdix.Lib.JsonSpace

/-!
# What the tailer delivers

A poll reads whatever bytes are there, the start of an unfinished line included, and never comes
back to them.  `tail_complete`: as long as no poll finds the file ending inside the JSON text of a
line, and no JSON text contains a raw carriage return (which the reader takes for a line end), the
events on the queue are those of the appended lines.  White space around the text may be cut
anywhere, and the line end may be `'\n'` or `'\r\n'`.
-/

open TransitionSystem

namespace Verdix

/-! ### Reading blank text and one JSON text -/

namespace EveTailer

variable {maxDepth : ℕ}

/-- White space without a line end. -/
def Padding (w : List Char) : Prop := ∀ c ∈ w, c = ' ' ∨ c = '\t'

/-- White space and line ends. -/
def Gap (g : List Char) : Prop := ∀ c ∈ g, c = ' ' ∨ c = '\t' ∨ c = '\n'

theorem padding_nil : Padding [] := fun _ h => absurd h List.not_mem_nil

theorem Padding.blank {w : List Char} (h : Padding w) : Json.Blank w := by
  intro c hc
  rcases h c hc with rfl | rfl <;> rfl

theorem Padding.not_mem {w : List Char} (h : Padding w) : '\n' ∉ w := by
  intro hn
  rcases h _ hn with h | h <;> contradiction

theorem Padding.snoc {w : List Char} {c : Char} (h : Padding w) (hc : c = ' ' ∨ c = '\t') :
    Padding (w ++ [c]) := by
  intro d hd
  rcases List.mem_append.mp hd with hd | hd
  · exact h d hd
  · exact List.mem_singleton.mp hd ▸ hc

/-- What the loop takes a line for, whether its end is there or not. -/
theorem rstrip_line {line : List Char} (h : '\n' ∉ line) (ending : List Char)
    (he : ending = [] ∨ ending = ['\n']) :
    PyStr.rstrip '\n' (String.ofList (line ++ ending)) = String.ofList line := by
  have hline : line.reverse.dropWhile (· == '\n') = line.reverse := by
    rw [List.dropWhile_eq_self_iff]
    intro hlen hn
    exact h (List.mem_reverse.mp ((beq_iff_eq.mp hn) ▸ List.getElem_mem hlen))
  unfold PyStr.rstrip
  rw [String.toList_ofList, List.reverse_append]
  rcases he with rfl | rfl
  · rw [List.reverse_nil, List.nil_append, hline, List.reverse_reverse]
  · rw [List.reverse_singleton, List.singleton_append, List.dropWhile_cons_of_pos (by simp), hline,
      List.reverse_reverse]

theorem handleLine_padding {w : List Char} (hw : Padding w) {ending : List Char}
    (he : ending = [] ∨ ending = ['\n']) :
    handleLine maxDepth (String.ofList (w ++ ending)) = .ok none := by
  unfold handleLine
  rw [rstrip_line hw.not_mem ending he]
  dsimp only
  split_ifs
  · rfl
  · rw [Json.loads_blank hw.blank]

theorem handleLine_text {w w' text : List Char} (hw : Padding w) (hw' : Padding w')
    (hn : '\n' ∉ text) {members : List (String × Json)}
    (h : Json.loads maxDepth (String.ofList text) = .ok (.obj members)) {ending : List Char}
    (he : ending = [] ∨ ending = ['\n']) :
    handleLine maxDepth (String.ofList (w ++ text ++ w' ++ ending)) =
      .ok (some (EveEvent.ofMembers members)) := by
  have hnm : '\n' ∉ w ++ text ++ w' := by
    simp [hw.not_mem, hn, hw'.not_mem]
  have hloads := Json.loads_blank_append hw.blank hw'.blank h
  unfold handleLine
  rw [rstrip_line hnm ending he]
  dsimp only
  split_ifs with hnil
  · -- the empty text is no JSON text
    rw [hnil, show ("" : String) = String.ofList [] from rfl,
      Json.loads_blank (by intro c hc; contradiction)] at hloads
    contradiction
  · rw [hloads]
    rfl

/-- The events of a text whose first line has begun with `line`. -/
def emit (maxDepth : ℕ) (line cs : List Char) : List EveEvent × Option PyError :=
  handleLines maxDepth (TextFile.lines line cs)

theorem emit_newline {line : List Char} {event : Option EveEvent}
    (h : handleLine maxDepth (String.ofList (line ++ ['\n'])) = .ok event) (cs : List Char) :
    emit maxDepth line ('\n' :: cs) =
      (event.toList ++ (emit maxDepth [] cs).1, (emit maxDepth [] cs).2) := by
  rw [emit, TextFile.lines, if_pos rfl, handleLines, h]
  rfl

theorem emit_cons {c : Char} (hc : c ≠ '\n') (line cs : List Char) :
    emit maxDepth line (c :: cs) = emit maxDepth (line ++ [c]) cs := by
  rw [emit, TextFile.lines, if_neg hc]
  rfl

/-- Nothing comes from white space. -/
theorem emit_gap {line g : List Char} (hline : Padding line) (hg : Gap g) :
    emit maxDepth line g = ([], none) := by
  induction g generalizing line with
  | nil =>
    rw [emit, TextFile.lines]
    split_ifs
    · rfl
    · have := @handleLine_padding maxDepth _ hline _ (.inl rfl)
      rw [List.append_nil] at this
      rw [handleLines, this]
      rfl
  | cons c g ih =>
    obtain ⟨hc, htl⟩ := List.forall_mem_cons.mp hg
    by_cases hn : c = '\n'
    · subst hn
      rw [emit_newline (handleLine_padding hline (.inr rfl)), ih padding_nil htl]
      rfl
    · rw [emit_cons hn, ih (hline.snoc (by tauto)) htl]

/-- A JSON text on the line, and white space after it. -/
theorem emit_text_gap {w w' text g : List Char} (hw : Padding w) (hw' : Padding w')
    (hn : '\n' ∉ text) {members : List (String × Json)}
    (h : Json.loads maxDepth (String.ofList text) = .ok (.obj members)) (hg : Gap g) :
    emit maxDepth (w ++ text ++ w') g = ([EveEvent.ofMembers members], none) := by
  induction g generalizing w' with
  | nil =>
    have hline := handleLine_text hw hw' hn h (.inl rfl)
    rw [List.append_nil] at hline
    rw [emit, TextFile.lines]
    split_ifs with hnil
    · have hnone := @handleLine_padding maxDepth _ padding_nil _ (.inl rfl)
      rw [hnil, show String.ofList [] = String.ofList ([] ++ []) from rfl, hnone] at hline
      exact absurd (Except.ok.inj hline).symm (Option.some_ne_none _)
    · rw [handleLines, hline]
      rfl
  | cons c g ih =>
    obtain ⟨hc, htl⟩ := List.forall_mem_cons.mp hg
    by_cases hc' : c = '\n'
    · subst hc'
      rw [emit_newline (handleLine_text hw hw' hn h (.inr rfl)),
        emit_gap padding_nil htl]
      rfl
    · rw [emit_cons hc', List.append_assoc, ih (hw'.snoc (by tauto)) htl]

/-- White space, a JSON text, and white space. -/
theorem emit_gap_text_gap {line g text g' : List Char} (hline : Padding line) (hg : Gap g)
    (hn : '\n' ∉ text) {members : List (String × Json)}
    (h : Json.loads maxDepth (String.ofList text) = .ok (.obj members)) (hg' : Gap g') :
    emit maxDepth line (g ++ (text ++ g')) = ([EveEvent.ofMembers members], none) := by
  induction g generalizing line with
  | nil =>
    rw [List.nil_append, emit, TextFile.lines_append_of_not_mem hn]
    have := emit_text_gap hline padding_nil hn h hg'
    rwa [List.append_nil] at this
  | cons c g ih =>
    obtain ⟨hc, htl⟩ := List.forall_mem_cons.mp hg
    rw [List.cons_append]
    by_cases hc' : c = '\n'
    · subst hc'
      rw [emit_newline (handleLine_padding hline (.inr rfl)), ih padding_nil htl]
      rfl
    · rw [emit_cons hc', ih (hline.snoc (by tauto)) htl]

/-- Whole lines are handled before what follows them. -/
theorem handleLines_append {ls ls' : List String} {events : List EveEvent}
    (h : handleLines maxDepth ls = (events, none)) :
    handleLines maxDepth (ls ++ ls') =
      (events ++ (handleLines maxDepth ls').1, (handleLines maxDepth ls').2) := by
  induction ls generalizing events with
  | nil =>
    obtain ⟨rfl, -⟩ := Prod.mk.inj h
    rfl
  | cons l ls ih =>
    rw [handleLines] at h
    rw [List.cons_append, handleLines]
    split at h
    · simp at h
    · obtain ⟨rfl, hnone⟩ := Prod.mk.inj h
      have hls : handleLines maxDepth ls = ((handleLines maxDepth ls).1, none) := by rw [← hnone]
      rw [ih hls]
      simp

/-- A poll of an unrotated file none of whose new lines raises. -/
theorem poll_eq {t : EveTailer} {contents : List UInt8} {events : List EveEvent} (now : Datetime)
    (hpos : t.position ≤ contents.length)
    (h : handleLines maxDepth (TextFile.readLines (contents.drop t.position)) = (events, none)) :
    t.poll maxDepth now (.found contents.length t.inode) ⟨contents, none⟩ =
      ({ t with
          position := contents.length
          status := (t.status.recordSuccess now).1
          queue := t.queue ++ events }, none) := by
  have hsize : ¬ contents.length < t.position := Nat.not_lt.mpr hpos
  have hmax : max t.position contents.length = contents.length := Nat.max_eq_right hpos
  simp [poll, readNewLines, onSuccess, hsize, hmax, h]

/-! ### The same for bytes -/

/-- The bytes of white space and line ends. -/
def ByteGap (g : List UInt8) : Prop := ∀ b ∈ g, b = 0x20 ∨ b = 0x09 ∨ b = 0x0A ∨ b = 0x0D

theorem ByteGap.append {g g' : List UInt8} (h : ByteGap g) (h' : ByteGap g') : ByteGap (g ++ g') :=
  fun b hb => (List.mem_append.mp hb).elim (h b) (h' b)

theorem ByteGap.ascii {g : List UInt8} (h : ByteGap g) : ∀ b ∈ g, b.toNat < 0x80 := by
  intro b hb
  rcases h b hb with rfl | rfl | rfl | rfl <;> decide

/-- With the line ends translated, white space is a gap. -/
theorem ByteGap.translate {g : List UInt8} (h : ByteGap g) (flag : Bool) :
    Gap (TextFile.translate flag (g.map fun b => Char.ofNat b.toNat)) := by
  induction g generalizing flag with
  | nil => exact fun c hc => absurd hc List.not_mem_nil
  | cons b g ih =>
    obtain ⟨hb, hg⟩ := List.forall_mem_cons.mp h
    rw [List.map_cons, TextFile.translate]
    split_ifs with h1 h2
    · exact ih hg _
    · exact List.forall_mem_cons.mpr ⟨.inr (.inr rfl), ih hg _⟩
    · refine List.forall_mem_cons.mpr ⟨?_, ih hg _⟩
      rcases hb with rfl | rfl | rfl | rfl
      · exact .inl rfl
      · exact .inr (.inl rfl)
      · exact .inr (.inr rfl)
      · exact absurd rfl h2

theorem handleLines_gap {g : List UInt8} (hg : ByteGap g) :
    handleLines maxDepth (TextFile.readLines g) = ([], none) := by
  have hdec := TextFile.decode_ascii_append hg.ascii []
  rw [List.append_nil, TextFile.decode, TextFile.finish, List.append_nil] at hdec
  rw [TextFile.readLines, hdec]
  exact emit_gap padding_nil (hg.translate _)

/-- White space, the bytes of a JSON object and white space. -/
theorem handleLines_gap_text_gap {g text g' : List UInt8} (hg : ByteGap g) (hg' : ByteGap g')
    (hn : 0x0A ∉ text) (hr : 0x0D ∉ text) {members : List (String × Json)}
    (h : Json.loads maxDepth (String.ofList (TextFile.decode none text)) = .ok (.obj members)) :
    handleLines maxDepth (TextFile.readLines (g ++ (text ++ g'))) =
      ([EveEvent.ofMembers members], none) := by
  have hn' : '\n' ∉ TextFile.decode none text := by
    intro hmem
    obtain ⟨b, hb, heq⟩ := TextFile.mem_of_mem_decode (by decide) (by decide) hmem
    obtain rfl : b = 0x0A := UInt8.toNat_inj.mp heq
    exact hn hb
  have hr' : '\r' ∉ TextFile.decode none text := by
    intro hmem
    obtain ⟨b, hb, heq⟩ := TextFile.mem_of_mem_decode (by decide) (by decide) hmem
    obtain rfl : b = 0x0D := UInt8.toNat_inj.mp heq
    exact hr hb
  have hhead : (TextFile.decode none text).head? ≠ some '\n' := fun hh =>
    hn' (List.mem_of_mem_head? hh)
  rw [TextFile.readLines, TextFile.decode_ascii_append hg.ascii,
    TextFile.decode_append_ascii text hg'.ascii, TextFile.translate_append,
    TextFile.translate_append, TextFile.translate_of_not_mem hr' hhead]
  exact emit_gap_text_gap padding_nil (hg.translate _) hn' h (hg'.translate _)

end EveTailer

/-! ### Lines and cuts -/

namespace Tailing

/-- A line as the sensor appends it: a JSON object with white space around it. -/
structure Line (maxDepth : ℕ) where
  lead : List UInt8
  text : List UInt8
  trail : List UInt8
  members : List (String × Json)
  lead_blank : ∀ b ∈ lead, b = 0x20 ∨ b = 0x09 ∨ b = 0x0D
  trail_blank : ∀ b ∈ trail, b = 0x20 ∨ b = 0x09 ∨ b = 0x0D
  one_line : 0x0A ∉ text
  parses : Json.loads maxDepth (String.ofList (TextFile.decode none text)) = .ok (.obj members)

variable {maxDepth : ℕ}

namespace Line

/-- What follows the text, up to the line feed. -/
def ending (l : Line maxDepth) : List UInt8 := l.trail ++ [0x0A]

/-- The bytes of the line with its line feed. -/
def bytes (l : Line maxDepth) : List UInt8 := l.lead ++ l.text ++ l.ending

/-- The event `from_dict` makes of the line. -/
def event (l : Line maxDepth) : EveEvent := EveEvent.ofMembers l.members

/-- The line without the white space before its text. -/
def dropLead (l : Line maxDepth) : Line maxDepth :=
  { l with lead := [], lead_blank := fun _ h => absurd h List.not_mem_nil }

theorem length_bytes (l : Line maxDepth) :
    l.bytes.length = l.lead.length + l.text.length + l.ending.length := by
  rw [bytes, List.length_append, List.length_append]

theorem length_dropLead (l : Line maxDepth) :
    l.lead.length + l.dropLead.bytes.length = l.bytes.length := by
  rw [length_bytes, length_bytes, show l.dropLead.lead = [] from rfl,
    show l.dropLead.text = l.text from rfl, show l.dropLead.ending = l.ending from rfl,
    List.length_nil]
  omega

theorem lead_gap (l : Line maxDepth) : EveTailer.ByteGap l.lead := fun b hb => by
  rcases l.lead_blank b hb with h | h | h <;> simp [h]

theorem ending_gap (l : Line maxDepth) : EveTailer.ByteGap l.ending := by
  intro b hb
  rcases List.mem_append.mp hb with hb | hb
  · rcases l.trail_blank b hb with h | h | h <;> simp [h]
  · simp [List.mem_singleton.mp hb]

end Line

/-- The bytes end strictly inside the JSON text of a line when this many of them are there. -/
def InText : List (Line maxDepth) → ℕ → Prop
  | [], _ => False
  | l :: ls, k =>
    (l.lead.length < k ∧ k < l.lead.length + l.text.length) ∨
      (l.bytes.length < k ∧ InText ls (k - l.bytes.length))

instance decidableInText : (ls : List (Line maxDepth)) → (k : ℕ) → Decidable (InText ls k)
  | [], _ => inferInstanceAs (Decidable False)
  | l :: ls, k =>
    have := decidableInText ls (k - l.bytes.length)
    inferInstanceAs (Decidable (_ ∨ _))

theorem not_inText_zero (ls : List (Line maxDepth)) : ¬ InText ls 0 := by
  cases ls with
  | nil => exact id
  | cons l ls =>
    rintro (⟨h, -⟩ | ⟨h, -⟩)
    · exact absurd h (Nat.not_lt_zero _)
    · exact absurd h (Nat.not_lt_zero _)

theorem InText.lt {ls : List (Line maxDepth)} {k : ℕ} (h : InText ls k) :
    k < (ls.flatMap Line.bytes).length := by
  induction ls generalizing k with
  | nil => exact absurd h id
  | cons l ls ih =>
    rw [List.flatMap_cons, List.length_append]
    have := l.length_bytes
    rcases h with ⟨-, h⟩ | ⟨h, h'⟩
    · omega
    · have := ih h'
      omega

/-- What is left of white space and lines after their first bytes, which make up the events
`events`: white space and whole lines. -/
structure Cut (g : List UInt8) (ls : List (Line maxDepth)) (offset : ℕ) (events : List EveEvent)
    (g' : List UInt8) (todo : List (Line maxDepth)) : Prop where
  events : ls.map Line.event = events ++ todo.map Line.event
  rest : (g ++ ls.flatMap Line.bytes).drop offset = g' ++ todo.flatMap Line.bytes
  gap : EveTailer.ByteGap g'
  noReturn : ∀ l ∈ todo, 0x0D ∉ l.text
  inText : ∀ k, InText todo (k - g'.length) → InText ls (offset + k - g.length)

/-- Bytes that end outside the texts of their lines are handled as the events of the texts they
hold. -/
theorem exists_cut {g : List UInt8} (hg : EveTailer.ByteGap g) {ls : List (Line maxDepth)}
    (hcr : ∀ l ∈ ls, 0x0D ∉ l.text) {k : ℕ} (hk : k ≤ (g ++ ls.flatMap Line.bytes).length)
    (hin : ¬ InText ls (k - g.length)) :
    ∃ es g' todo, Cut g ls k es g' todo ∧ EveTailer.handleLines maxDepth
      (TextFile.readLines ((g ++ ls.flatMap Line.bytes).take k)) = (es, none) := by
  have hdrop : ∀ {g : List UInt8} (n : ℕ), EveTailer.ByteGap g → EveTailer.ByteGap (g.drop n) :=
    fun n h b hb => h b (List.mem_of_mem_drop hb)
  have htake : ∀ {g : List UInt8} (n : ℕ), EveTailer.ByteGap g → EveTailer.ByteGap (g.take n) :=
    fun n h b hb => h b (List.mem_of_mem_take hb)
  induction ls generalizing g k with
  | nil =>
    rw [List.flatMap_nil, List.append_nil]
    exact ⟨[], g.drop k, [], ⟨rfl, by simp, hdrop k hg, hcr, fun _ h => absurd h id⟩,
      EveTailer.handleLines_gap (htake k hg)⟩
  | cons l ls ih =>
    obtain ⟨hcr₁, hcr₂⟩ := List.forall_mem_cons.mp hcr
    have hlen := l.length_bytes
    have hlead := hg.append l.lead_gap
    have hp : (g ++ l.lead).length = g.length + l.lead.length := List.length_append
    have hq : (g ++ l.lead ++ l.text).length = g.length + l.lead.length + l.text.length := by
      rw [List.length_append, hp]
    have hsplit : g ++ (l :: ls).flatMap Line.bytes =
        (g ++ l.lead ++ l.text) ++ (l.ending ++ ls.flatMap Line.bytes) := by
      simp [Line.bytes]
    have hflat : (g ++ (l :: ls).flatMap Line.bytes).length =
        (g ++ l.lead ++ l.text).length + (l.ending.length + (ls.flatMap Line.bytes).length) := by
      simp only [hsplit, List.length_append]
    have hline : ∀ {g' : List UInt8}, EveTailer.ByteGap g' → EveTailer.handleLines maxDepth
        (TextFile.readLines (g ++ l.lead ++ l.text ++ g')) = ([l.event], none) := by
      intro g' hg'
      rw [List.append_assoc]
      exact EveTailer.handleLines_gap_text_gap hlead hg' l.one_line hcr₁ l.parses
    rcases Nat.lt_or_ge (g ++ l.lead).length k with hlt | hle
    · have htext : (g ++ l.lead ++ l.text).length ≤ k := by
        by_contra hcut
        exact hin (.inl ⟨by omega, by omega⟩)
      obtain ⟨n, rfl⟩ := Nat.exists_eq_add_of_le htext
      rw [hsplit, List.take_length_add_append]
      rcases Nat.lt_or_ge n l.ending.length with hend | hend
      · -- the cut is before the next line
        refine ⟨[l.event], l.ending.drop n, ls,
          ⟨rfl, ?_, hdrop n l.ending_gap, hcr₂, fun m hm => ?_⟩, ?_⟩
        · rw [hsplit, List.drop_length_add_append, List.drop_append_of_le_length hend.le]
        · have hm0 : m - (l.ending.drop n).length ≠ 0 := fun h0 =>
            not_inText_zero ls (h0 ▸ hm)
          rw [List.length_drop] at hm hm0
          refine .inr ⟨by omega, ?_⟩
          rwa [show (g ++ l.lead ++ l.text).length + n + m - g.length - l.bytes.length =
            m - (l.ending.length - n) by omega]
        · rw [List.take_append_of_le_length hend.le]
          exact hline (htake n l.ending_gap)
      · -- the whole line is there
        obtain ⟨m, rfl⟩ := Nat.exists_eq_add_of_le hend
        have hin' : ¬ InText ls m := by
          intro hm
          have hm0 : m ≠ 0 := fun h0 => not_inText_zero ls (h0 ▸ hm)
          refine hin (.inr ⟨by omega, ?_⟩)
          rwa [show (g ++ l.lead ++ l.text).length + (l.ending.length + m) - g.length -
            l.bytes.length = m by omega]
        obtain ⟨es, g', todo, hcut, hes⟩ := ih (g := []) (fun _ h => absurd h List.not_mem_nil) hcr₂
          (k := m) (by rw [List.nil_append]; omega) (by simpa using hin')
        rw [List.nil_append] at hes
        refine ⟨l.event :: es, g', todo, ⟨?_, ?_, hcut.gap, hcut.noReturn, fun n hn => .inr ?_⟩, ?_⟩
        · rw [List.map_cons, hcut.events, List.cons_append]
        · rw [hsplit, List.drop_length_add_append, List.drop_length_add_append]
          exact hcut.rest
        · have := hcut.inText n hn
          have hn0 : m + n - 0 ≠ 0 := fun h0 => not_inText_zero ls (by
            rw [List.length_nil, h0] at this
            exact this)
          refine ⟨by omega, ?_⟩
          rw [List.length_nil] at this
          rwa [show (g ++ l.lead ++ l.text).length + (l.ending.length + m) + n - g.length -
            l.bytes.length = m + n - 0 by omega]
        · have hbytes : g ++ l.lead ++ l.text ++ (l.ending ++ (ls.flatMap Line.bytes).take m) =
              (g ++ l.lead ++ l.text ++ l.trail) ++ 0x0A :: (ls.flatMap Line.bytes).take m := by
            simp [Line.ending]
          have hwhole : (g ++ l.lead ++ l.text ++ l.trail) ++ [0x0A] =
              g ++ l.lead ++ l.text ++ l.ending := by
            rw [Line.ending, ← List.append_assoc]
          rw [List.take_length_add_append, hbytes, TextFile.readLines_append_newline, hwhole,
            EveTailer.handleLines_append (hline l.ending_gap), hes]
          rfl
    · -- the cut is before the text
      refine ⟨[], (g ++ l.lead).drop k, l.dropLead :: ls, ⟨rfl, ?_, hdrop k hlead, ?_, ?_⟩, ?_⟩
      · rw [hsplit, List.append_assoc, List.drop_append_of_le_length hle]
        rw [List.flatMap_cons, show l.dropLead.bytes = l.text ++ l.ending from rfl,
          List.append_assoc]
      · exact List.forall_mem_cons.mpr ⟨hcr₁, hcr₂⟩
      · intro n hn
        have hlen₂ := l.length_dropLead
        rw [List.length_drop] at hn
        rcases hn with ⟨h1, h2⟩ | ⟨h1, h2⟩
        · simp only [Line.dropLead, List.length_nil] at h1 h2
          exact .inl ⟨by omega, by omega⟩
        · refine .inr ⟨by omega, ?_⟩
          rwa [show k + n - g.length - l.bytes.length =
            n - ((g ++ l.lead).length - k) - l.dropLead.bytes.length by omega]
      · rw [hsplit, List.append_assoc, List.take_append_of_le_length hle]
        exact EveTailer.handleLines_gap (htake k hlead)

/-! ### Polls -/

variable {initial : List UInt8} {ls : List (Line maxDepth)} {s s' : Tailing}

/-- The state when the tailer has read the first `c` appended bytes and these end outside the
texts. -/
structure TailInv (initial : List UInt8) (ls : List (Line maxDepth)) (s : Tailing) : Prop where
  raised : s.raised = none
  cut : ∃ c g todo, c ≤ s.contents.length - initial.length ∧
    s.tailer.position = initial.length + c ∧ Cut [] ls c s.tailer.queue g todo

/-- What a poll does that finds the appended bytes `written`, which begin the bytes of the lines. -/
theorem TailInv.poll (hT : TailInv initial ls s) {written : List UInt8}
    (hcontents : s.contents = initial ++ written) (hpre : written <+: ls.flatMap Line.bytes)
    (hin : ¬ InText ls written.length) (now : Datetime) :
    ∃ s', step maxDepth s (.poll now) = some s' ∧ s'.contents = s.contents ∧ s'.raised = none ∧
      s'.tailer.position = initial.length + written.length ∧
      ∃ g todo, Cut [] ls written.length s'.tailer.queue g todo := by
  obtain ⟨hraised, c, g, todo, hc, hpos, hcut⟩ := hT
  have hlen : s.contents.length = initial.length + written.length := by
    rw [hcontents, List.length_append]
  obtain ⟨n, hn⟩ := Nat.exists_eq_add_of_le (show c ≤ written.length by omega)
  have hrest := hcut.rest
  rw [List.nil_append] at hrest
  -- the poll reads the bytes written since the last cut
  have hread : s.contents.drop s.tailer.position = (g ++ todo.flatMap Line.bytes).take n := by
    rw [hcontents, hpos, List.drop_length_add_append, ← hrest, List.prefix_iff_eq_take.mp hpre, hn,
      List.drop_take, Nat.add_sub_cancel_left]
  have hk : n ≤ (g ++ todo.flatMap Line.bytes).length := by
    have := hpre.length_le
    rw [← hrest, List.length_drop]
    omega
  have hin' : ¬ InText todo (n - g.length) := fun h => hin (hn ▸ hcut.inText n h)
  obtain ⟨es, g', todo', hcut', hes⟩ := exists_cut hcut.gap hcut.noReturn hk hin'
  rw [← hread] at hes
  have hpoll := EveTailer.poll_eq now (show s.tailer.position ≤ s.contents.length by omega) hes
  have hstep : step maxDepth s (.poll now) = some ⟨s.contents, { s.tailer with
      position := s.contents.length
      status := (s.tailer.status.recordSuccess now).1
      queue := s.tailer.queue ++ es }, none⟩ := by
    rw [step, if_pos hraised, hpoll]
  refine ⟨_, hstep, rfl, rfl, hlen, g', todo', ?_⟩
  refine ⟨?_, ?_, hcut'.gap, hcut'.noReturn, fun k hk => ?_⟩
  · rw [hcut.events, hcut'.events, List.append_assoc]
  · rw [List.nil_append, hn, ← List.drop_drop, hrest]
    exact hcut'.rest
  · have hk' := hcut'.inText k hk
    by_cases hle : g.length ≤ n + k
    · have := hcut.inText (n + k) hk'
      rwa [List.length_nil, Nat.sub_zero, ← Nat.add_assoc, ← hn] at this
    · rw [show n + k - g.length = 0 by omega] at hk'
      exact absurd hk' (not_inText_zero _)

/-- Along a run that leaves the appended bytes a beginning of the lines, and whose polls find them
ending outside the texts, the tailer has read up to such an end. -/
theorem tailInv_of_run {inode : ℕ} {status : IngestionStatus} {tr : List (Move Tailing Act)}
    (hcr : ∀ l ∈ ls, 0x0D ∉ l.text)
    (h : Run (step maxDepth) (init initial inode status) tr s) :
    (∃ written, s.contents = initial ++ written ∧ (written <+: ls.flatMap Line.bytes →
      (∀ m ∈ tr, ∀ now, m.act = .poll now →
        ¬ InText ls (m.pre.contents.length - initial.length)) → TailInv initial ls s)) := by
  refine h.history (P := fun tr s => ∃ written, s.contents = initial ++ written ∧
    (written <+: ls.flatMap Line.bytes → (∀ m ∈ tr, ∀ now, m.act = .poll now →
      ¬ InText ls (m.pre.contents.length - initial.length)) → TailInv initial ls s)) ?_ ?_
  · refine ⟨[], by simp [init], fun _ _ => ⟨rfl, 0, [], ls, Nat.zero_le _, rfl, ?_⟩⟩
    exact ⟨rfl, rfl, fun _ h => absurd h List.not_mem_nil, hcr, fun k hk => by simpa using hk⟩
  · rintro tr s a s' - ⟨written, hcontents, hinv⟩ hstep
    cases a with
    | write chunk =>
      obtain rfl := Option.some.inj hstep
      refine ⟨written ++ chunk, by rw [hcontents, List.append_assoc], fun hpre hpolls => ?_⟩
      obtain ⟨hraised, c, g, todo, hc, hpos, hcut⟩ := hinv ((List.prefix_append _ _).trans hpre)
        fun m hm => hpolls m (List.mem_append_left _ hm)
      refine ⟨hraised, c, g, todo, ?_, hpos, hcut⟩
      rw [List.length_append]
      omega
    | poll now =>
      have hsame : s'.contents = s.contents := by
        simp only [step] at hstep
        split_ifs at hstep
        obtain rfl := Option.some.inj hstep
        rfl
      refine ⟨written, hsame.trans hcontents, fun hpre hpolls => ?_⟩
      have hT := hinv hpre fun m hm => hpolls m (List.mem_append_left _ hm)
      have hin := hpolls ⟨s, .poll now, s'⟩ (List.mem_append_right _ (List.mem_singleton.mpr rfl))
        now rfl
      have hlen : s.contents.length - initial.length = written.length := by
        rw [hcontents, List.length_append, Nat.add_sub_cancel_left]
      rw [hlen] at hin
      obtain ⟨s₂, hstep₂, -, hraised, hpos, g, todo, hcut⟩ := hT.poll hcontents hpre hin now
      obtain rfl := Option.some.inj (hstep.symm.trans hstep₂)
      exact ⟨hraised, written.length, g, todo, by rw [hsame, hlen], hpos, hcut⟩

/-- When the lines are there and no poll has found the bytes ending inside the text of a line, one
more poll completes the queue. -/
theorem tail_complete {inode : ℕ} {status : IngestionStatus} {tr : List (Move Tailing Act)}
    (h : Run (step maxDepth) (init initial inode status) tr s)
    (hwritten : s.contents = initial ++ ls.flatMap Line.bytes)
    (hcr : ∀ l ∈ ls, 0x0D ∉ l.text)
    (hpolls : ∀ m ∈ tr, ∀ now, m.act = .poll now →
      ¬ InText ls (m.pre.contents.length - initial.length)) (now : Datetime) :
    ∃ s', step maxDepth s (.poll now) = some s' ∧ s'.raised = none ∧
      s'.tailer.queue = ls.map Line.event := by
  obtain ⟨written, hcontents, hinv⟩ := tailInv_of_run hcr h
  obtain rfl : written = ls.flatMap Line.bytes :=
    List.append_cancel_left (hcontents.symm.trans hwritten)
  obtain ⟨s', hstep, -, hraised, -, g, todo, hcut⟩ := (hinv List.prefix_rfl hpolls).poll hcontents
    List.prefix_rfl (fun hin => absurd hin.lt (Nat.lt_irrefl _)) now
  refine ⟨s', hstep, hraised, ?_⟩
  -- no line is left, for every line has its line feed
  have hrest := hcut.rest
  rw [List.nil_append, List.drop_length] at hrest
  cases todo with
  | nil => rw [hcut.events, List.map_nil, List.append_nil]
  | cons l todo =>
    have := congrArg List.length hrest
    rw [List.length_nil, List.length_append, List.flatMap_cons, List.length_append, l.length_bytes,
      Line.ending, List.length_append, List.length_singleton] at this
    omega

set_option maxRecDepth 2000 in
/-- The object with a member `a` of value one, on a line with a carriage return at its end. -/
def sampleLine : Line 9 where
  lead := []
  text := [0x7B, 0x22, 0x61, 0x22, 0x3A, 0x31, 0x7D]
  trail := [0x0D]
  members := [("a", .int 1)]
  lead_blank := by decide
  trail_blank := by decide
  one_line := by decide
  parses := by
    have hdec : TextFile.decode none [0x7B, 0x22, 0x61, 0x22, 0x3A, 0x31, 0x7D] =
        ['{', '"', 'a', '"', ':', '1', '}'] := by decide +kernel
    rw [hdec, Json.loads, String.toList_ofList]
    rfl

/-- The line twice, cut inside its text and between the two characters of its end. -/
def sampleActs : List Act :=
  [.write (sampleLine.text.take 3), .write (sampleLine.text.drop 3 ++ sampleLine.trail),
    .poll ⟨0, by decide⟩, .write (0x0A :: sampleLine.bytes.take 5),
    .write (sampleLine.bytes.drop 5)]

/-- The polls find whole texts. -/
theorem tail_complete_cut_line_end :
    ∃ s', step 9 (runFrom (step 9) (init [0x0A] 1 .init) sampleActs).2 (.poll ⟨0, by decide⟩) =
        some s' ∧ s'.raised = none ∧ s'.tailer.queue = [sampleLine.event, sampleLine.event] := by
  have hall : ((runFrom (step 9) (init [0x0A] 1 .init) sampleActs).1.all fun m =>
      match m.act with
      | .poll _ => ¬ InText [sampleLine, sampleLine] (m.pre.contents.length - 1)
      | _ => true) = true := by decide +kernel
  have hwritten : (runFrom (step 9) (init [0x0A] 1 .init) sampleActs).2.contents =
      [0x0A] ++ [sampleLine, sampleLine].flatMap Line.bytes := by decide +kernel
  refine tail_complete (run_runFrom _ _) hwritten (by decide +kernel) (fun m hm now hact => ?_) _
  have := List.all_eq_true.mp hall m hm
  simpa [hact] using this

/-- A poll that finds the first four bytes of a line drops it. -/
theorem cut_line_lost :
    let r := runFrom (step 9) (init [] 1 .init) [.write (sampleLine.bytes.take 4),
      .poll ⟨0, by decide⟩, .write (sampleLine.bytes.drop 4), .poll ⟨0, by decide⟩]
    Run (step 9) (init [] 1 .init) r.1 r.2 ∧ r.2.contents = sampleLine.bytes ∧
      r.2.raised = none ∧ r.2.tailer.queue = [] :=
  ⟨run_runFrom _ _, by decide +kernel, by decide +kernel,
    List.eq_nil_of_length_eq_zero (by decide +kernel)⟩

end Tailing

end Verdix

import Mathlib.Data.List.Forall2
import Mathlib.Data.List.Infix

/-!
# The `LIKE` operator of SQLite

`%` matches any text, `_` any one character and every other character itself, ASCII letters in
either case.  `like_contains_iff`: a text is matched by a pattern between two `%` signs iff it has a
part that is similar to the pattern, letter by letter.
-/

namespace Like

/-- `text LIKE pattern`, on the characters of both. -/
def like : List Char → List Char → Bool
  | [], text => text.isEmpty
  | '%' :: pattern, text => text.tails.any (like pattern)
  | '_' :: pattern, _ :: text => like pattern text
  | c :: pattern, d :: text => c.toLower == d.toLower && like pattern text
  | _ :: _, [] => false

theorem like_percent (pattern text : List Char) :
    like ('%' :: pattern) text = true ↔ ∃ t, t <:+ text ∧ like pattern t = true := by
  simp [like, List.any_eq_true]

theorem like_nil {c : Char} (hc : c ≠ '%') (pattern : List Char) : like (c :: pattern) [] = false := by
  unfold like
  split <;> simp_all

theorem like_cons {c : Char} (hc : c ≠ '%') (pattern : List Char) (d : Char) (text : List Char) :
    like (c :: pattern) (d :: text) =
      ((c == '_' || c.toLower == d.toLower) && like pattern text) := by
  by_cases hu : c = '_'
  · subst hu
    rfl
  · rw [like.eq_4 _ _ _ _ hc hu, beq_false_of_ne hu, Bool.false_or]

theorem like_append_percent {pattern text : List Char} (h : like pattern text) (rest : List Char) :
    like (pattern ++ ['%']) (text ++ rest) := by
  induction pattern generalizing text with
  | nil =>
    obtain rfl : text = [] := by simpa [like] using h
    exact (like_percent [] rest).mpr ⟨[], List.nil_suffix, rfl⟩
  | cons c pattern ih =>
    rw [List.cons_append]
    by_cases hc : c = '%'
    · subst hc
      obtain ⟨t, ⟨u, rfl⟩, ht⟩ := (like_percent _ _).mp h
      exact (like_percent _ _).mpr ⟨t ++ rest, ⟨u, (List.append_assoc ..).symm⟩, ih ht⟩
    · match text with
      | [] => simp [like_nil hc] at h
      | d :: text =>
        rw [like_cons hc, Bool.and_eq_true] at h
        rw [List.cons_append, like_cons hc, h.1, ih h.2]
        rfl

/-- A text that contains a match is matched by the pattern between percent signs. -/
theorem like_contains {pattern text : List Char} (h : like pattern text) (before after : List Char) :
    like ('%' :: (pattern ++ ['%'])) (before ++ (text ++ after)) :=
  (like_percent _ _).mpr ⟨text ++ after, ⟨before, rfl⟩, like_append_percent h after⟩

/-! ### Patterns without a percent sign -/

/-- A character that the pattern's character `c` stands for. -/
def Similar (c d : Char) : Prop := c = '_' ∨ c.toLower = d.toLower

theorem similar_iff {c d : Char} : (c == '_' || c.toLower == d.toLower) = true ↔ Similar c d := by
  simp [Similar]

/-- Before a percent sign a pattern reads as many characters as it has. -/
theorem like_append_percent_iff {pattern : List Char} (hp : '%' ∉ pattern) (text : List Char) :
    like (pattern ++ ['%']) text = true ↔
      ∃ part rest, text = part ++ rest ∧ List.Forall₂ Similar pattern part := by
  induction pattern generalizing text with
  | nil =>
    refine ⟨fun _ => ⟨[], text, rfl, .nil⟩, fun _ => ?_⟩
    exact (like_percent [] text).mpr ⟨[], List.nil_suffix, rfl⟩
  | cons c pattern ih =>
    have hc : c ≠ '%' := fun h => hp (h ▸ List.mem_cons_self)
    have hp' : '%' ∉ pattern := fun h => hp (List.mem_cons_of_mem _ h)
    constructor
    · intro h
      match text with
      | [] =>
        rw [List.cons_append, like_nil hc] at h
        contradiction
      | d :: text =>
        rw [List.cons_append, like_cons hc, Bool.and_eq_true, similar_iff, ih hp'] at h
        obtain ⟨hd, part, rest, rfl, hpart⟩ := h
        exact ⟨d :: part, rest, rfl, .cons hd hpart⟩
    · rintro ⟨_, rest, rfl, hpart⟩
      cases hpart with
      | cons hd hpart =>
        rw [List.cons_append, List.cons_append, like_cons hc, Bool.and_eq_true, similar_iff, ih hp']
        exact ⟨hd, _, rest, rfl, hpart⟩

/-- Between percent signs a pattern is looked for at every place of the text. -/
theorem like_contains_iff {pattern : List Char} (hp : '%' ∉ pattern) (text : List Char) :
    like ('%' :: (pattern ++ ['%'])) text = true ↔
      ∃ before part after, text = before ++ (part ++ after) ∧
        List.Forall₂ Similar pattern part := by
  rw [like_percent]
  constructor
  · rintro ⟨t, ⟨before, rfl⟩, ht⟩
    obtain ⟨part, after, rfl, hpart⟩ := (like_append_percent_iff hp t).mp ht
    exact ⟨before, part, after, rfl, hpart⟩
  · rintro ⟨before, part, after, rfl, hpart⟩
    exact ⟨part ++ after, ⟨before, rfl⟩, (like_append_percent_iff hp _).mpr ⟨part, after, rfl, hpart⟩⟩

example : like ['%', 'f', '_', 'o', '%'] ['[', '"', 'F', 'r', 'o', 'm', '"', ']'] := by decide

end Like

import Mathlib.Data.List.SplitBy
import Mathlib.Tactic.Cases

/-!
# Lists in chunks

`chunks n l` cuts a list into pieces of `n + 1` elements, the last of which may be shorter.  A piece
in front stays a piece (`chunks_append`), so a loop that fills a buffer produces them one by one.

`flatMap_splitBy`: a function that goes on from one group of `List.splitBy` to the next is what it
does to each of them.
-/

namespace Chunks

variable {α β : Type*} {n : ℕ}

/-- Pieces of `n + 1` elements. -/
def chunks (n : ℕ) : List α → List (List α)
  | [] => []
  | a :: l => (a :: l.take n) :: chunks n (l.drop n)
  termination_by l => l.length
  decreasing_by simp only [List.length_cons, List.length_drop]; omega

@[simp]
theorem chunks_nil : chunks n ([] : List α) = [] := by rw [chunks]

/-- What does not fill a chunk is one. -/
theorem chunks_of_length_le {l : List α} (hl : l ≠ []) (h : l.length ≤ n) : chunks n l = [l] := by
  cases l with
  | nil => contradiction
  | cons a l =>
    rw [List.length_cons] at h
    rw [chunks, List.take_of_length_le (by omega), List.drop_of_length_le (by omega), chunks_nil]

/-- A full chunk in front is the first. -/
theorem chunks_append {c : List α} (h : c.length = n + 1) (l : List α) :
    chunks n (c ++ l) = c :: chunks n l := by
  cases c with
  | nil => simp at h
  | cons a c =>
    have hc : c.length = n := by simpa using h
    rw [List.cons_append, chunks, List.take_left' hc, List.drop_left' hc]

theorem flatten_chunks (l : List α) : (chunks n l).flatten = l := by
  induction l using chunks.induct n with
  | case1 => simp
  | case2 a l ih => rw [chunks, List.flatten_cons, ih, List.cons_append, List.take_append_drop]

/-- A function that starts anew after each group does the groups one by one. -/
theorem flatMap_splitBy {r : α → α → Bool} {f g : List α → List β} (hnil : f [] = [])
    (hgroup : ∀ c, c ≠ [] → (c.IsChain fun a b => r a b) → f c = g c)
    (hbreak : ∀ c b l, (∀ a ∈ c.getLast?, r a b = false) → f (c ++ b :: l) = f c ++ f (b :: l))
    (l : List α) : f l = (l.splitBy r).flatMap g := by
  have hgroups : ∀ groups : List (List α), [] ∉ groups →
      (∀ c ∈ groups, c.IsChain fun a b => r a b) →
      (groups.IsChain fun a b => ∃ ha hb, r (a.getLast ha) (b.head hb) = false) →
      f groups.flatten = groups.flatMap g := by
    intro groups
    induction groups with
    | nil => exact fun _ _ _ => hnil
    | cons c groups ih =>
      intro hne hchain hends
      rw [List.mem_cons, not_or] at hne
      have hc : f c = g c := hgroup c (Ne.symm hne.1) (hchain c List.mem_cons_self)
      have hrest := ih hne.2 (fun d hd => hchain d (List.mem_cons_of_mem _ hd)) hends.tail
      rw [List.flatten_cons, List.flatMap_cons, ← hrest, ← hc]
      cases groups with
      | nil => simp [hnil]
      | cons d groups =>
        obtain ⟨_, hd, hlast⟩ := (List.isChain_cons.mp hends).1 d rfl
        obtain ⟨b, d, rfl⟩ := List.exists_cons_of_ne_nil hd
        rw [List.flatten_cons, List.cons_append]
        refine hbreak c b _ fun a ha => ?_
        rw [← List.getLast_of_mem_getLast? ha]
        exact hlast
  conv_lhs => rw [← List.flatten_splitBy r l]
  exact hgroups _ (List.nil_notMem_splitBy r l) (fun c => List.isChain_of_mem_splitBy)
    (List.isChain_getLast_head_splitBy r l)

end Chunks

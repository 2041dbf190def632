/-!
# Texts made of pieces

A text that is put together of pieces determines the pieces if it can be seen where each of them
ends: at a mark that is in no piece.

- `append_inj_of_marked`: a piece and what follows it.
- `intercalate_injective`: pieces with separators between them.
- `splitOn_terminated`: pieces that end in a mark.
-/

namespace ScriptFuzz

variable {α : Type} {x : α} {sep : List α} {pieces others : List (List α)}

/-- A text ends at the first mark, or where there is no more text. -/
theorem append_inj_of_marked {as bs cs ds : List α} (ha : x ∉ as) (hb : x ∉ bs)
    (hc : ∀ c ∈ cs.head?, c = x) (hd : ∀ d ∈ ds.head?, d = x) (h : as ++ cs = bs ++ ds) :
    as = bs ∧ cs = ds := by
  induction as generalizing bs with
  | nil =>
    cases bs with
    | nil => exact ⟨rfl, h⟩
    | cons b bs =>
      have hbx : b = x := hc b (by rw [List.nil_append] at h; simp [h])
      exact absurd (hbx ▸ List.mem_cons_self) hb
  | cons a as ih =>
    cases bs with
    | nil =>
      have hax : a = x := hd a (by rw [List.nil_append] at h; simp [← h])
      exact absurd (hax ▸ List.mem_cons_self) ha
    | cons b bs =>
      rw [List.cons_append, List.cons_append, List.cons.injEq] at h
      obtain ⟨rfl, hcs⟩ := ih (fun h => ha (.tail _ h)) (fun h => hb (.tail _ h)) h.2
      exact ⟨by rw [h.1], hcs⟩

theorem append_cons_inj_of_marked {as bs cs ds : List α} (ha : x ∉ as) (hb : x ∉ bs)
    (h : as ++ x :: cs = bs ++ x :: ds) : as = bs ∧ cs = ds := by
  obtain ⟨has, hcs⟩ := append_inj_of_marked ha hb (by simp) (by simp) h
  exact ⟨has, List.tail_eq_of_cons_eq hcs⟩

/-- Pieces with a separator before each of them are known from their text, if the first mark of the
separator is in none of them. -/
theorem flatMap_separated_injective (hpieces : ∀ piece ∈ pieces, x ∉ piece)
    (hothers : ∀ piece ∈ others, x ∉ piece)
    (h : pieces.flatMap (x :: sep ++ ·) = others.flatMap (x :: sep ++ ·)) : pieces = others := by
  have hhead : ∀ pieces : List (List α), ∀ c ∈ (pieces.flatMap (x :: sep ++ ·)).head?, c = x := by
    intro pieces c hc
    cases pieces with
    | nil => cases hc
    | cons piece pieces => simpa using hc.symm
  induction pieces generalizing others with
  | nil =>
    cases others with
    | nil => rfl
    | cons other others => cases h
  | cons piece pieces ih =>
    cases others with
    | nil => cases h
    | cons other others =>
      rw [List.forall_mem_cons] at hpieces hothers
      rw [List.flatMap_cons, List.flatMap_cons, List.append_assoc, List.append_assoc,
        List.append_cancel_left_eq] at h
      obtain ⟨hfirst, hrest⟩ := append_inj_of_marked hpieces.1 hothers.1 (hhead _) (hhead _) h
      rw [hfirst, ih hpieces.2 hothers.2 hrest]

theorem intercalate_cons (piece : List α) (pieces : List (List α)) :
    sep.intercalate (piece :: pieces) = piece ++ pieces.flatMap (sep ++ ·) := by
  induction pieces generalizing piece with
  | nil => simp
  | cons next pieces ih =>
    rw [List.intercalate_cons_cons, ih, List.flatMap_cons, List.append_assoc, List.append_assoc]

theorem mem_of_mem_intercalate {c : α} (h : c ∈ sep.intercalate pieces) :
    c ∈ sep ∨ ∃ piece ∈ pieces, c ∈ piece := by
  cases pieces with
  | nil => cases h
  | cons piece pieces =>
    rw [intercalate_cons, List.mem_append, List.mem_flatMap] at h
    rcases h with hmem | ⟨next, hnext, hmem⟩
    · exact .inr ⟨piece, List.mem_cons_self, hmem⟩
    · rcases List.mem_append.1 hmem with hmem | hmem
      · exact .inl hmem
      · exact .inr ⟨next, List.mem_cons_of_mem _ hnext, hmem⟩

/-- Pieces with separators between them are known from their text, if none is empty. -/
theorem intercalate_injective (hpieces : ∀ piece ∈ pieces, piece ≠ [] ∧ x ∉ piece)
    (hothers : ∀ piece ∈ others, piece ≠ [] ∧ x ∉ piece)
    (h : (x :: sep).intercalate pieces = (x :: sep).intercalate others) : pieces = others := by
  cases pieces with
  | nil =>
    cases others with
    | nil => rfl
    | cons other others =>
      rw [intercalate_cons, List.intercalate_nil, List.nil_eq, List.append_eq_nil_iff] at h
      exact absurd h.1 (hothers other List.mem_cons_self).1
  | cons piece pieces =>
    cases others with
    | nil =>
      rw [intercalate_cons, List.intercalate_nil, List.append_eq_nil_iff] at h
      exact absurd h.1 (hpieces piece List.mem_cons_self).1
    | cons other others =>
      have hflat : (piece :: pieces).flatMap (x :: sep ++ ·) =
          (other :: others).flatMap (x :: sep ++ ·) := by
        rw [List.flatMap_cons, List.flatMap_cons, List.append_assoc, List.append_assoc,
          ← intercalate_cons, ← intercalate_cons, h]
      exact flatMap_separated_injective (fun p hp => (hpieces p hp).2)
        (fun p hp => (hothers p hp).2) hflat

/-- Where pieces end in a mark that is not in them, they stand between such marks. -/
theorem splitOn_terminated [BEq α] [LawfulBEq α] (h : ∀ piece ∈ pieces, x ∉ piece) :
    (pieces.flatMap (· ++ [x])).splitOn x = pieces ++ [[]] := by
  have hflat : pieces.flatMap (· ++ [x]) = [x].intercalate (pieces ++ [[]]) := by
    induction pieces with
    | nil => rfl
    | cons piece pieces ih =>
      obtain ⟨next, rest, hrest⟩ : ∃ next rest, pieces ++ [[]] = next :: rest :=
        List.exists_cons_of_ne_nil (List.append_ne_nil_of_right_ne_nil _ (List.cons_ne_nil _ _))
      rw [List.flatMap_cons, ih fun p hp => h p (List.mem_cons_of_mem _ hp), List.cons_append,
        hrest, List.intercalate_cons_cons]
  rw [hflat]
  refine List.splitOn_intercalate x ?_ (by simp)
  intro piece hpiece
  rcases List.mem_append.1 hpiece with hmem | hmem
  · exact h piece hmem
  · rw [List.mem_singleton.1 hmem]
    exact List.not_mem_nil

end ScriptFuzz

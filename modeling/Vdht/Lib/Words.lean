import Mathlib.Data.List.TakeWhile

/-!
# Words

The words of a list are its nonempty parts between separating elements. A loop that copies the
elements of the words, and puts a joint in front of the first element of every word but the first,
writes the words joined. What it writes exceeds the elements of the words by the joints.
-/

namespace Vdht.Lib

variable {α : Type*} {p : α → Bool} {joint a : α} {l : List α}

/-- The nonempty parts between the elements that separate. -/
def words (p : α → Bool) (l : List α) : List (List α) := (l.splitOnP p).filter fun w => !w.isEmpty

theorem words_nil : words p [] = [] := by
  rw [words, List.splitOnP_nil]
  rfl

theorem words_cons_pos (h : p a = true) : words p (a :: l) = words p l := by
  rw [words, List.splitOnP_cons_eq_if_modifyHead, if_pos h]
  rfl

/-- A word goes on up to an element that separates. -/
theorem words_append {w r : List α} (hne : w ≠ []) (hw : ∀ x ∈ w, p x = false)
    (hr : ∀ s ∈ r.head?, p s = true) : words p (w ++ r) = w :: words p r := by
  have hkeep : ∀ ws : List (List α), (w :: ws).filter (fun w => !w.isEmpty) =
      w :: ws.filter fun w => !w.isEmpty :=
    fun ws => List.filter_cons_of_pos (by simpa using hne)
  rw [words]
  cases r with
  | nil =>
    rw [List.append_nil, List.splitOnP_eq_singleton hw, hkeep, words_nil]
    rfl
  | cons s r =>
    have hs := hr s rfl
    rw [List.splitOnP_append_cons_of_forall_mem hw s hs, hkeep, words_cons_pos hs, words]

theorem words_cons_neg (h : p a = false) :
    words p (a :: l) = (a :: l.takeWhile (!p ·)) :: words p (l.dropWhile (!p ·)) := by
  have hword : ∀ x ∈ a :: l.takeWhile (!p ·), p x = false := by
    refine List.forall_mem_cons.mpr ⟨h, fun x hx => ?_⟩
    simpa using List.mem_takeWhile_imp hx
  have hhead : ∀ s ∈ (l.dropWhile (!p ·)).head?, p s = true := by
    intro s hs
    have hnot := List.head?_dropWhile_not (!p ·) l
    rw [Option.mem_def.mp hs] at hnot
    simpa using hnot
  have hsplit := words_append (List.cons_ne_nil a _) hword hhead
  rwa [List.cons_append, List.takeWhile_append_dropWhile] at hsplit

/-- Words that are written behind one another are found again. -/
theorem words_join {s : α} (hs : p s = true) {w : List α} {ws : List (List α)}
    (h : ∀ v ∈ w :: ws, v ≠ [] ∧ ∀ x ∈ v, p x = false) :
    words p (w ++ ws.flatMap (s :: ·)) = w :: ws := by
  induction ws generalizing w with
  | nil =>
    obtain ⟨hne, hw⟩ := h w List.mem_cons_self
    rw [List.flatMap_nil, words_append hne hw (by simp), words_nil]
  | cons v ws ih =>
    obtain ⟨⟨hne, hw⟩, hws⟩ := List.forall_mem_cons.mp h
    rw [List.flatMap_cons, words_append hne hw (by simpa using hs), List.cons_append,
      words_cons_pos hs, ih hws]

/-- The words hold every element that does not separate. -/
theorem flatten_words (p : α → Bool) (l : List α) : (words p l).flatten = l.filter (!p ·) := by
  rw [words, List.flatten_filter_not_isEmpty]
  induction l with
  | nil => rfl
  | cons a l ih =>
    rw [List.splitOnP_cons_eq_if_modifyHead, List.filter_cons]
    cases ha : p a with
    | true => simpa using ih
    | false =>
      obtain ⟨w, ws, hws⟩ := List.exists_cons_of_ne_nil (List.splitOnP_ne_nil p l)
      rw [hws] at ih ⊢
      rw [if_neg Bool.false_ne_true, List.modifyHead_cons, List.flatten_cons, List.cons_append,
        ← List.flatten_cons, ih]
      rfl

/-- There are no words if and only if all elements separate. -/
theorem words_eq_nil : words p l = [] ↔ ∀ a ∈ l, p a = true := by
  constructor
  · intro h
    have hflat := flatten_words p l
    rw [h] at hflat
    intro a ha
    by_contra hp
    have hmem : a ∈ l.filter (!p ·) := List.mem_filter.mpr ⟨ha, by simpa using hp⟩
    rw [← hflat] at hmem
    exact absurd hmem List.not_mem_nil
  · intro h
    induction l with
    | nil => exact words_nil
    | cons a l ih =>
      obtain ⟨ha, hl⟩ := List.forall_mem_cons.mp h
      rw [words_cons_pos ha]
      exact ih hl

theorem intercalate_cons (joint : α) (w : List α) (ws : List (List α)) :
    [joint].intercalate (w :: ws) = w ++ ws.flatMap (joint :: ·) := by
  induction ws generalizing w with
  | nil => rw [List.intercalate_singleton, List.flatMap_nil, List.append_nil]
  | cons v ws ih =>
    rw [List.intercalate_cons_cons, ih, List.flatMap_cons, List.append_assoc, List.singleton_append,
      List.cons_append]

theorem length_intercalate (joint : α) (ws : List (List α)) :
    ([joint].intercalate ws).length = ws.flatten.length + (ws.length - 1) := by
  cases ws with
  | nil => rfl
  | cons w ws =>
    rw [intercalate_cons, List.flatten_cons, List.length_append, List.length_append,
      List.length_cons, Nat.add_sub_cancel, Nat.add_assoc]
    congr 1
    induction ws with
    | nil => rfl
    | cons v ws ih =>
      rw [List.flatMap_cons, List.flatten_cons, List.length_append, List.length_append, ih,
        List.length_cons, List.length_cons]
      omega

/-! ## The loop -/

/-- The list written so far, and whether an element that separates was met behind it. -/
def joinStep (p : α → Bool) (joint : α) (st : List α × Bool) (a : α) : List α × Bool :=
  if p a then (st.1, !st.1.isEmpty || st.2)
  else (if st.2 then st.1 ++ [joint, a] else st.1 ++ [a], false)

/-- The loop over a text, with what was joined so far and whether a gap is pending. -/
def joinLoop (p : α → Bool) (joint : α) (st : List α × Bool) (l : List α) : List α :=
  (l.foldl (joinStep p joint) st).1

theorem joinStep_sep (st : List α × Bool) (h : p a = true) :
    joinStep p joint st a = (st.1, !st.1.isEmpty || st.2) := if_pos h

theorem joinStep_word (st : List α × Bool) (h : p a = false) :
    joinStep p joint st a = (if st.2 then st.1 ++ [joint, a] else st.1 ++ [a], false) :=
  if_neg (by simp [h])

theorem joinLoop_cons (st : List α × Bool) :
    joinLoop p joint st (a :: l) = joinLoop p joint (joinStep p joint st a) l := rfl

/-- Behind the first word: the rest of the word, unless one has ended, and the later words. -/
theorem joinLoop_later (l : List α) {out : List α} (hout : out ≠ []) :
    joinLoop p joint (out, true) l = out ++ (words p l).flatMap (joint :: ·) ∧
      joinLoop p joint (out, false) l =
        out ++ l.takeWhile (!p ·) ++ (words p (l.dropWhile (!p ·))).flatMap (joint :: ·) := by
  induction l generalizing out with
  | nil =>
    rw [words_nil, List.takeWhile_nil, List.dropWhile_nil, words_nil, List.flatMap_nil,
      List.append_nil, List.append_nil]
    exact ⟨rfl, rfl⟩
  | cons a l ih =>
    rw [joinLoop_cons, joinLoop_cons]
    cases ha : p a with
    | true =>
      have hflag : (!out.isEmpty) = true := by simpa using hout
      rw [joinStep_sep _ ha, joinStep_sep _ ha, words_cons_pos ha, hflag,
        List.takeWhile_cons_of_neg (by simp [ha]), List.dropWhile_cons_of_neg (by simp [ha]),
        words_cons_pos ha, List.append_nil]
      exact ⟨(ih hout).1, (ih hout).1⟩
    | false =>
      rw [joinStep_word _ ha, joinStep_word _ ha, if_pos rfl, if_neg Bool.false_ne_true,
        words_cons_neg ha, List.takeWhile_cons_of_pos (by simp [ha]),
        List.dropWhile_cons_of_pos (by simp [ha])]
      constructor
      · rw [(ih (by simp)).2]
        simp
      · rw [(ih (by simp)).2]
        simp

/-- What the loop writes. -/
theorem joinLoop_eq (l : List α) :
    joinLoop p joint ([], false) l = [joint].intercalate (words p l) := by
  induction l with
  | nil => rw [words_nil]; rfl
  | cons a l ih =>
    rw [joinLoop_cons]
    cases ha : p a with
    | true =>
      rw [joinStep_sep _ ha, words_cons_pos ha]
      exact ih
    | false =>
      rw [joinStep_word _ ha, if_neg Bool.false_ne_true, words_cons_neg ha,
        (joinLoop_later l (by simp)).2, intercalate_cons]
      simp

theorem joinStep_flag {st : List α × Bool} (h : st.2 = true → st.1 ≠ []) (a : α) :
    (joinStep p joint st a).2 = true → (joinStep p joint st a).1 ≠ [] := by
  unfold joinStep
  split
  · intro hflag
    rcases Bool.or_eq_true_iff.mp hflag with hne | hseen
    · simpa using hne
    · exact h hseen
  · exact fun hflag => absurd hflag Bool.false_ne_true

theorem length_joinStep (p : α → Bool) (joint : α) (st : List α × Bool) (a : α) :
    st.1.length ≤ (joinStep p joint st a).1.length := by
  unfold joinStep
  split
  · exact Nat.le_refl _
  · show _ ≤ (if _ then _ else _ : List α).length
    split
    · simp
    · simp

/-- The loop only adds to the list. -/
theorem length_joinLoop (p : α → Bool) (joint : α) (st : List α × Bool) (l : List α) :
    st.1.length ≤ (joinLoop p joint st l).length := by
  induction l generalizing st with
  | nil => exact Nat.le_refl _
  | cons a l ih => exact (length_joinStep p joint st a).trans (ih _)

end Vdht.Lib

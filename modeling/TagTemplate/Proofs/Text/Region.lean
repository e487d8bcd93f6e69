import TagTemplate.Text.Basic

/-!
# Regions of a text

Places in a text are offsets in bytes, each character standing at the offset of its first byte.
A region is selected by a test of offsets. The lemmas follow a text that is put together from
pieces: what is selected from it is put together from what is selected from each piece.
-/

namespace TagTemplate.Text

/-- The characters whose offsets pass the test, the first one standing at offset `n`. -/
def selectFrom (keep : Nat → Bool) : (n : Nat) → Text → Text
  | _, [] => []
  | n, c :: t =>
      if keep n then c :: selectFrom keep (n + c.utf8Size) t
      else selectFrom keep (n + c.utf8Size) t

def select (keep : Nat → Bool) (t : Text) : Text := selectFrom keep 0 t

/-- What lies from one offset up to another. -/
def slice (start stop : Nat) (t : Text) : Text := select (fun n => start ≤ n && n < stop) t

def lastLine (t : Text) : Text := (t.reverse.takeWhile (· != '\n')).reverse

/-- What precedes an offset on its line. -/
def lineBefore (n : Nat) (t : Text) : Text := lastLine (slice 0 n t)

/-- The text ends with a line feed, so that a line starts after it. -/
def endsLine (t : Text) : Bool := t.getLast? == some '\n'

/-! ## Selecting -/

theorem selectFrom_append (keep : Nat → Bool) (n : Nat) (s t : Text) :
    selectFrom keep n (s ++ t) = selectFrom keep n s ++ selectFrom keep (n + size s) t := by
  induction s generalizing n with
  | nil => simp [selectFrom]
  | cons c s ih =>
      simp only [List.cons_append, selectFrom, size_cons, ih, Nat.add_assoc]
      split
      · rfl
      · rfl

theorem selectFrom_congr {keep keep' : Nat → Bool} {n : Nat} {t : Text}
    (h : ∀ k, n ≤ k → k < n + size t → keep k = keep' k) :
    selectFrom keep n t = selectFrom keep' n t := by
  induction t generalizing n with
  | nil => rfl
  | cons c t ih =>
      have hpos := c.utf8Size_pos
      have hhead : keep n = keep' n := h n (by omega) (by rw [size_cons]; omega)
      have htail : selectFrom keep (n + c.utf8Size) t = selectFrom keep' (n + c.utf8Size) t := by
        apply ih
        intro k hk hlt
        exact h k (by omega) (by rw [size_cons]; omega)
      simp only [selectFrom, hhead, htail]

theorem selectFrom_true (n : Nat) (t : Text) : selectFrom (fun _ => true) n t = t := by
  induction t generalizing n with
  | nil => rfl
  | cons c t ih => simp [selectFrom, ih]

theorem selectFrom_false (n : Nat) (t : Text) : selectFrom (fun _ => false) n t = [] := by
  induction t generalizing n with
  | nil => rfl
  | cons c t ih => simp [selectFrom, ih]

theorem selectFrom_eq_self {keep : Nat → Bool} {n : Nat} {t : Text}
    (h : ∀ k, n ≤ k → k < n + size t → keep k = true) : selectFrom keep n t = t := by
  rw [selectFrom_congr h, selectFrom_true]

theorem selectFrom_eq_nil {keep : Nat → Bool} {n : Nat} {t : Text}
    (h : ∀ k, n ≤ k → k < n + size t → keep k = false) : selectFrom keep n t = [] := by
  rw [selectFrom_congr h, selectFrom_false]

theorem slice_append (before piece after : Text) :
    slice (size before) (size before + size piece) (before ++ piece ++ after) = piece := by
  unfold slice select
  rw [selectFrom_append, selectFrom_append]
  have hbefore : selectFrom (fun n => size before ≤ n && n < size before + size piece) 0 before
      = [] := by
    apply selectFrom_eq_nil
    intro k _ hk
    have : ¬ size before ≤ k := by omega
    simp [this]
  have hpiece : selectFrom (fun n => size before ≤ n && n < size before + size piece)
      (0 + size before) piece = piece := by
    apply selectFrom_eq_self
    intro k hk hlt
    have hle : size before ≤ k := by omega
    have hltk : k < size before + size piece := by omega
    simp [hle, hltk]
  have hafter : selectFrom (fun n => size before ≤ n && n < size before + size piece)
      (0 + size (before ++ piece)) after = [] := by
    apply selectFrom_eq_nil
    intro k hk _
    rw [size_append] at hk
    have : ¬ k < size before + size piece := by omega
    simp [this]
  rw [hbefore, hpiece, hafter]
  simp

theorem slice_zero_append (before after : Text) :
    slice 0 (size before) (before ++ after) = before := by
  simpa using slice_append [] before after

theorem slice_size_append (before after : Text) :
    slice (size before) (size (before ++ after)) (before ++ after) = after := by
  simpa using slice_append before after []

/-! ## Lines -/

theorem endsLine_iff {t : Text} : endsLine t = true ↔ t.getLast? = some '\n' := by
  simp [endsLine]

theorem ne_nil_of_endsLine {t : Text} (h : endsLine t = true) : t ≠ [] := by
  intro hnil
  rw [hnil] at h
  cases h

theorem endsLine_append {s t : Text} (ht : t ≠ []) : endsLine (s ++ t) = endsLine t := by
  unfold endsLine
  rw [List.getLast?_append, List.getLast?_eq_some_getLast ht, Option.some_or]

@[simp] theorem lastLine_nil : lastLine [] = [] := rfl

theorem lastLine_append {s u : Text} (hu : '\n' ∉ u) : lastLine (s ++ u) = lastLine s ++ u := by
  have hall : ∀ c ∈ u.reverse, (c != '\n') = true := by
    intro c hc
    simp only [bne_iff_ne]
    intro heq
    subst heq
    exact hu (List.mem_reverse.mp hc)
  unfold lastLine
  rw [List.reverse_append, List.takeWhile_append_of_pos hall]
  simp

theorem lastLine_append_newline (s : Text) : lastLine (s ++ ['\n']) = [] := by
  simp [lastLine]

theorem lastLine_of_endsLine {s : Text} (h : s = [] ∨ endsLine s = true) : lastLine s = [] := by
  rcases h with rfl | h
  · rfl
  · obtain ⟨u, rfl⟩ := List.getLast?_eq_some_iff.mp (endsLine_iff.mp h)
    exact lastLine_append_newline u

theorem newline_notMem_lastLine (t : Text) : '\n' ∉ lastLine t := by
  intro h
  have hall : (t.reverse.takeWhile (· != '\n')).all (· != '\n') = true := List.all_takeWhile
  have := List.all_eq_true.mp hall '\n' (List.mem_reverse.mp h)
  simp at this

/-- Where the last line stands in the text: at its start or right after a line feed. -/
theorem exists_eq_append_lastLine (t : Text) :
    ∃ s, t = s ++ lastLine t ∧ (s = [] ∨ s.getLast? = some '\n') := by
  refine ⟨(t.reverse.dropWhile (· != '\n')).reverse, ?_, ?_⟩
  · unfold lastLine
    rw [← List.reverse_append, List.takeWhile_append_dropWhile, List.reverse_reverse]
  · cases hd : t.reverse.dropWhile (· != '\n') with
    | nil => exact .inl rfl
    | cons c u =>
        have := List.head?_dropWhile_not (· != '\n') t.reverse
        rw [hd] at this
        right
        simpa using this

/-- Whole lines in front leave the last line as it is. -/
theorem lastLine_append_left {s : Text} (h : s = [] ∨ endsLine s = true) (t : Text) :
    lastLine (s ++ t) = lastLine t := by
  obtain ⟨u, hu, hends⟩ := exists_eq_append_lastLine t
  have hsu : s ++ u = [] ∨ endsLine (s ++ u) = true := by
    rcases hends with rfl | hends
    · rwa [List.append_nil]
    · right
      have hne : u ≠ [] := by
        intro hnil
        rw [hnil] at hends
        cases hends
      rw [endsLine_append hne]
      exact endsLine_iff.mpr hends
  have hsplit : s ++ t = s ++ u ++ lastLine t := by rw [List.append_assoc, ← hu]
  rw [hsplit, lastLine_append (newline_notMem_lastLine t), lastLine_of_endsLine hsu,
    List.nil_append]

/-! ## Splitting at an offset -/

theorem splitAtSize?_append (s t : Text) (n : Nat) :
    splitAtSize? (n + size s) (s ++ t) = (splitAtSize? n t).map fun p => (s ++ p.1, p.2) := by
  cases h : splitAtSize? n t with
  | some parts =>
      obtain ⟨before, after⟩ := parts
      obtain ⟨rfl, hsize⟩ := splitAtSize?_eq_some_iff.mp h
      have hmore : size (s ++ before) = n + size s := by
        rw [size_append, hsize, Nat.add_comm]
      exact splitAtSize?_eq_some_iff.mpr ⟨by simp, hmore⟩
  | none =>
      cases h' : splitAtSize? (n + size s) (s ++ t) with
      | none => rfl
      | some parts =>
          obtain ⟨before, after⟩ := parts
          obtain ⟨happ, hsize⟩ := splitAtSize?_eq_some_iff.mp h'
          rcases List.append_eq_append_iff.mp happ with ⟨piece, rfl, rfl⟩ | ⟨piece, rfl, rfl⟩
          · have hpiece : size piece = n := by
              rw [size_append] at hsize
              omega
            rw [splitAtSize?_eq_some_iff.mpr ⟨rfl, hpiece⟩] at h
            cases h
          · rw [size_append] at hsize
            have hn : n = 0 := by omega
            subst hn
            rw [splitAtSize?_eq_some_iff.mpr ⟨(List.nil_append t).symm, size_nil⟩] at h
            cases h

end TagTemplate.Text

import TagTemplate.Delimiters
import TagTemplate.Proofs.Text.Cut

/-!
# Trimmed text

Trimming takes white space off both ends of a text and leaves what stands between, which begins and
ends with other characters unless it is empty.
-/

namespace TagTemplate.Text

/-- The text begins and ends with other characters than white space, or is empty. -/
structure IsTrimmed (t : Text) : Prop where
  start : StopsRun isSpace t
  stop : StopsRun isSpace t.reverse

theorem trim_append {gap content tail : Text} (hgap : ∀ c ∈ gap, isSpace c = true)
    (htail : ∀ c ∈ tail, isSpace c = true) (hcontent : IsTrimmed content) :
    trim (gap ++ content ++ tail) = content := by
  have hend : ∀ {t : Text}, StopsRun isSpace t.reverse → trimEnd (t ++ tail) = t := by
    intro t ht
    exact congrArg Prod.fst (splitEndWhile_eq_iff.mpr ⟨rfl, htail, ht⟩)
  unfold trim trimStart
  rw [List.append_assoc]
  cases content with
  | nil =>
      have hall : ∀ c ∈ gap ++ tail, isSpace c = true := List.forall_mem_append.mpr ⟨hgap, htail⟩
      have hdrop := dropWhile_append_stop hall (nofun : StopsRun isSpace [])
      rw [List.append_nil] at hdrop
      rw [List.nil_append, hdrop]
      rfl
  | cons c content =>
      have hstart : StopsRun isSpace (c :: content ++ tail) := stopsRun_cons (hcontent.start c rfl)
      rw [dropWhile_append_stop hgap hstart, hend hcontent.stop]

theorem exists_takeWhile_append_trim (t : Text) :
    ∃ tail, t = t.takeWhile isSpace ++ (trim t ++ tail) ∧ (∀ c ∈ tail, isSpace c = true) ∧
      IsTrimmed (trim t) := by
  have hstart : StopsRun isSpace (trimStart t) := stopsRun_dropWhile isSpace t
  obtain ⟨tail, hpair⟩ : ∃ tail, splitEndWhile isSpace (trimStart t) = (trim t, tail) := ⟨_, rfl⟩
  obtain ⟨hsplit, htail, hstop⟩ := splitEndWhile_eq_iff.mp hpair
  refine ⟨tail, ?_, htail, ?_, hstop⟩
  · rw [← hsplit]
    exact List.takeWhile_append_dropWhile.symm
  · cases htrim : trim t with
    | nil => nofun
    | cons c content =>
        rw [hsplit, htrim] at hstart
        exact stopsRun_cons (hstart c rfl)

/-- A text is white space around its trimmed text. -/
theorem exists_eq_append_trim (t : Text) : ∃ gap tail, t = gap ++ trim t ++ tail ∧
    (∀ c ∈ gap, isSpace c = true) ∧ (∀ c ∈ tail, isSpace c = true) ∧ IsTrimmed (trim t) := by
  obtain ⟨tail, ht, htail, htrim⟩ := exists_takeWhile_append_trim t
  exact ⟨t.takeWhile isSpace, tail, by rwa [List.append_assoc],
    fun _ => List.mem_takeWhile_imp, htail, htrim⟩

theorem isTrimmed_trim (t : Text) : IsTrimmed (trim t) := by
  obtain ⟨_, _, -, -, -, h⟩ := exists_eq_append_trim t
  exact h

@[simp] theorem trim_trim (t : Text) : trim (trim t) = trim t := by
  simpa using @trim_append [] (trim t) [] nofun nofun (isTrimmed_trim t)

theorem trim_eq_nil_iff {t : Text} : trim t = [] ↔ ∀ c ∈ t, isSpace c = true := by
  constructor
  · intro h
    obtain ⟨gap, tail, ht, hgap, htail, -⟩ := exists_eq_append_trim t
    rw [ht, h, List.append_nil]
    exact List.forall_mem_append.mpr ⟨hgap, htail⟩
  · intro h
    simpa using @trim_append t [] [] h nofun ⟨nofun, nofun⟩

end TagTemplate.Text

namespace TagTemplate.Delimiters

theorem parse_trim (t : Text) : parse (String.ofList (Text.trim t)) = parse (String.ofList t) := by
  unfold parse
  simp only [String.toList_ofList, Text.trim_trim]

end TagTemplate.Delimiters

import TagTemplate.Proofs.Text.Cut
import TagTemplate.Reader

/-!
# What a reader reads in every context

`Reads r value piece follows` says that `r` takes exactly `piece` and makes `value` of it, whatever
comes after the piece as long as it satisfies `follows`. Readings in sequence compose when each
piece may be followed by the next one. The lemmas at the end go the other way, from a reading
to its pieces.
-/

namespace TagTemplate

namespace Reader

open Text

variable {α β : Type}

/-- The reader takes `piece` for `value` in front of every text that may follow. -/
def Reads (r : Reader α) (value : α) (piece : Text) (follows : Text → Prop) : Prop :=
  ∀ rest, follows rest → r (piece ++ rest) = .ok ⟨value, piece, rest⟩

theorem Reads.mono {r : Reader α} {value : α} {piece : Text} {P Q : Text → Prop}
    (h : Reads r value piece P) (hQ : ∀ rest, Q rest → P rest) : Reads r value piece Q :=
  fun rest hrest => h rest (hQ rest hrest)

theorem Reads.bind {first : Reader α} {next : α → Reader β} {a : α} {b : β} {s t : Text}
    {P Q : Text → Prop} (hfirst : Reads first a s P) (hnext : Reads (next a) b t Q)
    (hfollows : ∀ rest, Q rest → P (t ++ rest)) : Reads (first >>= next) b (s ++ t) Q := by
  intro rest hrest
  rw [List.append_assoc]
  exact bind_eq_ok_iff.mpr ⟨_, _, hfirst _ (hfollows rest hrest), hnext rest hrest, rfl⟩

theorem reads_pure (value : α) (P : Text → Prop) : Reads (pure value) value [] P :=
  fun _ _ => rfl

theorem reads_takeWhile {p : Char → Bool} {run : Text} (h : ∀ c ∈ run, p c = true) :
    Reads (takeWhile p) run run (StopsRun p) := by
  intro rest hrest
  simp only [takeWhile, takeWhile_append_stop h hrest, dropWhile_append_stop h hrest]

theorem reads_skip?_true (piece : Text) (P : Text → Prop) : Reads (skip? piece) true piece P := by
  intro rest _
  simp [skip?]

theorem reads_skip?_false (piece : Text) :
    Reads (skip? piece) false [] (fun rest => ¬ piece <+: rest) := by
  intro rest hrest
  simp [skip?, hrest]

theorem reads_expect (piece : Text) (fault : Fault) (P : Text → Prop) :
    Reads (expect piece fault) () piece P := by
  have h : Reads (expect piece fault) () (piece ++ []) P :=
    (reads_skip?_true piece P).bind (reads_pure () P) fun rest hrest => by simpa using hrest
  simpa using h

theorem reads_cutting {cut : Text → Option (Text × Text)} {fault : Fault} {piece : Text}
    {P : Text → Prop} (h : ∀ rest, P rest → cut (piece ++ rest) = some (piece, rest)) :
    Reads (cutting cut fault) piece piece P := by
  intro rest hrest
  simp [cutting, h rest hrest]

/-! ## Stopping -/

/-- The reader stops with the fault. -/
def Stops (r : Reader α) (t : Text) (fault : Fault) : Prop :=
  ∃ stop, r t = .error stop ∧ stop.fault = fault

/-- After a reading, a sequence stops where the reader that comes next does. -/
theorem Reads.bind_stops {first : Reader α} {next : α → Reader β} {a : α} {s t : Text}
    {P : Text → Prop} {fault : Fault} (hfirst : Reads first a s P) (ht : P t)
    (hnext : Stops (next a) t fault) : Stops (first >>= next) (s ++ t) fault := by
  obtain ⟨stop, hstop, rfl⟩ := hnext
  exact ⟨{ stop with read := s ++ stop.read },
    bind_eq_error_iff.mpr (.inr ⟨_, stop, hfirst t ht, hstop, rfl⟩), rfl⟩

theorem Stops.bind {first : Reader α} {next : α → Reader β} {t : Text} {fault : Fault}
    (h : Stops first t fault) : Stops (first >>= next) t fault := by
  obtain ⟨stop, hstop, hfault⟩ := h
  exact ⟨stop, bind_eq_error_iff.mpr (.inl hstop), hfault⟩

/-! ## The pieces of a reading -/

theorem takeWhile_eq_ok {p : Char → Bool} {t : Text} {x : Reading Text}
    (h : takeWhile p t = .ok x) :
    x.value = x.read ∧ (∀ c ∈ x.read, p c = true) ∧ StopsRun p x.rest := by
  cases h
  exact ⟨rfl, fun _ => List.mem_takeWhile_imp, stopsRun_dropWhile p t⟩

theorem skip?_eq_ok {piece t : Text} {x : Reading Bool} (h : skip? piece t = .ok x) :
    (x.value = true ∧ x.read = piece) ∨
      (x.value = false ∧ x.read = [] ∧ ¬ piece <+: x.rest) := by
  unfold skip? at h
  split at h <;> cases h
  · exact .inl ⟨rfl, rfl⟩
  · rename_i hpiece
    exact .inr ⟨rfl, rfl, mt List.isPrefixOf_iff_prefix.mpr hpiece⟩

theorem expect_eq_ok {piece t : Text} {fault : Fault} {x : Reading Unit}
    (h : expect piece fault t = .ok x) : x.read = piece := by
  obtain ⟨a, b, ha, hb, rfl⟩ := bind_eq_ok_iff.mp h
  rcases skip?_eq_ok ha with ⟨hv, hr⟩ | ⟨hv, -, -⟩
  · simp only [hv, Bool.not_true, Bool.false_eq_true, if_false] at hb
    cases hb
    simpa using hr
  · simp only [hv, Bool.not_false, if_true] at hb
    cases hb

theorem cutting_eq_ok {cut : Text → Option (Text × Text)} {fault : Fault} {t : Text}
    {x : Reading Text} (h : cutting cut fault t = .ok x) :
    x.value = x.read ∧ cut t = some (x.read, x.rest) := by
  unfold cutting at h
  cases hc : cut t with
  | none => simp [hc] at h
  | some parts =>
      obtain ⟨piece, rest⟩ := parts
      simp only [hc, Except.ok.injEq] at h
      subst h
      exact ⟨rfl, rfl⟩

end Reader

end TagTemplate

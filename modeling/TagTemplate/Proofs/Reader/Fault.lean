import TagTemplate.Reader

/-!
# The faults of a reader

`FaultsIn p r` says that `r` stops with no other faults than those that satisfy `p`.
-/

namespace TagTemplate.Reader

variable {α β : Type} {p : Fault → Prop}

/-- The reader stops with no other faults. -/
structure FaultsIn (p : Fault → Prop) (r : Reader α) : Prop where
  fault : ∀ {t stop}, r t = .error stop → p stop.fault

theorem faultsIn_pure (value : α) : FaultsIn p (pure value : Reader α) where
  fault h := nomatch h

theorem faultsIn_fail {fault : Fault} (hfault : p fault) : FaultsIn p (fail fault : Reader α) where
  fault h := by
    cases h
    exact hfault

theorem faultsIn_takeWhile (q : Char → Bool) : FaultsIn p (takeWhile q) where
  fault h := nomatch h

theorem faultsIn_skip? (piece : Text) : FaultsIn p (skip? piece) where
  fault h := by
    unfold skip? at h
    split at h
    · cases h
    · cases h

theorem FaultsIn.bind {first : Reader α} {next : α → Reader β} (hfirst : FaultsIn p first)
    (hnext : ∀ a, FaultsIn p (next a)) : FaultsIn p (first >>= next) where
  fault h := by
    rcases bind_eq_error_iff.mp h with h | ⟨a, s, -, hs, rfl⟩
    · exact hfirst.fault h
    · have hfault := (hnext a.value).fault hs
      exact hfault

theorem faultsIn_ite {c : Prop} [Decidable c] {r s : Reader α} (hr : FaultsIn p r)
    (hs : FaultsIn p s) : FaultsIn p (if c then r else s) := by
  split
  · exact hr
  · exact hs

theorem faultsIn_expect (piece : Text) {fault : Fault} (h : p fault) :
    FaultsIn p (expect piece fault) :=
  (faultsIn_skip? piece).bind fun _ => faultsIn_ite (faultsIn_fail h) (faultsIn_pure ())

theorem faultsIn_cutting (cut : Text → Option (Text × Text)) {fault : Fault} (hfault : p fault) :
    FaultsIn p (cutting cut fault) where
  fault h := by
    unfold cutting at h
    split at h
    · cases h
    · cases h
      exact hfault

end TagTemplate.Reader

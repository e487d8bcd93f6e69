import TagTemplate.Proofs.Reader.Reads
import TagTemplate.Proofs.Text.Place

/-!
# Where a reader ends and stops

`StaysOutside r` says that a reader which starts outside white space is outside of it again where it
ends and where it stops. Readers that take no white space at the end of their piece do so, and so
does the one that takes all white space ahead; the others are made of these.
-/

namespace TagTemplate.Reader

open Text

variable {α β : Type}

/-- From a place outside white space the reader gets to such places only. -/
structure StaysOutside (r : Reader α) : Prop where
  rest : ∀ {before t x}, OutsideSpace before t → r t = .ok x →
    OutsideSpace (before ++ x.read) x.rest
  stop : ∀ {before t stop}, OutsideSpace before t → r t = .error stop →
    ∃ after, t = stop.read ++ after ∧ OutsideSpace (before ++ stop.read) after

/-- What the reader takes does not end in white space, and where it stops it has taken nothing. -/
theorem staysOutside_of_read {r : Reader α} (hr : Faithful r)
    (hread : ∀ {t x}, r t = .ok x → StopsRun isSpace x.read.reverse)
    (hstop : ∀ {t s}, r t = .error s → s.read = []) : StaysOutside r where
  rest h hx := by
    rw [← hr.append hx] at h
    exact h.advance (hread hx)
  stop h hs := by
    rw [hstop hs]
    exact ⟨_, rfl, by rwa [List.append_nil]⟩

theorem staysOutside_pure (value : α) : StaysOutside (pure value : Reader α) :=
  staysOutside_of_read (faithful_pure value)
    (fun h => by
      cases h
      exact nofun)
    nofun

theorem staysOutside_fail (fault : Fault) : StaysOutside (fail fault : Reader α) :=
  staysOutside_of_read (faithful_fail fault) nofun fun h => by
    cases h
    rfl

theorem staysOutside_takeWhile {p : Char → Bool} (hp : ∀ c, p c = true → isSpace c = false) :
    StaysOutside (takeWhile p) :=
  staysOutside_of_read (faithful_takeWhile p)
    (fun h => by
      cases h
      exact stopsRun_reverse_of_forall fun c hc => hp c (List.mem_takeWhile_imp hc))
    nofun

/-- Behind all white space ahead there is none. -/
theorem staysOutside_spaces : StaysOutside spaces where
  rest _ hx := by
    cases hx
    exact .inr (stopsRun_dropWhile isSpace _)
  stop _ hs := nomatch hs

theorem staysOutside_skip? {piece : Text} (h : StopsRun isSpace piece.reverse) :
    StaysOutside (skip? piece) :=
  staysOutside_of_read (faithful_skip? piece)
    (fun hx => by
      rcases skip?_eq_ok hx with ⟨-, hread⟩ | ⟨-, hread, -⟩
      · rwa [hread]
      · rw [hread]
        exact nofun)
    (fun hs => by
      unfold skip? at hs
      split at hs
      · cases hs
      · cases hs)

theorem staysOutside_cutting {cut : Text → Option (Text × Text)} {fault : Fault}
    (happ : ∀ {t piece rest}, cut t = some (piece, rest) → piece ++ rest = t)
    (h : ∀ {t piece rest}, cut t = some (piece, rest) → StopsRun isSpace piece.reverse) :
    StaysOutside (cutting cut fault) :=
  staysOutside_of_read (faithful_cutting happ) (fun hx => h (cutting_eq_ok hx).2) fun hs => by
    unfold cutting at hs
    split at hs
    · cases hs
    · cases hs
      rfl

theorem StaysOutside.bind {first : Reader α} {next : α → Reader β} (hfirst : StaysOutside first)
    (hfaithful : Faithful first) (hnext : ∀ a, StaysOutside (next a)) :
    StaysOutside (first >>= next) where
  rest h hx := by
    obtain ⟨a, b, ha, hb, rfl⟩ := bind_eq_ok_iff.mp hx
    have hrest := (hnext a.value).rest (hfirst.rest h ha) hb
    rwa [List.append_assoc] at hrest
  stop h hs := by
    rcases bind_eq_error_iff.mp hs with hstop | ⟨a, s, ha, hstop, rfl⟩
    · exact hfirst.stop h hstop
    · obtain ⟨after, hsplit, hplace⟩ := (hnext a.value).stop (hfirst.rest h ha) hstop
      refine ⟨after, ?_, by rwa [List.append_assoc] at hplace⟩
      rw [← hfaithful.append ha, hsplit, List.append_assoc]

theorem staysOutside_ite {c : Prop} [Decidable c] {r s : Reader α} (hr : StaysOutside r)
    (hs : StaysOutside s) : StaysOutside (if c then r else s) := by
  split
  · exact hr
  · exact hs

theorem staysOutside_expect {piece : Text} (h : StopsRun isSpace piece.reverse) (fault : Fault) :
    StaysOutside (expect piece fault) :=
  (staysOutside_skip? h).bind (faithful_skip? piece) fun _ =>
    staysOutside_ite (staysOutside_fail fault) (staysOutside_pure ())

end TagTemplate.Reader

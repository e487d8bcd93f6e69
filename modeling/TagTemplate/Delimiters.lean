import TagTemplate.Text.Basic
import TagTemplate.Text.Quoted

/-!
# Delimiters

A tag stands between an opening and a closing marker. A pair that comes from outside is
checked: neither marker may be empty or hold white space. Pairs built directly from the
structure skip the check, and reading is total for them too.
-/

namespace TagTemplate

structure Delimiters where
  opener : String
  closer : String
deriving DecidableEq, Repr, Inhabited

structure InvalidDelimiters where
  marker : String
deriving DecidableEq, Repr

def InvalidDelimiters.message (e : InvalidDelimiters) : String :=
  "invalid delimiter " ++ quoted e.marker

namespace Delimiters

def standard : Delimiters := ⟨"\x7b\x7b", "\x7d\x7d"⟩

def isMarker (t : Text) : Bool := ! t.isEmpty && ! t.any isSpace

theorem isMarker_iff {t : Text} : isMarker t = true ↔ t ≠ [] ∧ ∀ c ∈ t, isSpace c = false := by
  simp [isMarker]

def Valid (d : Delimiters) : Prop :=
  isMarker d.opener.toList = true ∧ isMarker d.closer.toList = true

instance (d : Delimiters) : Decidable d.Valid := inferInstanceAs (Decidable (_ ∧ _))

theorem standard_valid : standard.Valid := by decide

/-- The checked pair. The opening marker is looked at first. -/
def ofMarkers (opener closer : String) : Except InvalidDelimiters Delimiters :=
  if ! isMarker opener.toList then .error ⟨opener⟩
  else if ! isMarker closer.toList then .error ⟨closer⟩
  else .ok ⟨opener, closer⟩

theorem ofMarkers_eq_ok_iff {opener closer : String} {d : Delimiters} :
    ofMarkers opener closer = .ok d ↔ d = ⟨opener, closer⟩ ∧ d.Valid := by
  unfold ofMarkers Valid
  cases ho : isMarker opener.toList with
  | false =>
      constructor
      · intro h
        cases h
      · intro h
        rcases h with ⟨rfl, h, -⟩
        simp [ho] at h
  | true =>
      cases hc : isMarker closer.toList with
      | false =>
          constructor
          · intro h
            cases h
          · intro h
            rcases h with ⟨rfl, -, h⟩
            simp [hc] at h
      | true =>
          constructor
          · intro h
            cases h
            exact ⟨rfl, ho, hc⟩
          · intro h
            rcases h with ⟨rfl, -, -⟩
            rfl

/-- Read a pair from a text such as `<% %>`: the markers stand apart by white space, and more
of it may surround them. Without a gap the whole text is refused. -/
def parse (s : String) : Except InvalidDelimiters Delimiters :=
  let t := Text.trim s.toList
  let opener := t.takeWhile (! isSpace ·)
  match t.dropWhile (! isSpace ·) with
  | [] => .error ⟨String.ofList t⟩
  | _ :: rest => ofMarkers (String.ofList opener) (String.ofList (Text.trimStart rest))

end Delimiters

/-! ## Limits -/

/-- The markers that patterns can hold, opening and closing ones apart. The patterns of a pair are
built by the host, which refuses what is too long for it, but never the default pair. -/
class MarkerLimits where
  takesOpener : String → Bool
  takesCloser : String → Bool
  takesOpener_standard : takesOpener Delimiters.standard.opener = true
  takesCloser_standard : takesCloser Delimiters.standard.closer = true

/-- Limits to run the program with, as they were measured for markers in ASCII. Results are stated
for all limits. -/
instance MarkerLimits.measured : MarkerLimits where
  takesOpener opener := opener.utf8ByteSize ≤ 327666
  takesCloser closer := closer.utf8ByteSize ≤ 327649
  takesOpener_standard := by decide
  takesCloser_standard := by decide

namespace Delimiters

/-- A template can be read with the pair. -/
def withinLimit [MarkerLimits] (d : Delimiters) : Bool :=
  MarkerLimits.takesOpener d.opener && MarkerLimits.takesCloser d.closer

theorem standard_withinLimit [MarkerLimits] : standard.withinLimit = true := by
  rw [withinLimit, MarkerLimits.takesOpener_standard, MarkerLimits.takesCloser_standard]
  rfl

end Delimiters

end TagTemplate

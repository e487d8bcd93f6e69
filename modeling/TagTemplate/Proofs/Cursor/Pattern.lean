import TagTemplate.Pattern.Catalogue
import TagTemplate.Proofs.Cursor.Run

/-!
# The engine of patterns

The patterns of the tag language can be searched for by offsets. The engine that does so is lawful,
and a cursor over it performs what a cursor performs, wherever in the source it stands.
-/

namespace TagTemplate

open Text

/-! ## Seeking -/

namespace Place

def between (before ahead : Text) : Place := ⟨before.getLast?, ahead⟩

/-- `p` holds behind the piece, and it holds nowhere before from the end of the front on. -/
structure First (p : Place → Bool) (front piece after : Text) : Prop where
  holds : p (between (front ++ piece) after) = true
  fails (s u : Text) (hpiece : piece = s ++ u) (hu : u ≠ []) :
    p (between (front ++ s) (u ++ after)) = false

variable {p : Place → Bool} {front piece after t seen text : Text} {found : Place}

theorem First.nil (h : p (between front after) = true) : First p front [] after where
  holds := by rwa [List.append_nil]
  fails _ _ hnil hu := absurd (List.append_eq_nil_iff.mp hnil.symm).2 hu

theorem First.cons {c : Char} (hc : p (between front (c :: (piece ++ after))) = false)
    (h : First p (front ++ [c]) piece after) : First p front (c :: piece) after where
  holds := by simpa using h.holds
  fails s u hpiece hu := by
    rcases List.cons_eq_append_iff.mp hpiece with ⟨rfl, rfl⟩ | ⟨s, rfl, hs⟩
    · simpa using hc
    · simpa using h.fails s u hs hu

theorem seek?_go_eq_some (h : seek?.go p front.getLast? t seen = some (text, found)) :
    ∃ piece after, text = seen.reverse ++ piece ∧ t = piece ++ after ∧
      found = between (front ++ piece) after ∧ First p front piece after := by
  induction t generalizing front seen with
  | nil =>
      rw [seek?.go] at h
      split at h
      · cases h
        exact ⟨[], [], by simp, rfl, by simp [between], .nil ‹_›⟩
      · cases h
  | cons c t ih =>
      rw [seek?.go] at h
      split at h
      · cases h
        exact ⟨[], c :: t, by simp, rfl, by simp [between], .nil ‹_›⟩
      · rename_i hc
        rw [← List.getLast?_concat (l := front)] at h
        obtain ⟨piece, after, rfl, rfl, rfl, hfirst⟩ := ih h
        exact ⟨c :: piece, after, by simp, rfl, by simp, .cons (by simpa [between] using hc) hfirst⟩

theorem seek?_go_eq_none (h : seek?.go p front.getLast? t seen = none) (s u : Text)
    (ht : t = s ++ u) : p (between (front ++ s) u) = false := by
  induction t generalizing front seen s with
  | nil =>
      obtain ⟨rfl, rfl⟩ := List.append_eq_nil_iff.mp ht.symm
      simpa [seek?.go, between] using h
  | cons c t ih =>
      rw [seek?.go] at h
      split at h
      · cases h
      · rename_i hc
        rcases List.cons_eq_append_iff.mp ht with ⟨rfl, rfl⟩ | ⟨s, rfl, hs⟩
        · simpa [between] using hc
        · rw [← List.getLast?_concat (l := front)] at h
          simpa using ih h s hs

theorem first_of_seek? (h : (between front t).seek? p = some (text, found)) :
    ∃ after, t = text ++ after ∧ found = between (front ++ text) after ∧
      First p front text after := by
  obtain ⟨piece, after, rfl, rfl, rfl, hfirst⟩ := seek?_go_eq_some h
  exact ⟨after, rfl, rfl, hfirst⟩

theorem fails_of_seek?_eq_none (h : (between front t).seek? p = none) (s u : Text)
    (ht : t = s ++ u) : p (between (front ++ s) u) = false :=
  seek?_go_eq_none h s u ht

end Place

/-! ## The engine -/

namespace Pattern

open Place

/-- Search for a pattern by offsets. -/
def engine : Engine Pattern where
  search q t offset := do
    let place ← Cursor.seekPlace? ⟨String.ofList t, offset⟩
    let (_, found) ← q.find? place
    let way ← q.match? found
    return ⟨size t - size found.ahead, size t - size way.stop.ahead,
      Cursor.groupTexts q.groupCount way.groups⟩

/-- The pattern can match what lies between the offsets, seen in the whole text. -/
def MatchesBetween (q : Pattern) (t : Text) (start stop : Nat) : Prop :=
  ∃ before piece after, t = before ++ piece ++ after ∧ size before = start ∧
    size (before ++ piece) = stop ∧
    ∃ way ∈ q.ways (between before (piece ++ after)), way.stop.ahead = after

variable {q : Pattern} {before ahead : Text}

def finding (q : Pattern) (before text after : Text) (way : Way) : Finding :=
  ⟨size (before ++ text), size (before ++ text ++ after) - size way.stop.ahead,
    Cursor.groupTexts q.groupCount way.groups⟩

/-- Nothing is found where nothing is to be found, or else the preferred match at the first place
where the pattern matches. -/
theorem search_cases (q : Pattern) (before ahead : Text) :
    engine.search q (before ++ ahead) (size before) = none ∧ q.find? (between before ahead) = none ∨
      ∃ text after way, ahead = text ++ after ∧
        q.find? (between before ahead) = some (text, between (before ++ text) after) ∧
        q.match? (between (before ++ text) after) = some way ∧
        First q.matchesAt before text after ∧
        engine.search q (before ++ ahead) (size before) =
          some (q.finding before text after way) := by
  have hplace : Cursor.seekPlace? ⟨String.ofList (before ++ ahead), size before⟩ =
      some (between before ahead) :=
    Machine.seekPlace?_eq (Cursor.split_eq_ok_iff.mpr ⟨String.toList_ofList, rfl⟩)
  simp only [engine, hplace, Option.bind_eq_bind, Option.bind_some]
  cases hfind : q.find? (between before ahead) with
  | none => exact .inl ⟨rfl, rfl⟩
  | some stop =>
      obtain ⟨text, found⟩ := stop
      have hseek := hfind
      rw [find?_eq_seek?] at hseek
      obtain ⟨after, rfl, rfl, hfirst⟩ := first_of_seek? hseek
      obtain ⟨way, hway⟩ := Option.isSome_iff_exists.mp hfirst.holds
      refine .inr ⟨text, after, way, rfl, rfl, hway, hfirst, ?_⟩
      have hstart : size (before ++ (text ++ after)) - size after = size (before ++ text) := by
        rw [← List.append_assoc, size_append, Nat.add_sub_cancel_right]
      simp only [Option.bind_some, hway, finding, List.append_assoc, ← hstart]
      rfl

theorem exists_matchesAt {start stop : Nat} (h : MatchesBetween q (before ++ ahead) start stop)
    (hle : size before ≤ start) : ∃ s u, ahead = s ++ u ∧ size (before ++ s) = start ∧
      q.matchesAt (between (before ++ s) u) = true := by
  obtain ⟨front, piece, after, happ, rfl, -, way, hway, -⟩ := h
  rw [List.append_assoc] at happ
  obtain ⟨s, rfl⟩ := exists_append_of_size_le happ hle
  rw [List.append_assoc, List.append_cancel_left_eq] at happ
  refine ⟨s, piece ++ after, happ, rfl, eq_true_of_ne_false fun hno => ?_⟩
  rw [matchesAt_eq_false_iff.mp hno] at hway
  cases hway

theorem engine_lawful : engine.Lawful MatchesBetween where
  found {q t offset m} ht h := by
    obtain ⟨before, ahead, rfl, rfl⟩ := ht
    rcases search_cases q before ahead with ⟨hnone, -⟩ | ⟨text, after, way, rfl, -, hway, -, hsome⟩
    · rw [hnone] at h
      cases h
    · rw [hsome] at h
      cases h
      obtain ⟨piece, hpiece⟩ := reaches_of_match? hway
      rw [between] at hpiece
      subst hpiece
      have happ : before ++ (text ++ (piece ++ way.stop.ahead)) =
          before ++ text ++ piece ++ way.stop.ahead := by simp
      have hstop : (q.finding before text (piece ++ way.stop.ahead) way).stop =
          size (before ++ text ++ piece) := by
        rw [finding, ← List.append_assoc, size_append _ way.stop.ahead, Nat.add_sub_cancel_right]
      rw [hstop, happ]
      refine ⟨?_, ?_, ?_, ?_, ?_⟩
      · simp [finding]
      · simp [finding]
      · exact ⟨before ++ text, piece ++ way.stop.ahead, by simp, rfl⟩
      · exact ⟨before ++ text ++ piece, way.stop.ahead, rfl, rfl⟩
      · exact ⟨before ++ text, piece, way.stop.ahead, rfl, rfl, rfl, way,
          List.mem_of_mem_head? hway, rfl⟩
  leftmost {q t offset m} ht h start stop hle hlt hmatch := by
    obtain ⟨before, ahead, rfl, rfl⟩ := ht
    obtain ⟨s, u, hs, rfl, hat⟩ := exists_matchesAt hmatch hle
    rcases search_cases q before ahead with
      ⟨hnone, -⟩ | ⟨text, after, way, rfl, -, -, hfirst, hsome⟩
    · rw [hnone] at h
      cases h
    · rw [hsome] at h
      cases h
      obtain ⟨rest, rfl⟩ : ∃ rest, text = s ++ rest := by
        refine exists_append_of_size_le hs.symm ?_
        simp only [finding, size_append] at hlt
        omega
      have hrest : rest ≠ [] := by
        rintro rfl
        rw [List.append_nil] at hlt
        exact Nat.lt_irrefl _ hlt
      rw [List.append_assoc, List.append_cancel_left_eq] at hs
      rw [← hs, hfirst.fails s rest rfl hrest] at hat
      cases hat
  missing {q t offset} ht h start stop hle hmatch := by
    obtain ⟨before, ahead, rfl, rfl⟩ := ht
    obtain ⟨s, u, hs, -, hat⟩ := exists_matchesAt hmatch hle
    rcases search_cases q before ahead with ⟨-, hnone⟩ | ⟨text, after, way, rfl, -, -, -, hsome⟩
    · rw [find?_eq_seek?] at hnone
      rw [fails_of_seek?_eq_none hnone s u hs] at hat
      cases hat
    · rw [hsome] at h
      cases h

end Pattern

/-! ## Agreement -/

namespace Engine

open Pattern Place

def Op.ofCursor : Cursor.Op → Op Pattern
  | .scan q => .scan q
  | .skip q => .skip q
  | .captures q => .captures q
  | .scanUntil q => .scanUntil q
  | .skipText piece => .skipText piece
  | .reset offset => .reset offset
  | .terminate => .terminate
  | .rest => .rest
  | .source => .source

/-- What fails inside a character is the cutting out of a text. -/
def cutting {α : Type} (x : Except Cursor.InsideCharacter α) : Machine.Checked α :=
  x.mapError fun _ => .panic .slice

section Agreement

variable {c : Cursor} {before ahead : Text} {inside : Cursor.InsideCharacter}

theorem slice_of_inside (hc : c.split = .error inside) (stop : Nat) :
    Machine.slice c.source.toList c.offset stop = .error (.panic .slice) := by
  unfold Machine.slice
  split
  · rfl
  · rename_i before ahead hstop
    split
    · rfl
    · rename_i front piece hstart
      obtain ⟨happ, -⟩ := splitAtSize?_eq_some_iff.mp hstop
      obtain ⟨rfl, hsize⟩ := splitAtSize?_eq_some_iff.mp hstart
      rw [List.append_assoc] at happ
      rw [Cursor.split_eq_ok_iff.mpr ⟨happ, hsize⟩] at hc
      cases hc

theorem rest_eq_cutting (c : Cursor) : rest c = cutting c.rest := by
  cases hc : c.split with
  | ok parts =>
      obtain ⟨before, ahead⟩ := parts
      rw [rest_eq hc, Cursor.rest, hc]
      rfl
  | error inside =>
      rw [rest, slice_of_inside hc, Cursor.rest, hc]
      rfl

def findingHere (q : Pattern) (text : Text) (way : Way) : Finding :=
  ⟨0, size text, Cursor.groupTexts q.groupCount way.groups⟩

theorem search_of_match? {q : Pattern} {piece : Text} {way : Way}
    (h : q.match? (Place.start (piece ++ way.stop.ahead)) = some way) :
    engine.search q (piece ++ way.stop.ahead) 0 = some (findingHere q piece way) := by
  have hat : q.matchesAt (between [] (piece ++ way.stop.ahead)) = true :=
    Option.isSome_iff_exists.mpr ⟨way, h⟩
  rcases search_cases q [] (piece ++ way.stop.ahead) with
    ⟨-, hnone⟩ | ⟨text, after, way', happ, -, hway, hfirst, hsome⟩
  · rw [find?_eq_seek?] at hnone
    cases hat.symm.trans (fails_of_seek?_eq_none hnone [] _ rfl)
  · by_cases hnil : text = []
    · subst hnil
      rw [happ] at h
      cases h.symm.trans hway
      refine hsome.trans (congrArg some ?_)
      simp [finding, findingHere, ← happ]
    · rw [happ] at hat
      cases hat.symm.trans (hfirst.fails [] text rfl hnil)

theorem search_start_ne_zero {q : Pattern} {m : Finding} (h : q.match? (Place.start ahead) = none)
    (hm : engine.search q ahead 0 = some m) : m.start ≠ 0 := by
  rcases search_cases q [] ahead with ⟨hnone, -⟩ | ⟨text, after, way, rfl, -, hway, -, hsome⟩
  · cases hnone.symm.trans hm
  · cases hsome.symm.trans hm
    intro hstart
    obtain rfl : text = [] := size_eq_zero_iff.mp hstart
    cases h.symm.trans hway

theorem matchHere?_eq_cutting (c : Cursor) (q : Pattern) :
    engine.matchHere? q c = cutting (do
      let found? ← c.matchRest? q
      return found?.map fun (text, way) => (text, findingHere q text way)) := by
  cases hc : c.split with
  | error inside =>
      rw [matchHere?, rest, slice_of_inside hc, Cursor.matchRest?, Cursor.rest, hc]
      rfl
  | ok parts =>
      obtain ⟨before, ahead⟩ := parts
      rw [matchHere?, rest_eq hc, Machine.ok_bind]
      cases hmatch : q.match? (Place.start ahead) with
      | none =>
          rw [Machine.matchRest?_eq_none hc hmatch]
          cases hm : engine.search q ahead 0 with
          | none => rfl
          | some m => exact if_neg (search_start_ne_zero hmatch hm)
      | some way =>
          obtain ⟨piece, rfl⟩ := reaches_of_match? hmatch
          rw [Machine.matchRest?_of_match? hc rfl hmatch rfl, search_of_match? hmatch]
          simp only [findingHere, Machine.slice_zero_append, Machine.ok_bind]
          rfl

theorem isSome_search (c : Cursor) (q : Pattern) :
    (engine.search q c.source.toList c.offset).isSome = (c.seekPlace?.bind q.find?).isSome := by
  simp only [engine, String.ofList_toList, Option.bind_eq_bind]
  cases c.seekPlace? with
  | none => rfl
  | some place =>
      simp only [Option.bind_some]
      cases hfind : q.find? place with
      | none => rfl
      | some stop =>
          rw [find?_eq_seek?] at hfind
          obtain ⟨way, hway⟩ := Option.isSome_iff_exists.mp (Place.seek?_append hfind).2
          simp [hway]

theorem scanUntil_eq_cutting (hle : c.offset ≤ c.size) (q : Pattern) :
    engine.perform c (.scanUntil q) = cutting (c.scanUntil q) := by
  rw [perform, if_neg (Nat.not_lt.mpr hle), Cursor.scanUntil]
  cases hc : c.split with
  | error inside =>
      have hsome := isSome_search c q
      cases hfind : c.seekPlace?.bind q.find? with
      | none =>
          rw [hfind] at hsome
          rw [Option.not_isSome_iff_eq_none.mp (Bool.eq_false_iff.mp hsome)]
          rfl
      | some stop =>
          rw [hfind] at hsome
          obtain ⟨m, hm⟩ := Option.isSome_iff_exists.mp hsome
          rw [hm]
          simp only [slice_of_inside hc]
          rfl
  | ok parts =>
      obtain ⟨before, ahead⟩ := parts
      obtain ⟨hs, hn⟩ := Cursor.split_eq_ok_iff.mp hc
      rw [Machine.seekPlace?_eq hc, Option.bind_some, hs, ← hn]
      rcases search_cases q before ahead with
        ⟨hnone, hfind⟩ | ⟨text, after, way, rfl, hfind, -, -, hsome⟩
      · rw [between] at hfind
        rw [hnone, hfind]
        rfl
      · rw [between] at hfind
        rw [hsome, hfind]
        simp only [finding, ← List.append_assoc, size_append before text, Machine.slice_append]
        rw [Cursor.advance, ← hn]
        rfl

theorem perform_eq_cutting (hle : c.offset ≤ c.size) (op : Cursor.Op) :
    engine.perform c (.ofCursor op) = cutting (c.perform op) := by
  cases op with
  | scan q | skip q | captures q =>
      simp only [Op.ofCursor, perform, passMatch, matchHere?_eq_cutting, Cursor.perform,
        Cursor.scan, Cursor.skip, Cursor.captures]
      rcases c.matchRest? q with inside | _ | ⟨text, way⟩
      · rfl
      · rfl
      · rfl
  | scanUntil q => exact scanUntil_eq_cutting hle q
  | skipText piece =>
      simp only [Op.ofCursor, perform, rest_eq_cutting, Cursor.perform, Cursor.skipText]
      rcases c.rest with inside | ahead
      · rfl
      · rw [Cursor.advance, size_toList]
        change ite _ _ _ = cutting (ite _ _ _)
        rw [apply_ite cutting]
        rfl
  | reset offset => rfl
  | terminate => rfl
  | rest =>
      simp only [Op.ofCursor, perform, rest_eq_cutting, Cursor.perform]
      rcases c.rest with inside | ahead
      · rfl
      · rfl
  | source => rfl

end Agreement

/-! ## Exactness -/

/-- Over every lawful engine the operations of a cursor pass over exactly what they report, in every
run and without a panic. The engine of patterns is lawful, and over it a cursor performs what it
performs without an engine. -/
theorem operations_exact :
    (∀ (Q : Type) (E : Engine Q) (Matches : Q → Text → Nat → Nat → Prop), E.Lawful Matches →
      ∀ (source : String) (history : List (Step Q)) (c : Cursor), E.Runs source history c →
        E.RunsExactly Matches source history c) ∧
    engine.Lawful MatchesBetween ∧
    ∀ c : Cursor, c.offset ≤ c.size → ∀ op : Cursor.Op,
      engine.perform c (.ofCursor op) = cutting (c.perform op) :=
  ⟨fun _ _ _ hE _ _ _ h => h.runsExactly hE, engine_lawful, fun _ => perform_eq_cutting⟩

def twoOpeners : String := "né  \x7b\x7bx k= 7\n  \x7b\x7by"

/-- The search sees that the next marker does not open a line. -/
def seekingSteps : List (Step Pattern) :=
  [⟨.skipText "né", 0, .flag true, 3⟩,
    ⟨.scanUntil (.lineOpening .standard), 3, .text "  \x7b\x7bx k= 7\n", 14⟩]

/-- A match does not see the line before, so back at the marker it opens a line. -/
def matchingSteps : List (Step Pattern) :=
  [⟨.reset 3, 14, .nothing, 3⟩, ⟨.scan (.lineOpening .standard), 3, .text "  \x7b\x7b", 7⟩]

/-- The numeral does not stand at the equals sign, so its group holds nothing. -/
def capturingSteps : List (Step Pattern) :=
  [⟨.scanUntil .assignment, 7, .text "x ", 9⟩,
    ⟨.captures .assignment, 9, .groups [some "k=", some "k", none], 11⟩,
    ⟨.scan .digits, 11, .nothing, 11⟩]

/-- A run behind a character of two bytes, first without a jump and then with one. -/
theorem operations_exact_twoOpeners :
    engine.Runs twoOpeners seekingSteps ⟨twoOpeners, 14⟩ ∧
      seekingSteps.flatMap (Step.consumed twoOpeners.toList) = "né  \x7b\x7bx k= 7\n".toList ∧
      engine.Runs twoOpeners (seekingSteps ++ matchingSteps ++ capturingSteps) ⟨twoOpeners, 11⟩ ∧
      engine.RunsExactly MatchesBetween twoOpeners
        (seekingSteps ++ matchingSteps ++ capturingSteps) ⟨twoOpeners, 11⟩ := by
  obtain ⟨hexact, hlawful, -⟩ := operations_exact
  have hskip : engine.perform ⟨twoOpeners, 0⟩ (.skipText "né") =
      .ok (.flag true, ⟨twoOpeners, 3⟩) := rfl
  have hseek : engine.perform ⟨twoOpeners, 3⟩ (.scanUntil (.lineOpening .standard)) =
      .ok (.text "  \x7b\x7bx k= 7\n", ⟨twoOpeners, 14⟩) := rfl
  have hreset : engine.perform ⟨twoOpeners, 14⟩ (.reset 3) =
      .ok (.nothing, ⟨twoOpeners, 3⟩) := rfl
  have hscan : engine.perform ⟨twoOpeners, 3⟩ (.scan (.lineOpening .standard)) =
      .ok (.text "  \x7b\x7b", ⟨twoOpeners, 7⟩) := rfl
  have hname : engine.perform ⟨twoOpeners, 7⟩ (.scanUntil .assignment) =
      .ok (.text "x ", ⟨twoOpeners, 9⟩) := rfl
  have hcapture : engine.perform ⟨twoOpeners, 9⟩ (.captures .assignment) =
      .ok (.groups [some "k=", some "k", none], ⟨twoOpeners, 11⟩) := rfl
  have hdigits : engine.perform ⟨twoOpeners, 11⟩ (.scan .digits) =
      .ok (.nothing, ⟨twoOpeners, 11⟩) := rfl
  have hseeking : engine.Runs twoOpeners seekingSteps ⟨twoOpeners, 14⟩ :=
    (Runs.start.step (by decide) hskip).step (by decide) hseek
  have hmatching : engine.Runs twoOpeners (seekingSteps ++ matchingSteps) ⟨twoOpeners, 7⟩ :=
    (hseeking.step (by decide) hreset).step (by decide) hscan
  have hcapturing := ((hmatching.step (by decide) hname).step (by decide) hcapture).step
    (by decide) hdigits
  refine ⟨hseeking, ?_, hcapturing, hexact _ _ _ hlawful _ _ _ hcapturing⟩
  exact (hexact _ _ _ hlawful _ _ _ hseeking).consumed (by simp [seekingSteps, Op.jumps])

end Engine

end TagTemplate

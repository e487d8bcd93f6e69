import TagTemplate.Proofs.Machine.Safety

/-!
# The machine makes progress

A round looks for a tag and, if none opens, reads a run of text. The look for a tag and the search
for the end of a run of text are made with different patterns. Where the first finds no tag the
second does not match, so that a run of text is never empty, and the machine reaches the end of the
template in no more rounds than the template has bytes.
-/

namespace TagTemplate.Machine

open Text

section

variable [MarkerLimits]

namespace State

def scanTag (s : State) : Checked (Bool × State) := do
  match ← s.openTag with
  | some (opening, opened) => return (true, ← opened.readTag opening)
  | none =>
      let (_, cursor) ← captures (Pattern.tagOpening s.delimiters) s.cursor
      return (false, s.withCursor cursor)

/-- Do rounds up to the end of the template, but no more than so many. Nothing looks whether a round
moves the cursor. -/
def runWithin : (rounds : Nat) → State → Checked (List Node)
  | 0, s => if s.cursor.atEnd then s.finish else .error (.panic .standstill)
  | rounds + 1, s =>
      if s.cursor.atEnd then s.finish
      else do
        let t ← s.round
        runWithin rounds t

/-- How a round goes on from a state with some of the template ahead. -/
structure Progresses (s : State) : Prop where
  /-- A round looks for a tag and, where none opens, reads a run of text. -/
  round_eq : s.round = s.scanTag >>= fun scanned =>
    if scanned.1 then .ok scanned.2 else scanned.2.readText
  /-- It moves the cursor on or blames the template. -/
  round : (∃ t, s.round = .ok t ∧ s.cursor.offset < t.cursor.offset) ∨
    ∃ error, s.round = .error (.refused error)
  /-- A tag that has been read took up at least a byte. -/
  tag : ∀ t, s.scanTag = .ok (true, t) → s.cursor.offset < t.cursor.offset
  /-- Where no tag opens, nothing has changed and no run of text ends. One is read that is not
  empty, and becomes a node. -/
  text : ∀ t, s.scanTag = .ok (false, t) → t = s ∧
    (∃ place, s.cursor.seekPlace? = some place ∧
      (Pattern.textEnd s.delimiters).matchesAt place = false) ∧
    ∃ text u, text ≠ [] ∧ s.readText = .ok u ∧ u.cursor = s.cursor.advance text ∧
      (s.withCursor (s.cursor.advance text)).push (.static (String.ofList text)) = .ok u

end State

/-! ## One round -/

section Round

variable {d : Delimiters} {template : String} {a : Assembly} {t : Text}

omit [MarkerLimits] in
theorem ne_nil_of_atEnd (h : Aligned template a t)
    (hend : (image d template a).cursor.atEnd = false) : t ≠ [] := by
  intro hnil
  rw [(atEnd_image_iff h).mpr hnil] at hend
  cases hend

theorem scanTag_image_of_some {indent u : Text} (h : Aligned template a t)
    (hopen : splitOpening d.opener.toList t = some (indent, u)) :
    (image d template a).scanTag = (image d template a).round.map fun t => (true, t) := by
  rw [State.scanTag, openTag_image_of_some h hopen, round_of_opening h hopen, ok_bind]
  dsimp only
  rw [← cursorIn]
  cases (stacked (cursorIn d template a indent) d a.openBlocks (nodesBefore a indent) []).readTag
      (openingOf a indent) with
  | ok t => rfl
  | error halt => rfl

theorem scanTag_image_of_none (h : Aligned template a t)
    (hopen : splitOpening d.opener.toList t = none) :
    (image d template a).scanTag = .ok (false, image d template a) := by
  have hcaptures : captures (Pattern.tagOpening d) (image d template a).cursor =
      .ok (none, ⟨template, a.offset⟩) := captures_tagOpening_of_none h.split hopen
  rw [State.scanTag, openTag_image_of_none h hopen, ok_bind]
  dsimp only
  rw [delimiters_image, hcaptures, ok_bind]
  rfl

omit [MarkerLimits] in
theorem readText_image (h : Aligned template a t)
    (hopen : splitOpening d.opener.toList t = none) (ht : t ≠ []) :
    ∃ text u, text ≠ [] ∧ (image d template a).readText = .ok u ∧
      u.cursor = (image d template a).cursor.advance text ∧
      ((image d template a).withCursor ((image d template a).cursor.advance text)).push
        (.static (String.ofList text)) = .ok u := by
  have hne : (splitText d.opener.toList t).1 ≠ [] := splitText_ne_nil ht
  have hscan : scanText (image d template a).delimiters (image d template a).cursor =
      .ok ((splitText d.opener.toList t).1,
        (image d template a).cursor.advance (splitText d.opener.toList t).1) :=
    scanText_eq h.split hopen
  have hpush := @push_stacked ((image d template a).cursor.advance (splitText d.opener.toList t).1)
    d a.openBlocks a.layer.nodes.reverse (.static (String.ofList (splitText d.opener.toList t).1))
  refine ⟨_, _, hne, ?_, rfl, hpush⟩
  rw [State.readText, hscan, ok_bind]
  dsimp only
  rw [State.pushText, if_neg hne]
  exact hpush

theorem round_image_advances (h : Aligned template a t) (ht : t ≠ []) :
    (∃ s, (image d template a).round = .ok s ∧
      (image d template a).cursor.offset < s.cursor.offset) ∨
    ∃ error, (image d template a).round = .error (.refused error) := by
  refine (sound_image h).round ?_
  cases hend : (image d template a).cursor.atEnd with
  | false => rfl
  | true => exact absurd ((atEnd_image_iff h).mp hend) ht

theorem progresses_image (h : Aligned template a t) (ht : t ≠ []) :
    (image d template a).Progresses := by
  have hround := @round_image_advances _ d template a t h ht
  cases hopen : splitOpening d.opener.toList t with
  | some parts =>
      have hscan := @scanTag_image_of_some _ d template a t parts.1 parts.2 h hopen
      refine ⟨?_, hround, ?_, ?_⟩
      · rw [hscan]
        cases (image d template a).round with
        | ok s => rfl
        | error halt => rfl
      · intro s hs
        rcases hround with ⟨s', hok, hlt⟩ | ⟨error, herror⟩
        · rw [hscan, hok] at hs
          cases hs
          exact hlt
        · rw [hscan, herror] at hs
          cases hs
      · intro s hs
        rcases hround with ⟨s', hok, -⟩ | ⟨error, herror⟩
        · rw [hscan, hok] at hs
          cases hs
        · rw [hscan, herror] at hs
          cases hs
  | none =>
      have hscan := @scanTag_image_of_none _ d template a t h hopen
      refine ⟨?_, hround, ?_, ?_⟩
      · rw [hscan, State.round, openTag_image_of_none h hopen]
        rfl
      · intro s hs
        rw [hscan] at hs
        cases hs
      · intro s hs
        rw [hscan] at hs
        cases hs
        exact ⟨rfl, ⟨_, seekPlace?_eq h.split, Pattern.matchesAt_textEnd_eq_false hopen⟩,
          readText_image h hopen ht⟩

end Round

/-! ## Whole runs -/

theorem runWithin_image {template : String} {a : Assembly} {t : Text} {rounds : Nat}
    (d : Delimiters) (h : Aligned template a t) (hle : size t ≤ rounds) :
    (image d template a).runWithin rounds = (image d template a).run := by
  induction rounds generalizing d a t with
  | zero =>
      have ht : t = [] := size_eq_zero_iff.mp (by omega)
      have hend := (@atEnd_image_iff d template a t h).mpr ht
      rw [State.runWithin, if_pos hend, State.run, if_pos hend]
  | succ rounds ih =>
      rw [State.runWithin, State.run]
      by_cases ht : t = []
      · have hend := (@atEnd_image_iff d template a t h).mpr ht
        rw [if_pos hend, if_pos hend]
      · have hend : ¬ (image d template a).cursor.atEnd = true := ht ∘ (atEnd_image_iff h).mp
        rw [if_neg hend, if_neg hend]
        rcases round_cases d h ht with ⟨lexeme, rest, b, -, -, hb, hlt, hround⟩ |
          ⟨_, _, _, -, -, hround⟩ | ⟨_, _, -, -, hround⟩
        · have hmoves : (image (lexeme.delimitersAfter d) template b).remaining <
              (image d template a).remaining := by
            rw [remaining_image h, remaining_image hb]
            exact hlt
          rw [hround, ok_bind]
          dsimp only
          rw [if_pos hmoves]
          exact ih (lexeme.delimitersAfter d) hb (by omega)
        · rw [hround]
          rfl
        · rw [hround]
          rfl

theorem run_start_ne_panic (d : Delimiters) (template : String) (cause : Panic) :
    (State.start d template).run ≠ .error (.panic cause) := by
  rw [start_eq_image d template [], run_image d (aligned_start template [])]
  generalize (Assembly.ofLexemes { log := [] } _ >>= Assembly.finish) = answer
  cases answer with
  | ok nodes => nofun
  | error failure => nofun

/-- Every round makes progress, whatever the template and the markers are: it blames the template,
or it reads a tag of at least a byte, or it finds no tag, leaves everything as it was and reads a
run of text that is not empty. So the run of a machine that never looks whether it moves is the run
of the machine, which does not panic, with no more rounds than the template has bytes. -/
theorem run_progresses (d : Delimiters) (template : String) :
    (∀ s, Reachable d template s → s.cursor.atEnd = false → s.Progresses) ∧
      (State.start d template).runWithin template.utf8ByteSize = (State.start d template).run ∧
        ∀ cause, (State.start d template).run ≠ .error (.panic cause) := by
  refine ⟨?_, ?_, run_start_ne_panic d template⟩
  · intro s hs hend
    obtain ⟨pair, a, t, ha, rfl⟩ := exists_image_of_reachable hs
    exact progresses_image ha (ne_nil_of_atEnd ha hend)
  · rw [start_eq_image d template []]
    exact runWithin_image d (aligned_start template []) (Nat.le_of_eq (size_toList template))

end

/-- A template of six bytes is read in at most six rounds, each of which makes progress. -/
theorem run_progresses_six :
    ∃ template, template = "a\x7b\x7bb\x7d\x7d" ∧
      (State.start .standard template).cursor.atEnd = false ∧
      (State.start .standard template).Progresses ∧
      (State.start .standard template).runWithin 6 = (State.start .standard template).run := by
  have h := run_progresses .standard "a\x7b\x7bb\x7d\x7d"
  exact ⟨_, rfl, by decide, h.1 _ .start (by decide), h.2.1⟩

end TagTemplate.Machine

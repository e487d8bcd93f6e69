import TagTemplate.Proofs.Machine.Round

/-!
# The machine never panics

A round takes the image of an assembly to the image of the assembly with the next lexeme. So every
state that the machine reaches is such an image, in which the cursor and all remembered offsets
stand between two characters, and the machine answers what the compile answers.
-/

namespace TagTemplate.Machine

open Text

variable {d : Delimiters} {template : String}

/-! ## One round -/

section Step

variable {a b : Assembly} {t rest : Text} {lexeme : Lexeme}

theorem openBlocks_of_add (hadd : a.add lexeme = .ok b) :
    b.openBlocks <:+ a.openBlocks ∨ ∃ (tag : Tag) (inverted : Bool) (name : Text),
      lexeme = .tag tag ∧ b = a.enter tag inverted name := by
  cases lexeme with
  | text t =>
      cases hadd
      exact .inl (List.suffix_refl _)
  | tag tag =>
      cases hdirective : tag.directive with
      | openBlock inverted name =>
          rw [Assembly.add_opening a hdirective] at hadd
          cases hadd
          exact .inr ⟨tag, inverted, name, rfl, rfl⟩
      | closeBlock name =>
          obtain ⟨block, blocks, hblocks, -⟩ :=
            Assembly.exists_openBlocks_of_add_closing hdirective hadd
          rw [hblocks, (add_of_closeBlock hblocks hdirective hadd).1]
          exact .inl (List.suffix_cons block blocks)
      | interpolation | comment | setDelimiters | partialRef =>
          rw [Assembly.add_leaf a (by rw [hdirective]; rfl)] at hadd
          cases hadd
          exact .inl (List.suffix_refl _)

theorem Aligned.add (h : Aligned template a (lexeme.source ++ rest))
    (hadd : a.add lexeme = .ok b) : Aligned template b rest where
  source := by rw [Assembly.read_add hadd, h.source, List.append_assoc]
  offset := by rw [Assembly.read_add hadd, Assembly.offset_add hadd, size_append, h.offset]
  opened block blocks hblock := by
    rcases openBlocks_of_add hadd with hsuffix | ⟨tag, inverted, name, rfl, rfl⟩
    · exact h.opened block blocks (hblock.trans hsuffix)
    · rcases List.suffix_cons_iff.mp hblock with heq | hblock
      · obtain ⟨rfl, rfl⟩ := List.cons.inj heq
        refine ⟨a.read ++ tag.indent, tag.front ++ tag.back ++ tag.lineBreak, ?_, ?_⟩
        · simp [outerText_cons, Assembly.extend, read_eq_outerText, Lexeme.source, Tag.source]
        · rw [size_append, h.offset]
      · exact h.opened block blocks hblock

variable [MarkerLimits]

/-- A round takes the image of an assembly to that of the assembly with the next lexeme, or is
refused for the reason for which the lexeme or the broken tag is. -/
theorem round_cases (d : Delimiters) (h : Aligned template a t) (ht : t ≠ []) :
    (∃ lexeme rest b, next d (startsLine a.read) t = .lexeme lexeme rest ∧
      a.add lexeme = .ok b ∧ Aligned template b rest ∧ size rest < size t ∧
      (image d template a).round = .ok (image (lexeme.delimitersAfter d) template b)) ∨
    (∃ lexeme rest failure, next d (startsLine a.read) t = .lexeme lexeme rest ∧
      a.add lexeme = .error failure ∧
      (image d template a).round = .error (refusal template failure)) ∨
    ∃ tag failure, next d (startsLine a.read) t = .broken tag ∧
      a.addBroken tag = (.error failure : Except Failure Assembly) ∧
      (image d template a).round = .error (refusal template failure) := by
  cases hnext : next d (startsLine a.read) t with
  | broken tag =>
      cases hfail : (a.addBroken tag : Except Failure Assembly) with
      | ok b => exact absurd hfail (Assembly.addBroken_ne_ok a tag b)
      | error failure => exact .inr (.inr ⟨tag, failure, rfl, hfail, round_of_broken h hnext hfail⟩)
  | lexeme lexeme rest =>
      cases hadd : a.add lexeme with
      | error failure =>
          exact .inr (.inl ⟨lexeme, rest, failure, rfl, hadd, round_of_add_error h hnext hadd⟩)
      | ok b =>
          obtain ⟨happ, hne⟩ := next_append ht hnext
          have hpos : size lexeme.source ≠ 0 := size_eq_zero_iff.not.mpr hne
          have hlt : size rest < size t := by
            rw [← happ, size_append]
            omega
          have hround := round_of_lexeme h hnext hadd
          rw [← happ] at h
          exact .inl ⟨lexeme, rest, b, rfl, hadd, h.add hadd, hlt, hround⟩

end Step

/-! ## Runs -/

section Run

variable {a : Assembly} {t : Text}

theorem atEnd_image_iff (h : Aligned template a t) :
    (image d template a).cursor.atEnd = true ↔ t = [] := atEnd_iff h.split

theorem remaining_image (h : Aligned template a t) :
    (image d template a).remaining = size t := by
  change size template.toList - a.offset = size t
  rw [h.source, size_append, h.offset]
  omega

theorem finish_image (h : Aligned template a []) :
    (image d template a).finish = a.finish.mapError (refusal template) := by
  unfold State.finish Assembly.finish
  cases hblocks : a.openBlocks with
  | nil =>
      rw [image, hblocks]
      rfl
  | cons block blocks =>
      have hblock : block :: blocks <:+ a.openBlocks := by simp [hblocks]
      obtain ⟨before, after, hsource, hsize⟩ := h.split_openedAt hblock
      rw [image, hblocks, getLast?_sections_stacked]
      exact refuse_eq hsource hsize _

section

variable [MarkerLimits]

theorem ofLexemes_readFrom_of_lexeme {lineStart : Bool} {rest : Text} {lexeme : Lexeme}
    (a : Assembly) (ht : t ≠ []) (hnext : next d lineStart t = .lexeme lexeme rest) :
    a.ofLexemes (Lexemes.readFrom d lineStart t []) = a.add lexeme >>= fun b =>
      b.ofLexemes
        (Lexemes.readFrom (lexeme.delimitersAfter d) lexeme.startsLineAfter rest []) := by
  rw [Lexemes.readFrom_of_lexeme ht hnext, Lexemes.readFrom_seen _ _ rest [lexeme],
    Assembly.ofLexemes]
  simp only [List.reverse_singleton, List.singleton_append, List.foldlM_cons]
  cases a.add lexeme with
  | error failure => rfl
  | ok b => rfl

/-- From the image of an assembly on, the machine runs to the answer that the assembly comes to. -/
theorem run_image (d : Delimiters) (h : Aligned template a t) :
    (image d template a).run =
      (a.ofLexemes (Lexemes.readFrom d (startsLine a.read) t []) >>=
        Assembly.finish).mapError (refusal template) := by
  induction hn : size t using Nat.strongRecOn generalizing d a t with
  | ind n ih =>
      rw [State.run]
      by_cases ht : t = []
      · subst ht
        rw [if_pos ((atEnd_image_iff h).mpr rfl), finish_image h, Lexemes.readFrom_nil]
        rfl
      · rw [if_neg (ht ∘ (atEnd_image_iff h).mp)]
        rcases round_cases d h ht with ⟨lexeme, rest, b, hnext, hadd, hb, hlt, hround⟩ |
          ⟨lexeme, rest, failure, hnext, hadd, hround⟩ | ⟨tag, failure, hnext, hfail, hround⟩
        · have hmoves : (image (lexeme.delimitersAfter d) template b).remaining <
              (image d template a).remaining := by
            rw [remaining_image h, remaining_image hb]
            exact hlt
          have hline : lexeme.startsLineAfter = startsLine b.read := by
            rw [Assembly.read_add hadd, startsLine_append (next_append ht hnext).2]
            rfl
          have hrun := ih (size rest) (hn ▸ hlt) (lexeme.delimitersAfter d) hb rfl
          rw [hround, ofLexemes_readFrom_of_lexeme a ht hnext, hadd, hline]
          dsimp only
          rw [if_pos hmoves, hrun]
          rfl
        · rw [hround, ofLexemes_readFrom_of_lexeme a ht hnext, hadd]
          rfl
        · rw [hround, Lexemes.readFrom_of_broken ht hnext]
          change _ = ((a.addBroken tag : Except Failure Assembly) >>=
            Assembly.finish).mapError (refusal template)
          rw [hfail]
          rfl

end

theorem start_eq_image (d : Delimiters) (template : String) (log : List Event) :
    State.start d template = image d template { log } := rfl

theorem aligned_start (template : String) (log : List Event) :
    Aligned template { log } template.toList where
  source := rfl
  offset := rfl
  opened block blocks hblock := by
    have hnil := List.suffix_nil.mp hblock
    cases hnil

theorem multi_mapError (result : Except Failure (List Node)) :
    (result.mapError (refusal template) >>= fun nodes => pure (.multi nodes) : Checked Node) =
      (answerOf template result).mapError Halt.refused := by
  cases result with
  | error failure => rfl
  | ok nodes => rfl

variable [MarkerLimits]

/-- The machine answers what the compile answers. -/
theorem compile_eq (d : Delimiters) (template : String) :
    compile d template = (TagTemplate.compile d template).mapError Halt.refused := by
  rw [compile, compile_eq_answerOf, assemble]
  cases hlimit : d.withinLimit with
  | false =>
      have hrefuse : (refuse template 0 .invalidDelimiters : Checked Node) =
          .error (.refused (SyntaxError.locate template 0 Fault.invalidDelimiters.message)) :=
        refuse_eq (List.nil_append _).symm rfl _
      simp only [Bool.false_eq_true, if_false, hrefuse]
      rfl
  | true =>
      have hrun := run_image d (aligned_start template [.started template.utf8ByteSize])
      rw [← start_eq_image] at hrun
      rw [if_pos rfl, if_pos rfl, hrun]
      exact multi_mapError _

end Run

/-! ## Reachable states -/

/-- The offset is one of the template, between two characters or at an end. -/
def Between (template : String) (offset : Nat) : Prop :=
  ∃ before after, template.toList = before ++ after ∧ size before = offset

variable [MarkerLimits]

/-- Nothing that the machine may do next panics. -/
structure Sound (template : String) (s : State) : Prop where
  source : s.cursor.source = template
  cursor : Between template s.cursor.offset
  inside : s.cursor.offset ≤ template.utf8ByteSize
  /-- Every open section was opened in front of its body, which starts in front of the cursor. -/
  sections : ∀ frame ∈ s.sections, ∃ start, frame.bodyStart = some start ∧
    frame.openedAt ≤ start ∧ start ≤ s.cursor.offset ∧
      Between template frame.openedAt ∧ Between template start
  /-- A round moves the cursor on or blames the template. -/
  round : s.cursor.atEnd = false → (∃ t, s.round = .ok t ∧ s.cursor.offset < t.cursor.offset) ∨
    ∃ error, s.round = .error (.refused error)

theorem exists_image_of_reachable {s : State} (h : Reachable d template s) :
    ∃ pair a t, Aligned template a t ∧ s = image pair template a := by
  induction h with
  | start => exact ⟨d, {}, template.toList, aligned_start template [], rfl⟩
  | round hs hend hround ih =>
      obtain ⟨pair, a, t, ha, rfl⟩ := ih
      have ht : t ≠ [] := by
        intro hnil
        rw [(atEnd_image_iff ha).mpr hnil] at hend
        cases hend
      rcases round_cases pair ha ht with ⟨lexeme, rest, b, -, -, hb, -, hround'⟩ |
        ⟨_, _, _, -, -, hround'⟩ | ⟨_, _, -, -, hround'⟩
      · rw [hround'] at hround
        cases hround
        exact ⟨_, b, rest, hb, rfl⟩
      · rw [hround'] at hround
        cases hround
      · rw [hround'] at hround
        cases hround

omit [MarkerLimits] in
theorem sound_frames {a : Assembly} {t : Text} (h : Aligned template a t)
    {blocks : List OpenBlock} (hblocks : blocks <:+ a.openBlocks) (nodes : List Node) :
    ∀ frame ∈ frames blocks nodes, ∃ start, frame.bodyStart = some start ∧
      frame.openedAt ≤ start ∧ start ≤ a.offset ∧
        Between template frame.openedAt ∧ Between template start := by
  induction blocks generalizing nodes with
  | nil => nofun
  | cons block blocks ih =>
      intro frame hframe
      rcases List.mem_append.mp hframe with houter | hinnermost
      · exact ih ((List.suffix_cons block blocks).trans hblocks) _ frame houter
      · obtain rfl := List.mem_singleton.mp hinnermost
        obtain ⟨before, after, htext, hsize⟩ := h.opened block blocks hblocks
        obtain ⟨body, hread⟩ := exists_read_eq hblocks
        have hopened : block.openedAt ≤ size (outerText (block :: blocks)) := by
          rw [htext, size_append, hsize]
          omega
        refine ⟨_, rfl, hopened, ?_, h.split_openedAt hblocks, ?_⟩
        · rw [← h.offset, hread, size_append]
          omega
        · exact ⟨outerText (block :: blocks), body ++ t, by rw [h.source, hread]; simp, rfl⟩

theorem sound_image {a : Assembly} {t : Text} (h : Aligned template a t) :
    Sound template (image d template a) where
  source := rfl
  cursor := ⟨a.read, t, h.source, h.offset⟩
  inside := by
    change a.offset ≤ template.utf8ByteSize
    rw [← size_toList, h.source, size_append, h.offset]
    omega
  sections := by
    rw [image, stacked, List.append_nil]
    exact sound_frames h (List.suffix_refl _) _
  round hend := by
    have ht : t ≠ [] := by
      intro hnil
      rw [(atEnd_image_iff h).mpr hnil] at hend
      cases hend
    rcases round_cases d h ht with ⟨lexeme, rest, b, hnext, hadd, -, -, hround⟩ |
      ⟨_, _, failure, -, -, hround⟩ | ⟨_, failure, -, -, hround⟩
    · have hne : size lexeme.source ≠ 0 := size_eq_zero_iff.not.mpr (next_append ht hnext).2
      refine .inl ⟨_, hround, ?_⟩
      change a.offset < b.offset
      rw [Assembly.offset_add hadd]
      omega
    · exact .inr ⟨_, hround⟩
    · exact .inr ⟨_, hround⟩

/-- No compile panics, whatever the template and the markers are: with every operation checked, the
machine gives the answer of the compile, a tree or a located error. In every state that it reaches,
the cursor and the remembered offsets stand in order between characters of the template, and the
next round moves on or blames the template. -/
theorem compile_never_panics (d : Delimiters) (template : String) :
    (∀ cause, compile d template ≠ .error (.panic cause)) ∧
      compile d template = (TagTemplate.compile d template).mapError Halt.refused ∧
        ∀ s, Reachable d template s → Sound template s := by
  refine ⟨?_, compile_eq d template, ?_⟩
  · intro cause hpanic
    rw [compile_eq] at hpanic
    cases hresult : TagTemplate.compile d template with
    | ok root =>
        rw [hresult] at hpanic
        cases hpanic
    | error error =>
        rw [hresult] at hpanic
        cases hpanic
  · intro s hs
    obtain ⟨pair, a, t, ha, rfl⟩ := exists_image_of_reachable hs
    exact sound_image ha

end TagTemplate.Machine

import TagTemplate.Proofs.Lexeme.Concatenation
import TagTemplate.Proofs.Surviving

/-!
# Literal text compiled again

What is left of a template without its tags is text without tags, if the opening marker repeats one
character: the marker cannot arise where two pieces of text meet, since the first piece would have
to end with that character, and in front of a tag no run of text does. Such text compiles to itself.
A marker of different characters can arise so, as the example at the end shows.
-/

namespace TagTemplate

open Text

/-! ## Where two pieces meet -/

theorem infix_append_cases {piece s t : Text} (h : piece <:+: s ++ t) :
    piece <:+: s ∨ piece <:+: t ∨
      ∃ a b, piece = a ++ b ∧ a ≠ [] ∧ b ≠ [] ∧ a <:+ s ∧ b <+: t := by
  rcases List.infix_append_iff.mp h with hs | ht | ⟨a, b, rfl, ha, hb⟩
  · exact .inl hs
  · exact .inr (.inl ht)
  · by_cases hnil : a = []
    · subst hnil
      exact .inr (.inl hb.isInfix)
    · by_cases hnil' : b = []
      · subst hnil'
        rw [List.append_nil]
        exact .inl ha.isInfix
      · exact .inr (.inr ⟨a, b, rfl, hnil, hnil', ha, hb⟩)

/-! ## Runs of text -/

section

variable [MarkerLimits]

section Run

variable {d : Delimiters} {lineStart : Bool} {t text rest : Text}

theorem not_infix_of_next_text (hd : d.Valid) (ht : t ≠ [])
    (h : next d lineStart t = .lexeme (.text text) rest) : ¬ d.opener.toList <:+: text := by
  intro hinfix
  obtain ⟨front, back, rfl⟩ := hinfix
  obtain ⟨hnone, hsplit⟩ := next_eq_text_iff.mp h
  obtain ⟨rfl, -, hfirst, -⟩ := (splitText_eq_iff ht).mp hsplit
  have hopener := (Delimiters.isMarker_iff.mp hd.1).1
  by_cases hfront : front = []
  · subst hfront
    exact (splitOpening_eq_none_iff hd.1).mp hnone [] (back ++ rest) (by simp) nofun
  · have hno := hfirst front (d.opener.toList ++ back) (by simp) hfront (by simp [hopener])
    rw [(opensHere_iff hd.1).mpr ⟨[], back ++ rest, by simp, nofun, .inr rfl⟩] at hno
    cases hno

/-- If the marker repeats one character, no run of text in front of a tag ends with it: the marker
would have been found one character earlier. -/
theorem rest_eq_nil_of_next_text (hd : d.Valid) {c : Char} (hrun : ∀ e ∈ d.opener.toList, e = c)
    (ht : t ≠ []) (h : next d lineStart t = .lexeme (.text text) rest)
    (hlast : text.getLast? = some c) : rest = [] := by
  obtain ⟨hnone, hsplit⟩ := next_eq_text_iff.mp h
  obtain ⟨rfl, -, hfirst, hopens⟩ := (splitText_eq_iff ht).mp hsplit
  obtain ⟨front, rfl⟩ := List.getLast?_eq_some_iff.mp hlast
  have hmem : c ∈ d.opener.toList := by
    obtain ⟨e, u, hcons⟩ := List.exists_cons_of_ne_nil (Delimiters.isMarker_iff.mp hd.1).1
    have he : e ∈ d.opener.toList := by simp [hcons]
    rw [← hrun e he]
    exact he
  have hline : endsLine (front ++ [c]) = false := by
    rw [Bool.eq_false_iff]
    intro hends
    obtain rfl : c = '\n' := by simpa [endsLine] using hends
    exact notMem_of_isMarker hd.1 (by decide) hmem
  by_contra hne
  obtain ⟨indent, u, rfl, -, hindent⟩ := (opensHere_iff hd.1).mp (hopens hne)
  have hnil : indent = [] := hindent.resolve_left (by simp [hline])
  subst hnil
  have hshift : c :: d.opener.toList = d.opener.toList ++ [c] := by
    rw [List.eq_replicate_of_mem hrun, ← List.replicate_succ, List.replicate_succ']
  have hearlier : [c] ++ ([] ++ d.opener.toList ++ u) = [] ++ d.opener.toList ++ (c :: u) := by
    rw [List.nil_append, List.singleton_append, ← List.cons_append, hshift]
    simp
  by_cases hfront : front = []
  · subst hfront
    exact (splitOpening_eq_none_iff hd.1).mp hnone [] (c :: u) (by simpa using hearlier)
      (List.forall_mem_nil _)
  · have hno := hfirst front [c] rfl hfront (by simp)
    rw [(opensHere_iff hd.1).mpr ⟨[], c :: u, hearlier, List.forall_mem_nil _, .inr rfl⟩] at hno
    cases hno

end Run

/-! ## What lexemes keep -/

theorem forall_isIndent_kept {d : Delimiters} {lineStart : Bool} {t rest : Text} {tag : Tag}
    (hd : d.Valid) (h : next d lineStart t = .lexeme (.tag tag) rest) :
    ∀ c ∈ tag.kept, isIndent c = true := by
  unfold Tag.kept
  split
  · nofun
  · exact (placed_of_next hd h).indent

theorem Lexes.not_infix_kept {d : Delimiters} {lineStart : Bool} {t : Text}
    {lexemes : List Lexeme} (hd : d.Valid) {c : Char} (hrun : ∀ e ∈ d.opener.toList, e = c)
    (h : Lexes d lineStart t lexemes) (hpair : ∀ x ∈ lexemes, x.delimitersAfter d = d) :
    ¬ d.opener.toList <:+: lexemes.flatMap Lexeme.kept := by
  induction h with
  | nil =>
      intro hinfix
      exact (Delimiters.isMarker_iff.mp hd.1).1 (List.infix_nil.mp hinfix)
  | @cons d lineStart t rest lexeme lexemes ht hn hrest ih =>
      obtain ⟨hsame, hpairs⟩ := List.forall_mem_cons.mp hpair
      rw [hsame] at ih hrest
      have hkept := ih hd hrun hpairs
      intro hinfix
      rw [List.flatMap_cons] at hinfix
      cases lexeme with
      | text text =>
          rcases infix_append_cases hinfix with hin | hin | ⟨a, b, hab, ha, hb, hsuffix, hprefix⟩
          · exact not_infix_of_next_text hd ht hn hin
          · exact hkept hin
          · have hlast : text.getLast? = some c := by
              obtain ⟨front, rfl⟩ := hsuffix
              have hmem : a.getLast ha ∈ d.opener.toList := by simp [hab]
              rw [List.getLast?_append, List.getLast?_eq_some_getLast ha, hrun _ hmem]
              rfl
            have hnil := rest_eq_nil_of_next_text hd hrun ht hn hlast
            rw [hnil] at hrest
            rw [hrest.eq_nil] at hprefix
            exact hb (List.prefix_nil.mp hprefix)
      | tag tag =>
          have hindent := forall_isIndent_kept hd hn
          have hblank : ∀ e ∈ d.opener.toList, e ∉ tag.kept := by
            intro e he hmem
            have hno := isIndent_eq_false_of_isMarker hd.1 he
            rw [hindent e hmem] at hno
            cases hno
          rcases infix_append_cases hinfix with hin | hin | ⟨a, b, hab, ha, -, hsuffix, -⟩
          · obtain ⟨e, u, hcons⟩ := List.exists_cons_of_ne_nil (Delimiters.isMarker_iff.mp hd.1).1
            have he : e ∈ d.opener.toList := by simp [hcons]
            exact hblank e he (hin.subset he)
          · exact hkept hin
          · obtain ⟨e, u, rfl⟩ := List.exists_cons_of_ne_nil ha
            exact hblank e (by simp [hab]) (hsuffix.subset List.mem_cons_self)

/-! ## Compiling -/

theorem compile_unmarked {d : Delimiters} {t : Text} (hd : d.Valid)
    (hlimit : d.withinLimit = true) (h : ¬ d.opener.toList <:+: t) :
    compile d (String.ofList t) = .ok (.multi (staticNodes t)) := by
  by_cases ht : t = []
  · subst ht
    exact compile_of_lexes hlimit .nil .nil
  · have hnone : splitOpening d.opener.toList t = none := by
      refine (splitOpening_eq_none_iff hd.1).mpr ?_
      rintro indent u rfl -
      exact h ⟨indent, u, rfl⟩
    have hsplit : splitText d.opener.toList t = (t, []) := by
      refine (splitText_eq_iff ht).mpr ⟨by simp, ht, ?_, by simp⟩
      rintro s u rfl - -
      rw [Bool.eq_false_iff]
      intro hopens
      obtain ⟨indent, v, hu, -⟩ := (opensHere_iff hd.1).mp hopens
      rw [List.append_nil] at hu
      exact h ⟨s ++ indent, v, by simp [hu]⟩
    have hlexes : Lexes d true t [.text t] :=
      .cons ht (next_eq_text_iff.mpr ⟨hnone, hsplit⟩) .nil
    rw [← List.append_nil (staticNodes t)]
    exact compile_of_lexes hlimit hlexes (.text .nil)

/-- The literal text of a template that compiles and never changes the pair compiles to itself: it
holds no opening marker, and nothing of it is erased a second time. -/
theorem compile_literal {template : String} {root : Node}
    (h : compile .standard template = .ok root)
    (hpair : ∀ o ∈ Occurrence.list .standard template, o.directive.kind ≠ .setDelimiters) :
    compile .standard (String.ofList (root.walk.flatMap Node.literal)) =
        .ok (.multi (staticNodes (root.walk.flatMap Node.literal))) ∧
      ¬ Delimiters.standard.opener.toList <:+: root.walk.flatMap Node.literal := by
  obtain ⟨hlimit, hread, nodes, rfl, hforms⟩ := compile_eq_ok_iff.mp h
  have hlexes : Lexes .standard true template.toList
      (Lexemes.read .standard template.toList).lexemes := Lexes.of_readFrom hread
  have hsame : ∀ x ∈ (Lexemes.read .standard template.toList).lexemes,
      x.delimitersAfter .standard = .standard := by
    intro x hx
    cases x with
    | text t => rfl
    | tag tag =>
        obtain ⟨before, after, hsplit⟩ := List.append_of_mem hx
        have hkind := hpair _ (Occurrence.mem_listFrom_iff.mpr ⟨before, tag, after, hsplit, rfl⟩)
        rw [delimitersAfter_tag]
        split
        · rename_i hdirective
          rw [Occurrence.ofTag, hdirective] at hkind
          exact absurd rfl hkind
        · rfl
  have hopener : Delimiters.standard.opener.toList = ['\x7b', '\x7b'] := rfl
  have hrun : ∀ e ∈ Delimiters.standard.opener.toList, e = '\x7b' := by simp [hopener]
  have hkept := hlexes.not_infix_kept Delimiters.standard_valid hrun hsame
  rw [Node.walk_multi, List.flatMap_cons, hforms.flatMap_literal]
  exact ⟨compile_unmarked Delimiters.standard_valid hlimit hkept, hkept⟩

end

/-- Braces on both sides of a comment line and of a section. -/
theorem compile_literal_brace :
    ∃ template root, template =
        "\x7b x\n  \x7b\x7b! c \x7d\x7d\n\x7b \x7b\x7b#s\x7d\x7d\x7b\n\x7b\x7b/s\x7d\x7d" ∧
      compile .standard template = .ok root ∧
      (∀ o ∈ Occurrence.list .standard template, o.directive.kind ≠ .setDelimiters) ∧
      root.walk.flatMap Node.literal = "\x7b x\n\x7b \x7b\n".toList ∧
      compile .standard "\x7b x\n\x7b \x7b\n" = .ok (.multi [.static "\x7b x\n\x7b \x7b\n"]) := by
  have h : compile .standard
      "\x7b x\n  \x7b\x7b! c \x7d\x7d\n\x7b \x7b\x7b#s\x7d\x7d\x7b\n\x7b\x7b/s\x7d\x7d" =
        .ok (.multi [.static "\x7b x\n", .static "\x7b ",
          .block false ⟨["s"]⟩ [.static "\x7b\n"] "\x7b\n" .standard]) := by
    rw [compile_eq_evaluate]
    rfl
  have hpair : ∀ o ∈ Occurrence.list .standard
      "\x7b x\n  \x7b\x7b! c \x7d\x7d\n\x7b \x7b\x7b#s\x7d\x7d\x7b\n\x7b\x7b/s\x7d\x7d",
        o.directive.kind ≠ .setDelimiters := by
    rw [Occurrence.list_eq_listFrom_readWithin]
    decide
  exact ⟨_, _, rfl, h, hpair, rfl, (compile_literal h hpair).1⟩

/-- The text around a comment may make a marker of two characters. -/
example : compile ⟨"<%", "%>"⟩ "<<%! c %>% x %>" =
    .ok (.multi [.static "<", .static "% x %>"]) := by
  rw [compile_eq_evaluate]
  rfl

end TagTemplate

import TagTemplate.Proofs.Concatenation
import TagTemplate.Proofs.LineEnding.Assembly

/-!
# Compiling in both spellings

Line ends do not matter. With its line ends spelled out a template compiles if it does without, and
its tree differs in literal text alone: static text, quoted arguments and the source of sections. An
error is the same, since a line is shown without the carriage returns at its end and no fault is
found between the two characters of a line end.
-/

namespace TagTemplate

open Text

/-! ## The text that was read -/

def BrokenTag.source (tag : BrokenTag) : Text := tag.indent ++ (tag.front ++ tag.back)

section

variable [MarkerLimits]

theorem source_prefix_of_readTag {d : Delimiters} {lineStart : Bool} {indent t : Text}
    {tag : BrokenTag} (h : readTag d lineStart indent t = .broken tag) :
    tag.indent = indent ∧ tag.source <+: indent ++ d.opener.toList ++ t := by
  unfold readTag at h
  cases hhead : TagHead.reader d.closer.toList t with
  | error stop =>
      simp only [hhead, Next.broken.injEq] at h
      subst h
      have hstands := (TagHead.reader_faithful _).isPrefix hhead
      refine ⟨rfl, ?_⟩
      simpa [BrokenTag.source] using hstands
  | ok head =>
      cases hdirective : Directive.reader d.closer.toList head.value head.rest with
      | ok directive => simp [hhead, hdirective] at h
      | error stop =>
          simp only [hhead, hdirective, Next.broken.injEq] at h
          subst h
          have happ := (TagHead.reader_faithful _).append hhead
          have hstands := (Directive.reader_faithful _ _).isPrefix hdirective
          refine ⟨rfl, ?_⟩
          rw [← happ]
          simpa [BrokenTag.source] using hstands

theorem source_prefix_of_next {d : Delimiters} {lineStart : Bool} {t : Text} {tag : BrokenTag}
    (h : next d lineStart t = .broken tag) : IsInline tag.indent ∧ tag.source <+: t := by
  unfold next at h
  cases hs : splitOpening d.opener.toList t with
  | none => simp [hs] at h
  | some parts =>
      simp only [hs] at h
      obtain ⟨hindent, hsource⟩ := source_prefix_of_readTag h
      rw [splitOpening_append hs] at hsource
      rw [hindent]
      exact ⟨isInline_of_isIndent (splitOpening_indent hs), hsource⟩

theorem source_prefix_readFrom (d : Delimiters) (lineStart : Bool) (t : Text) :
    sourceOf (Lexemes.readFrom d lineStart t []).lexemes <+: t ∧
      ∀ tag, (Lexemes.readFrom d lineStart t []).broken? = some tag →
        sourceOf (Lexemes.readFrom d lineStart t []).lexemes ++ tag.source <+: t := by
  induction hn : t.length using Nat.strongRecOn generalizing d lineStart t with
  | ind n ih =>
      by_cases ht : t = []
      · subst ht
        simp
      · cases hx : next d lineStart t with
        | broken tag =>
            rw [Lexemes.readFrom_of_broken ht hx]
            refine ⟨List.nil_prefix, ?_⟩
            intro tag' htag
            cases htag
            exact (source_prefix_of_next hx).2
        | lexeme x rest =>
            have hlt := next_length_lt ht hx
            obtain ⟨hsource, hbroken⟩ := ih rest.length (by omega) (x.delimitersAfter d)
              x.startsLineAfter rest rfl
            rw [Lexemes.readFrom_of_lexeme ht hx, Lexemes.readFrom_seen]
            rw [← (next_append ht hx).1]
            refine ⟨?_, ?_⟩
            · simpa using hsource
            · intro tag htag
              simpa using hbroken tag htag

/-! ## Reading and assembling -/

/-- Both spellings of a template are put together alike, up to the first fault if there is one. -/
theorem mirrored_assemble {d : Delimiters} {t : Text} (hd : d.Valid) (h : '\r' ∉ t)
    {a a' : Assembly} (ha : Assembly.Mirrors t [] a a') :
    Mirrored t (fun nodes nodes' => nodes' = nodes.map Node.withCrlf)
      (assemble d t a >>= Assembly.finish) (assemble d (crlf t) a' >>= Assembly.finish) := by
  unfold assemble
  by_cases hlimit : d.withinLimit = true
  · rw [if_pos hlimit, if_pos hlimit]
    obtain ⟨hindent, hbroken⟩ := Lexemes.of_readFrom
      (P := Lexeme.IndentIsInline) (Q := fun tag => IsInline tag.indent)
      (fun _ _ _ _ _ => indentIsInline_of_next) (fun _ _ _ _ h => (source_prefix_of_next h).1)
      d true t
    obtain ⟨hsource, hbrokenSource⟩ := source_prefix_readFrom d true t
    have hread : Lexemes.read d (crlf t) = (Lexemes.read d t).withCrlf :=
      readFrom_crlf ⟨hd, hlimit⟩ h
    rw [hread]
    refine (ha.ofLexemes hindent hsource ?_).bind fun b b' hb => hb.finish
    intro tag htag
    exact ⟨hbroken tag htag, hbrokenSource tag htag⟩
  · rw [if_neg hlimit, if_neg hlimit]
    exact .error rfl ⟨[], List.nil_prefix, rfl, rfl⟩

end

/-! ## Errors -/

theorem count_newline_crlf (t : Text) : (crlf t).count '\n' = t.count '\n' := by
  fun_induction crlf t with
  | case1 => rfl
  | case2 t ih => simp [ih]
  | case3 c t hc ih => simp [ih, hc]

theorem lastLine_crlf (t : Text) : lastLine (crlf t) = lastLine t := by
  obtain ⟨s, hs, hends⟩ := exists_eq_append_lastLine t
  have hnone : lastLine (crlf s) = [] := by
    apply lastLine_of_endsLine
    rwa [endsLine_crlf, crlf_eq_nil_iff, endsLine_iff]
  have hcrlf : crlf t = crlf s ++ lastLine t := by
    rw [← crlf_of_notMem (newline_notMem_lastLine t), ← crlf_append, ← hs]
  rw [hcrlf, lastLine_append (newline_notMem_lastLine t), hnone, List.nil_append]

theorem rdropWhile_takeWhile_crlf (s t : Text) :
    (s ++ (crlf t).takeWhile (· ≠ '\n')).rdropWhile (· == '\r') =
      (s ++ t.takeWhile (· ≠ '\n')).rdropWhile (· == '\r') := by
  fun_induction crlf t generalizing s with
  | case1 => rfl
  | case2 t ih => simp [List.rdropWhile]
  | case3 c t hc ih => simpa [hc] using ih (s ++ [c])

/-- A place is shown the same in both spellings. -/
theorem SyntaxError.locate_crlf {template : String} {n n' : Nat}
    (h : SamePlace template.toList n n') (message : String) :
    locate (crlfString template) n' message = locate template n message := by
  obtain ⟨front, ⟨rest, ht⟩, rfl, rfl⟩ := h
  have hcrlf : (crlfString template).toList = crlf front ++ crlf rest := by
    rw [toList_crlfString, ← ht, crlf_append]
  rw [locate_of_append hcrlf, locate_of_append ht.symm, count_newline_crlf, lastLine_crlf,
    rdropWhile_takeWhile_crlf]

/-! ## Compiling -/

/-- Line ends do not matter: with a carriage return in front of every line feed, a template without
carriage returns compiles to the same tree, with the line ends of its literal text spelled out, or
is refused with the same error. -/
theorem compile_crlfString [MarkerLimits] {d : Delimiters} {template : String} (hd : d.Valid)
    (h : '\r' ∉ template.toList) :
    compile d (crlfString template) = (compile d template).map Node.withCrlf := by
  have hstart : Assembly.Mirrors template.toList []
      { log := [.started template.utf8ByteSize] }
      { log := [.started (crlfString template).utf8ByteSize] } := ⟨rfl, .nil, rfl, rfl⟩
  have hmirrored := mirrored_assemble hd h hstart
  rw [compile_eq_answerOf, compile_eq_answerOf, toList_crlfString]
  generalize assemble d template.toList { log := [.started template.utf8ByteSize] } >>=
    Assembly.finish = answer at hmirrored ⊢
  generalize assemble d (crlf template.toList)
    { log := [.started (crlfString template).utf8ByteSize] } >>=
      Assembly.finish = answer' at hmirrored ⊢
  cases hmirrored with
  | ok hnodes =>
      rw [hnodes]
      simp [answerOf, Except.map, Node.withCrlf, Node.withCrlfAll_eq_map]
  | error hfault hplace =>
      rw [answerOf, answerOf, ← hfault, SyntaxError.locate_crlf hplace]
      rfl

/-- Line ends in static text, in an argument and in the source of a section, and a tag alone on its
line. -/
theorem compile_crlfString_section :
    ∃ template root,
      template = "a\n\x7b\x7b#s\x7d\x7d\n\x7b\x7bf \"x\ny\"\x7d\x7d\x7b\x7b/s\x7d\x7d" ∧
      root = .multi [.static "a\n", .block false ⟨["s"]⟩
        [.interpolation .escaped ⟨["f"]⟩ [.positional (.quoted "x\ny")]]
        "\x7b\x7bf \"x\ny\"\x7d\x7d" .standard] ∧
      '\r' ∉ template.toList ∧ compile .standard template = .ok root ∧
      compile .standard (crlfString template) = .ok (.multi [.static "a\r\n", .block false ⟨["s"]⟩
        [.interpolation .escaped ⟨["f"]⟩ [.positional (.quoted "x\r\ny")]]
        "\x7b\x7bf \"x\r\ny\"\x7d\x7d" .standard]) := by
  have hreturn : '\r' ∉
      "a\n\x7b\x7b#s\x7d\x7d\n\x7b\x7bf \"x\ny\"\x7d\x7d\x7b\x7b/s\x7d\x7d".toList := by decide
  have h : compile .standard "a\n\x7b\x7b#s\x7d\x7d\n\x7b\x7bf \"x\ny\"\x7d\x7d\x7b\x7b/s\x7d\x7d" =
      .ok (.multi [.static "a\n", .block false ⟨["s"]⟩
        [.interpolation .escaped ⟨["f"]⟩ [.positional (.quoted "x\ny")]]
        "\x7b\x7bf \"x\ny\"\x7d\x7d" .standard]) := by
    rw [compile_eq_evaluate]
    decide +kernel
  refine ⟨_, _, rfl, rfl, hreturn, h, ?_⟩
  rw [compile_crlfString Delimiters.standard_valid hreturn, h]
  rfl

end TagTemplate

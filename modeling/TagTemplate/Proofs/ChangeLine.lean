import TagTemplate.Proofs.Concatenation
import TagTemplate.Proofs.Text.Trim

/-!
# A first line that changes the pair

A template may begin with a line that changes the pair, and it may be compiled with another pair to
begin with. Both are the same: after such a line everything is read as in a template of its own, and
only errors are counted from further up. A line that names no pair is an error, whatever comes after
it.
-/

namespace TagTemplate

open Text TagHead

/-- A line for the standard markers that changes them to the pair that the text names. -/
def changeLine (text : String) : String := "\x7b\x7b=" ++ text ++ "=\x7d\x7d\n"

/-! ## The end of the directive -/

section Directive

variable {t gap content tail rest : Text}

def standardCloser : Text := Delimiters.standard.closer.toList

theorem isMarker_standardCloser : Delimiters.isMarker standardCloser = true :=
  Delimiters.standard_valid.2

theorem not_prefix_standardCloser (h : ¬ standardCloser <:+: t) (rest : Text) :
    ¬ standardCloser <+: t ++ '=' :: rest := by
  have hcloser : standardCloser = ['\x7d', '\x7d'] := by decide
  rw [hcloser] at h ⊢
  intro hprefix
  match t with
  | [] => simp at hprefix
  | [c] => simp at hprefix
  | c :: d :: t =>
      have hstart : ['\x7d', '\x7d'] <+: c :: d :: t := by simpa using hprefix
      exact h hstart.isInfix

/-- The directive does not end inside its text, even if the text ends with an equals sign or a
brace. -/
theorem closesHere_text_eq_false {s u : Text} (h : ¬ standardCloser <:+: s ++ u) (hu : u ≠ [])
    (rest : Text) : closesHere '=' standardCloser (u ++ '=' :: rest) = false := by
  have hsuffix : u <:+: s ++ u := (List.suffix_append s u).isInfix
  rw [Bool.eq_false_iff]
  intro hcloses
  rcases closesHere_iff.mp hcloses with hhere | hbalanced
  · exact not_prefix_standardCloser (fun hu => h (hu.trans hsuffix)) rest hhere
  · obtain ⟨c, v, rfl⟩ := List.exists_cons_of_ne_nil hu
    rw [List.cons_append, List.cons_prefix_cons] at hbalanced
    have hv : v <:+: s ++ c :: v := (List.suffix_cons c v).isInfix.trans hsuffix
    exact not_prefix_standardCloser (fun hin => h (hin.trans hv)) rest hbalanced.2

theorem cutFree?_text (h : ¬ standardCloser <:+: content ++ tail)
    (htail : ∀ c ∈ tail, isSpace c = true) (hcontent : StopsRun isSpace content.reverse)
    (rest : Text) :
    cutFree? '=' standardCloser (content ++ tail ++ '=' :: (standardCloser ++ rest)) =
      some (content, tail ++ '=' :: (standardCloser ++ rest)) := by
  refine cutFree?_eq_some_iff.mpr ⟨tail, _, rfl, rfl, htail, hcontent, ?_, ?_⟩
  · exact closesHere_iff.mpr (.inr ⟨rest, rfl⟩)
  · intro s u hsplit hu
    rw [hsplit] at h
    exact closesHere_text_eq_false h hu _

/-! ## Reading the directive -/

theorem head_of_text (h : ¬ standardCloser <:+: gap ++ content ++ tail)
    (hgap : ∀ c ∈ gap, isSpace c = true) (htail : ∀ c ∈ tail, isSpace c = true)
    (hcontent : IsTrimmed content) (hne : content ≠ []) (rest : Text) :
    TagHead.reader standardCloser
        ('=' :: (gap ++ content ++ tail ++ '=' :: (standardCloser ++ rest))) =
      .ok ⟨⟨some .equals, content⟩, '=' :: (gap ++ content),
        tail ++ '=' :: (standardCloser ++ rest)⟩ := by
  have hinside : ¬ standardCloser <:+: content ++ tail := by
    intro hin
    rw [List.append_assoc] at h
    exact h (hin.trans (List.suffix_append gap _).isInfix)
  have hreads : Reader.Reads (TagHead.reader standardCloser) ⟨some .equals, content⟩
      (['='] ++ (gap ++ content)) (· = tail ++ '=' :: (standardCloser ++ rest)) := by
    refine TagHead.reads_reader (fun _ => rfl) hgap hne hcontent.start ?_
    refine Reader.reads_cutting ?_
    intro after hafter
    rw [hafter, ← List.append_assoc]
    exact cutFree?_text hinside htail hcontent.stop rest
  simpa using hreads _ rfl

theorem head_of_blank (ht : ∀ c ∈ t, isSpace c = true) (rest : Text) :
    ∃ read, TagHead.reader standardCloser ('=' :: (t ++ '=' :: (standardCloser ++ rest))) =
      .error ⟨.illegalContent, read⟩ := by
  have hspaces : Reader.spaces (t ++ '=' :: (standardCloser ++ rest)) =
      .ok ⟨t, t, '=' :: (standardCloser ++ rest)⟩ :=
    Reader.reads_takeWhile ht _ (stopsRun_cons (by decide))
  have hcut : cutFree? '=' standardCloser ('=' :: (standardCloser ++ rest)) =
      some ([], '=' :: (standardCloser ++ rest)) :=
    @cutFree?_text [] [] (by decide) nofun nofun rest
  have hcontent : contentReader standardCloser (some .equals)
      ('=' :: (standardCloser ++ rest)) = .ok ⟨[], [], '=' :: (standardCloser ++ rest)⟩ := by
    rw [contentReader, Reader.cutting, hcut]
  refine ⟨['='] ++ (t ++ ([] ++ [])), ?_⟩
  refine Reader.bind_eq_error_iff.mpr
    (.inr ⟨⟨some .equals, ['='], _⟩, ⟨.illegalContent, t ++ ([] ++ [])⟩, rfl, ?_, rfl⟩)
  refine Reader.bind_eq_error_iff.mpr (.inr ⟨_, ⟨.illegalContent, [] ++ []⟩, hspaces, ?_, rfl⟩)
  exact Reader.bind_eq_error_iff.mpr (.inr ⟨_, ⟨.illegalContent, []⟩, hcontent, rfl, rfl⟩)

variable [MarkerLimits]

theorem directive_of_text {pair : Delimiters} (htail : ∀ c ∈ tail, isSpace c = true)
    (hpair : Directive.pair? content = some pair) (rest : Text) :
    Directive.reader standardCloser ⟨some .equals, content⟩
        (tail ++ '=' :: (standardCloser ++ rest)) =
      .ok ⟨.setDelimiters content pair, tail ++ '=' :: standardCloser, rest⟩ := by
  have hend : IsEnd Sigil.equals.toChar standardCloser (tail ++ (['='] ++ standardCloser)) :=
    ⟨tail, ['='], rfl, htail, .inl rfl⟩
  have hreads := Directive.reads_endReader isMarker_standardCloser
    (.setDelimiters content pair) hend fun _ => True
  have hreader : Directive.reader standardCloser ⟨some .equals, content⟩ =
      Directive.endReader .equals standardCloser (.setDelimiters content pair) := by
    simp [Directive.reader, hpair]
  rw [hreader]
  simpa using hreads rest trivial

end Directive

/-! ## Reading the line -/

section Line

variable {t : Text}

theorem toList_changeLine (text : String) : (changeLine text).toList =
    Delimiters.standard.opener.toList ++
      '=' :: (text.toList ++ '=' :: (standardCloser ++ ['\n'])) := by
  simp [changeLine, standardCloser, Delimiters.standard]

theorem endsLine_changeLine (text : String) : endsLine (changeLine text).toList = true := by
  have hlast : (changeLine text).toList =
      ("\x7b\x7b=" ++ text ++ "=\x7d\x7d").toList ++ ['\n'] := by
    simp [changeLine]
  rw [hlast, endsLine_append (by simp)]
  rfl

variable [MarkerLimits]

theorem next_changeLine (text : String) (rest : Text) :
    next .standard true ((changeLine text).toList ++ rest) =
      readTag .standard true []
        ('=' :: (text.toList ++ '=' :: (standardCloser ++ '\n' :: rest))) := by
  have hopen : splitOpening Delimiters.standard.opener.toList ((changeLine text).toList ++ rest) =
      some ([], '=' :: (text.toList ++ '=' :: (standardCloser ++ '\n' :: rest))) := by
    refine (splitOpening_eq_some_iff Delimiters.standard_valid.1).mpr ⟨?_, nofun⟩
    rw [toList_changeLine]
    simp
  unfold next
  rw [hopen]

def changeTag (gap content tail : Text) (pair : Delimiters) : Tag where
  delimiters := .standard
  indent := []
  front := Delimiters.standard.opener.toList ++ '=' :: (gap ++ content)
  back := tail ++ '=' :: standardCloser
  lineBreak := ['\n']
  directive := .setDelimiters content pair
  opensLine := true
  standsAlone := true

/-- A line that names a pair is a tag by itself. The rest is read with the pair, from the start of a
line on. -/
theorem read_changeLine {text : String} {pair : Delimiters}
    (h : ¬ standardCloser <:+: text.toList)
    (hpair : Directive.pair? (trim text.toList) = some pair) (rest : Text) :
    ∃ gap content tail, (changeTag gap content tail pair).source = (changeLine text).toList ∧
      Lexemes.read .standard ((changeLine text).toList ++ rest) =
        ⟨.tag (changeTag gap content tail pair) :: (Lexemes.read pair rest).lexemes,
          (Lexemes.read pair rest).broken?⟩ := by
  obtain ⟨gap, tail, ht, hgap, htail, htrimmed⟩ := exists_eq_append_trim text.toList
  have hne : trim text.toList ≠ [] := by
    intro hnil
    rw [hnil] at hpair
    cases hpair
  rw [ht] at h
  have hhead := head_of_text h hgap htail htrimmed hne ('\n' :: rest)
  rw [← ht] at hhead
  have htag : readTag .standard true []
      ('=' :: (text.toList ++ '=' :: (standardCloser ++ '\n' :: rest))) =
        .lexeme (.tag (changeTag gap (trim text.toList) tail pair)) rest :=
    readTag_eq_lexeme_iff.mpr ⟨_, _, hhead, directive_of_text htail hpair _, rfl, rfl⟩
  rw [← next_changeLine] at htag
  have hsource :
      (changeTag gap (trim text.toList) tail pair).source = (changeLine text).toList := by
    have hpieces : (changeTag gap (trim text.toList) tail pair).source =
        Delimiters.standard.opener.toList ++
          '=' :: (gap ++ trim text.toList ++ tail ++ '=' :: (standardCloser ++ ['\n'])) := by
      simp [Tag.source, changeTag]
    rw [hpieces, ← ht, toList_changeLine]
  have hline :
      (Lexeme.tag (changeTag gap (trim text.toList) tail pair)).startsLineAfter = true := by
    rw [← endsLine_changeLine text, ← hsource]
    rfl
  refine ⟨gap, trim text.toList, tail, hsource, ?_⟩
  have hsome : (changeLine text).toList ++ rest ≠ [] := by simp [changeLine]
  rw [Lexemes.read, Lexemes.readFrom_of_lexeme hsome htag, Lexemes.readFrom_seen, hline]
  rfl

theorem read_changeLine_invalid {text : String} (h : ¬ standardCloser <:+: text.toList)
    (hpair : Directive.pair? (trim text.toList) = none) (rest : Text) :
    ∃ tag : BrokenTag, Lexemes.read .standard ((changeLine text).toList ++ rest) = ⟨[], some tag⟩ ∧
      tag.fault = (if trim text.toList = [] then .illegalContent else .invalidDelimiters) ∧
      ∀ head, tag.head? = some head → head.kind = .setDelimiters := by
  have hbroken : ∃ tag : BrokenTag, readTag .standard true []
      ('=' :: (text.toList ++ '=' :: (standardCloser ++ '\n' :: rest))) = .broken tag ∧
        tag.fault = (if trim text.toList = [] then .illegalContent else .invalidDelimiters) ∧
        ∀ head, tag.head? = some head → head.kind = .setDelimiters := by
    by_cases hblank : trim text.toList = []
    · obtain ⟨read, hhead⟩ := head_of_blank (trim_eq_nil_iff.mp hblank) ('\n' :: rest)
      rw [standardCloser] at hhead
      rw [readTag, standardCloser, hhead, if_pos hblank]
      exact ⟨_, rfl, rfl, by simp⟩
    · obtain ⟨gap, tail, ht, hgap, htail, htrimmed⟩ := exists_eq_append_trim text.toList
      rw [ht] at h
      have hhead := head_of_text h hgap htail htrimmed hblank ('\n' :: rest)
      have hdirective : ∀ u, Directive.reader standardCloser
          ⟨some .equals, trim text.toList⟩ u = .error ⟨.invalidDelimiters, []⟩ := by
        intro u
        simp [Directive.reader, hpair, Reader.fail]
      rw [← ht, standardCloser] at hhead
      rw [standardCloser] at hdirective
      rw [readTag, standardCloser, hhead, if_neg hblank]
      dsimp only
      rw [hdirective]
      refine ⟨_, rfl, rfl, ?_⟩
      intro head heq
      cases heq
      rfl
  obtain ⟨tag, htag, hfault, hkind⟩ := hbroken
  rw [← next_changeLine] at htag
  have hsome : (changeLine text).toList ++ rest ≠ [] := by simp [changeLine]
  refine ⟨tag, ?_, hfault, hkind⟩
  rw [Lexemes.read, Lexemes.readFrom_of_broken hsome htag]
  rfl

end Line

/-! ## Compiling -/

section

variable [MarkerLimits]

/-- A template that begins with a line that makes no nodes is compiled as the rest is, with the
errors as many lines further down. -/
theorem compile_of_read_cons {d pair : Delimiters} {line body : String} {tag : Tag}
    (hd : d.withinLimit = true) (hpair : pair.withinLimit = true)
    (hleaf : tag.directive.isBoundary = false) (hnodes : staticNodes tag.kept ++ tag.leaves = [])
    (hsource : tag.source = line.toList) (hline : endsLine line.toList = true)
    (hread : Lexemes.read d (line ++ body).toList =
      ⟨.tag tag :: (Lexemes.read pair body.toList).lexemes,
        (Lexemes.read pair body.toList).broken?⟩) :
    compile d (line ++ body) = (compile pair body).mapError fun error =>
      { error with line := error.line + line.toList.count '\n' } := by
  cases hbody : compile pair body with
  | ok root =>
      obtain ⟨-, hbroken, nodes, rfl, hforms⟩ := compile_eq_ok_iff.mp hbody
      have hall := Forms.leaf hleaf hforms
      rw [hnodes, List.nil_append] at hall
      refine compile_eq_ok_iff.mpr ⟨hd, ?_, nodes, rfl, ?_⟩
      · rw [hread]
        exact hbroken
      · rw [hread]
        exact hall
  | error error =>
      have hstart : Assembly.Shifted (size line.toList)
          (Assembly.extend { log := [.started (line ++ body).utf8ByteSize] } [.tag tag]
            (staticNodes tag.kept ++ tag.leaves)) { log := [.started body.utf8ByteSize] } := by
        refine ⟨?_, rfl⟩
        simp [Assembly.extend, Lexeme.source, hsource]
      refine compile_append_of_agree (.inr hline) hd hpair ?_ hbody
      apply Assembly.Agree.ofLexemes
      · rw [hread, Assembly.foldlM_add_cons _ (Assembly.add_leaf _ hleaf)]
        exact hstart.foldlM_add _
      · rw [hread]

/-- A first line that changes the pair does what compiling with the other pair to begin with does:
the tree is the same, and an error is the same but for the line. A line that names no pair is an
error, whatever comes after it. -/
theorem compile_changeLine_append {text : String} (h : ¬ "\x7d\x7d".toList <:+: text.toList)
    (body : String) :
    (∀ pair, Delimiters.parse text = .ok pair → pair.withinLimit = true →
      compile .standard (changeLine text ++ body) = (compile pair body).mapError fun error =>
        { error with line := error.line + (changeLine text).toList.count '\n' }) ∧
      ∀ invalid, Delimiters.parse text = .error invalid →
        ∃ error, compile .standard (changeLine text ++ body) = .error error ∧
          error.message = if text.toList.all isSpace then "Illegal content in tag"
            else "Invalid delimiters" := by
  have hlimit := Delimiters.standard_withinLimit
  have hparse : Delimiters.parse (String.ofList (trim text.toList)) = Delimiters.parse text := by
    rw [Delimiters.parse_trim, String.ofList_toList]
  constructor
  · intro pair hpair hwithin
    have hnames : Directive.pair? (trim text.toList) = some pair := by
      rw [Directive.pair?, hparse, hpair]
      exact if_pos hwithin
    obtain ⟨gap, content, tail, hsource, hread⟩ := read_changeLine h hnames body.toList
    rw [← String.toList_append] at hread
    exact compile_of_read_cons hlimit hwithin rfl rfl hsource (endsLine_changeLine text) hread
  · intro invalid hinvalid
    have hnames : Directive.pair? (trim text.toList) = none := by
      rw [Directive.pair?, hparse, hinvalid]
    obtain ⟨tag, hread, hfault, hkind⟩ := read_changeLine_invalid h hnames body.toList
    rw [← String.toList_append] at hread
    obtain ⟨failure, hfailure, hsame⟩ : ∃ failure,
        (Assembly.addBroken { log := [.started (changeLine text ++ body).utf8ByteSize] } tag :
          Except Failure Assembly) = .error failure ∧ failure.fault = tag.fault := by
      apply Assembly.addBroken_of_kind
      intro head heq
      rw [hkind head heq]
      nofun
    have hassembled : Assembly.ofLexemes
        { log := [.started (changeLine text ++ body).utf8ByteSize] }
        (Lexemes.read .standard (changeLine text ++ body).toList) = .error failure := by
      rw [hread]
      exact hfailure
    rw [compile_of_withinLimit hlimit, hassembled]
    refine ⟨_, rfl, ?_⟩
    change failure.fault.message = _
    rw [hsame, hfault]
    by_cases hblank : trim text.toList = []
    · rw [if_pos hblank, if_pos (List.all_eq_true.mpr (trim_eq_nil_iff.mp hblank))]
      rfl
    · rw [if_neg hblank, if_neg fun hall => hblank (trim_eq_nil_iff.mpr (List.all_eq_true.mp hall))]
      rfl

end

/-- A pair of which the text holds a brace and an equals sign, and an error below the line. -/
theorem compile_changeLine_append_brace :
    ∃ text, text = " <= \x7d\n" ∧ ¬ "\x7d\x7d".toList <:+: text.toList ∧
      Delimiters.parse text = .ok ⟨"<=", "\x7d"⟩ ∧
      (∀ body, compile .standard (changeLine text ++ body) =
        (compile ⟨"<=", "\x7d"⟩ body).mapError fun error =>
          { error with line := error.line + 2 }) := by
  have htext : ¬ "\x7d\x7d".toList <:+: " <= \x7d\n".toList := by decide
  have hparse : Delimiters.parse " <= \x7d\n" = .ok ⟨"<=", "\x7d"⟩ := by rfl
  refine ⟨_, rfl, htext, hparse, ?_⟩
  intro body
  exact (compile_changeLine_append htext body).1 _ hparse (by decide)

end TagTemplate

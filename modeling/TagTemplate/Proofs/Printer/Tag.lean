import TagTemplate.Proofs.Lexeme.Reading
import TagTemplate.Proofs.Printer.Argument
import TagTemplate.Proofs.Tag.Name

/-!
# Printing tags

A tag is printed without white space that it does not need. In front of any text it is read back
as the tag that was printed, if the closing marker can be told from what may stand before it.
-/

namespace TagTemplate

open Text Reader

/-! ## Printing -/

def Delimiters.printNamed (d : Delimiters) (sigil : Sigil) (name : Text) : Text :=
  d.opener.toList ++ sigil.toChar :: name ++ d.closer.toList

def InterpolationForm.ofEscape : Escape → InterpolationForm
  | .escaped => plain
  | .unescaped => ampersand

def Escape.sigil? : Escape → Option Sigil
  | escaped => none
  | unescaped => some .ampersand

def Escape.mark : Escape → Text
  | escaped => []
  | unescaped => ['&']

def Delimiters.printInterpolation (d : Delimiters) (escape : Escape) (callee : Text)
    (tokens : List ArgumentToken) : Text :=
  d.opener.toList ++ (escape.mark ++ ' ' :: callee) ++
    ArgumentToken.printAll d.closer.toList tokens

/-! ## What can be read back -/

/-- The closing marker begins with no character of a name, no sigil and no quote. -/
def Delimiters.ClosesApart (d : Delimiters) : Prop :=
  ∀ c ∈ d.closer.toList.head?,
    isContent c = false ∧ Sigil.ofChar? c = none ∧ ArgumentToken.isQuote c = false

theorem Delimiters.closesApart_iff {d : Delimiters} :
    d.closer.toList.head?.all (fun c => ! isContent c && (Sigil.ofChar? c).isNone &&
      ! ArgumentToken.isQuote c) = true ↔ d.ClosesApart := by
  simp [ClosesApart, Option.all_eq_true, and_assoc]

instance (d : Delimiters) : Decidable d.ClosesApart :=
  decidable_of_decidable_of_iff Delimiters.closesApart_iff

def IsName (t : Text) : Prop := t ≠ [] ∧ ∀ c ∈ t, isContent c = true

theorem isName_iff {t : Text} : (! t.isEmpty && t.all isContent) = true ↔ IsName t := by
  simp [IsName]

instance (t : Text) : Decidable (IsName t) := decidable_of_decidable_of_iff isName_iff

/-! ## Tags within a line -/

def Tag.inline (d : Delimiters) (front back : Text) (directive : Directive) : Tag where
  delimiters := d
  indent := []
  front := d.opener.toList ++ front
  back := back
  lineBreak := []
  directive := directive
  opensLine := false
  standsAlone := false

section

variable [MarkerLimits]

/-- In front of any text, but not at the start of a line, the printed text is read as the tag. -/
structure Tag.ReadsBack (d : Delimiters) (printed : Text) (directive : Directive) (tag : Tag) :
    Prop where
  next_eq : ∀ rest, next d false (printed ++ rest) = .lexeme (.tag tag) rest
  starts_opener : d.opener.toList <+: printed
  ends_closer : d.closer.toList <:+ printed
  delimiters_eq : tag.delimiters = d
  directive_eq : tag.directive = directive
  indent_eq : tag.indent = []

/-- What both readers of a tag read in every context makes up the tag. -/
theorem readsBack_inline {d : Delimiters} {head : TagHead} {front back : Text}
    {directive : Directive} (hd : d.Valid)
    (hhead : Reads (TagHead.reader d.closer.toList) head front (fun rest => ∃ u, rest = back ++ u))
    (hdirective : Reads (Directive.reader d.closer.toList head) directive back (fun _ => True))
    (hcloser : d.closer.toList <:+ back) :
    (Tag.inline d front back directive).ReadsBack d (d.opener.toList ++ front ++ back)
      directive where
  next_eq rest := by
    refine next_eq_tag_iff.mpr ⟨[], front ++ (back ++ rest), ?_, ?_⟩
    · refine (splitOpening_eq_some_iff hd.1).mpr ⟨?_, nofun⟩
      simp
    · refine readTag_eq_lexeme_iff.mpr ⟨⟨head, front, back ++ rest⟩, ⟨directive, back, rest⟩, ?_,
        ?_, rfl, rfl⟩
      · exact hhead (back ++ rest) ⟨rest, rfl⟩
      · exact hdirective rest trivial
  starts_opener := by
    rw [List.append_assoc]
    exact List.prefix_append _ _
  ends_closer := hcloser.trans (List.suffix_append _ _)
  delimiters_eq := rfl
  directive_eq := rfl
  indent_eq := rfl

namespace Tag.ReadsBack

variable {d : Delimiters} {printed : Text} {directive : Directive} {tag : Tag}

theorem kept_eq (h : tag.ReadsBack d printed directive) : tag.kept = [] := by
  unfold Tag.kept
  rw [h.indent_eq]
  split
  · rfl
  · rfl

theorem printed_ne_nil (hd : d.Valid) (h : tag.ReadsBack d printed directive) : printed ≠ [] := by
  intro hnil
  have hstarts := h.starts_opener
  rw [hnil, List.prefix_nil] at hstarts
  exact (Delimiters.isMarker_iff.mp hd.1).1 hstarts

theorem source_eq (hd : d.Valid) (h : tag.ReadsBack d printed directive) :
    tag.source = printed := by
  have hnext := h.next_eq []
  rw [List.append_nil] at hnext
  have happ := (next_append (h.printed_ne_nil hd) hnext).1
  rw [List.append_nil] at happ
  exact happ

theorem lexes (hd : d.Valid) (h : tag.ReadsBack d printed directive)
    (hpair : ∀ text pair, directive ≠ .setDelimiters text pair) {rest : Text}
    {lexemes : List Lexeme} (hrest : Lexes d false rest lexemes) :
    Lexes d false (printed ++ rest) (.tag tag :: lexemes) := by
  have hafter : (Lexeme.tag tag).delimitersAfter d = d := by
    rw [delimitersAfter_tag, h.directive_eq]
    split
    · exact absurd rfl (hpair _ _)
    · rfl
  have hline : (Lexeme.tag tag).startsLineAfter = false := by
    obtain ⟨front, hfront⟩ := h.ends_closer
    have hends := endsLine_append_marker hd.2 front
    rw [hfront, ← h.source_eq hd] at hends
    exact hends
  refine .cons (by simp [h.printed_ne_nil hd]) (h.next_eq rest) ?_
  rw [hafter, hline]
  exact hrest

end Tag.ReadsBack

end

/-! ## Names -/

theorem stopsRun_isSpace_of_isName {name : Text} (h : IsName name) : StopsRun isSpace name := by
  intro c hc
  exact isSpace_eq_false_of_isContent (h.2 c (List.mem_of_mem_head? hc))

theorem closer_suffix_printAll (close : Text) (tokens : List ArgumentToken) :
    close <:+ ArgumentToken.printAll close tokens := by
  induction tokens with
  | nil => exact List.suffix_cons _ _
  | cons token tokens ih => exact ih.trans (List.suffix_append _ _)

section ClosesApart

variable {d : Delimiters}

theorem closer_head (hd : d.Valid) (hclose : d.ClosesApart) :
    ∃ c u, d.closer.toList = c :: u ∧ isContent c = false ∧ Sigil.ofChar? c = none ∧
      ArgumentToken.isQuote c = false := by
  obtain ⟨c, u, hcons⟩ := List.exists_cons_of_ne_nil (Delimiters.isMarker_iff.mp hd.2).1
  exact ⟨c, u, hcons, hclose c (by rw [hcons]; rfl)⟩

/-- A sigil and a name are read as the head of a tag in front of what no name goes on with. -/
theorem reads_head {closer name : Text} {sigil : Option Sigil} {P : Text → Prop} (mark gap : Text)
    (hfree : TagHead.takesFreeText sigil = false)
    (hmark : ∀ rest, TagHead.IsMark sigil mark (gap ++ name ++ rest))
    (hgap : ∀ c ∈ gap, isSpace c = true) (hname : IsName name)
    (hfollows : ∀ rest, P rest → StopsRun isContent rest) :
    Reads (TagHead.reader closer) ⟨sigil, name⟩ (mark ++ (gap ++ name)) P := by
  refine TagHead.reads_reader hmark hgap hname.1 (stopsRun_isSpace_of_isName hname) ?_
  rw [TagHead.contentReader_name closer hfree]
  exact (reads_takeWhile hname.2).mono hfollows

variable [MarkerLimits]

/-- A printed tag with a sigil is read back. -/
theorem exists_readsBack_printNamed (hd : d.Valid) (hclose : d.ClosesApart) {sigil : Sigil}
    {name : Text} {directive : Directive} (hfree : TagHead.takesFreeText (some sigil) = false)
    (hname : IsName name)
    (hreader : Directive.reader d.closer.toList ⟨some sigil, name⟩ =
      Directive.endReader sigil d.closer.toList directive) :
    ∃ tag : Tag, tag.ReadsBack d (d.printNamed sigil name) directive := by
  obtain ⟨c, u, hcons, hcontent, hsigil, -⟩ := closer_head hd hclose
  have hhead : Reads (TagHead.reader d.closer.toList) ⟨some sigil, name⟩ (sigil.toChar :: name)
      (fun rest => ∃ v, rest = d.closer.toList ++ v) := by
    refine reads_head [sigil.toChar] [] hfree (fun _ => rfl) nofun hname ?_
    intro _ h
    rcases h with ⟨v, rfl⟩
    rw [hcons]
    exact stopsRun_cons hcontent
  refine ⟨_, readsBack_inline hd hhead ?_ List.suffix_rfl⟩
  rw [hreader]
  refine Directive.reads_endReader hd.2 directive ⟨[], [], rfl, nofun, .inr ⟨rfl, ?_⟩⟩ _
  rw [hcons]
  intro h
  rcases h with ⟨rfl⟩
  rw [Sigil.ofChar?_toChar] at hsigil
  cases hsigil

theorem exists_readsBack_printInterpolation (hd : d.Valid) (hclose : d.ClosesApart)
    (escape : Escape) {callee : Text} {tokens : List ArgumentToken} (hname : IsName callee)
    (htokens : ∀ token ∈ tokens, token.Spelled d.closer.toList)
    (hlength : tokens.length < ArgumentToken.scanLimit) :
    ∃ tag : Tag, tag.ReadsBack d (d.printInterpolation escape callee tokens)
      (.interpolation (.ofEscape escape) callee tokens) := by
  obtain ⟨c, u, hcons, -, -, hquote⟩ := closer_head hd hclose
  have hfree : TagHead.takesFreeText escape.sigil? = false := by
    cases escape with
    | escaped => rfl
    | unescaped => rfl
  have hmark : ∀ rest, TagHead.IsMark escape.sigil? escape.mark ([' '] ++ callee ++ rest) := by
    intro rest
    cases escape with
    | escaped =>
        refine ⟨rfl, ?_⟩
        intro _ h
        rcases h with ⟨rfl⟩
        decide
    | unescaped => rfl
  have hspace : ∀ u, StopsRun isContent (ArgumentToken.printAll d.closer.toList tokens ++ u) := by
    intro u
    obtain ⟨v, hv⟩ := ArgumentToken.exists_printAll_eq_cons d.closer.toList tokens
    rw [hv]
    exact stopsRun_cons (by decide)
  have hgap : ∀ c ∈ [' '], isSpace c = true := List.forall_mem_singleton.mpr rfl
  have hhead : Reads (TagHead.reader d.closer.toList) ⟨escape.sigil?, callee⟩
      (escape.mark ++ ' ' :: callee)
      (fun rest => ∃ u, rest = ArgumentToken.printAll d.closer.toList tokens ++ u) := by
    refine reads_head escape.mark [' '] hfree hmark hgap hname ?_
    intro _ h
    rcases h with ⟨u, rfl⟩
    exact hspace u
  have hreader : Directive.reader d.closer.toList ⟨escape.sigil?, callee⟩ =
      ArgumentToken.listReader d.closer.toList d.closer.toList ArgumentToken.scanLimit >>=
        fun args => pure (.interpolation (.ofEscape escape) callee args) := by
    cases escape with
    | escaped => rfl
    | unescaped => rfl
  refine ⟨_, readsBack_inline hd hhead ?_ (closer_suffix_printAll _ tokens)⟩
  have hquotes : ∀ e ∈ d.closer.toList.head?, ArgumentToken.isQuote e = false := by
    rw [hcons]
    intro _ h
    rcases h with ⟨rfl⟩
    exact hquote
  have hlist := ArgumentToken.reads_listReader_printAll hd.2 hquotes htokens hlength fun _ => True
  rw [hreader, ← List.append_nil (ArgumentToken.printAll _ _)]
  exact hlist.bind (reads_pure _ _) fun _ _ => trivial

end ClosesApart

end TagTemplate

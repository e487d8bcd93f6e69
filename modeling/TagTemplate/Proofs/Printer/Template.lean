import TagTemplate.Proofs.Assembly.Grammar
import TagTemplate.Proofs.Evaluation
import TagTemplate.Proofs.Printer.Tag

/-!
# Printing templates

Compiling undoes printing. A list of nodes is printed node by node, and if its literal text cannot
be mistaken for a tag and its tags can be told apart from what they hold, the compiled tree has
these nodes again. The proof reads the printed text lexeme by lexeme: a run of text stops where the
printer went on with a tag, and a tag stops at the closing marker that the printer wrote.
-/

namespace TagTemplate

open Text

/-! ## Printing -/

namespace Node

def openSigil (inverted : Bool) : Sigil := if inverted then .caret else .hash

mutual

def print (d : Delimiters) (node : Node) : Text :=
  match node with
  | multi nodes => printAll d nodes
  | static text => text.toList
  | interpolation escape callee args =>
      d.printInterpolation escape callee.dotted.toList (args.flatMap Argument.tokens)
  | block inverted callee body _ _ =>
      d.printNamed (openSigil inverted) callee.dotted.toList ++ printAll d body ++
        d.printNamed .slash callee.dotted.toList
  | partialRef name _ => d.printNamed .greater name.toList

def printAll (d : Delimiters) (nodes : List Node) : Text :=
  match nodes with
  | [] => []
  | node :: nodes => print d node ++ printAll d nodes

end

end Node

/-! ## What can be read back -/

/-- Literal text that is no part of a tag and leaves on its last line more than blanks. -/
structure Delimiters.IsLiteral (d : Delimiters) (t : Text) : Prop where
  notMem_opener : ∀ c ∈ t, c ∉ d.opener.toList
  exists_not_isIndent : ∃ c ∈ lastLine t, isIndent c = false

theorem Delimiters.isLiteral_iff {d : Delimiters} {t : Text} :
    (t.all (fun c => ! d.opener.toList.contains c) && (lastLine t).any (! isIndent ·)) = true ↔
      d.IsLiteral t := by
  simp only [Bool.and_eq_true, List.all_eq_true, List.any_eq_true, Bool.not_eq_true',
    List.contains_eq_mem, decide_eq_false_iff_not]
  exact ⟨fun ⟨hopener, hline⟩ => ⟨hopener, hline⟩, fun ⟨hopener, hline⟩ => ⟨hopener, hline⟩⟩

instance (d : Delimiters) (t : Text) : Decidable (d.IsLiteral t) :=
  decidable_of_decidable_of_iff Delimiters.isLiteral_iff

def Path.IsNamed (p : Path) : Prop := IsName p.dotted.toList ∧ Path.ofString p.dotted = p

instance (p : Path) : Decidable p.IsNamed := inferInstanceAs (Decidable (_ ∧ _))

/-- The nodes can be printed with the pair and read back. No two texts stand side by side, and
sections hold the text and the pair that their printed bodies give them. -/
inductive Printable (d : Delimiters) : List Node → Prop where
  | nil : Printable d []
  | static {text : String} {nodes : List Node} :
      d.IsLiteral text.toList → (∀ next, nodes.head? ≠ some (.static next)) →
      Printable d nodes → Printable d (.static text :: nodes)
  | interpolation {escape : Escape} {callee : Path} {args : List Argument} {nodes : List Node} :
      callee.IsNamed → Argument.InOrder args →
      (∀ token ∈ args.flatMap Argument.tokens, token.Spelled d.closer.toList) →
      (args.flatMap Argument.tokens).length ≤ 30 →
      Printable d nodes → Printable d (.interpolation escape callee args :: nodes)
  | block {inverted : Bool} {callee : Path} {body nodes : List Node} :
      callee.IsNamed → Printable d body → Printable d nodes →
      Printable d (.block inverted callee body (String.ofList (Node.printAll d body)) d :: nodes)
  | partialRef {name : String} {nodes : List Node} :
      IsName name.toList → Printable d nodes → Printable d (.partialRef name "" :: nodes)

/-! ## Runs of text -/

section Literal

variable {d : Delimiters} {s rest : Text}

/-- Text that shares no character with the opening marker reaches into no tag, but at most into
the blanks before it. -/
theorem isPrefix_of_opening {opener v indent u : Text} (ho : opener ≠ [])
    (hv : ∀ c ∈ v, c ∉ opener) (h : v ++ rest = indent ++ opener ++ u) : v <+: indent := by
  rw [List.append_assoc] at h
  rcases List.append_eq_append_iff.mp h with ⟨piece, hpiece, -⟩ | ⟨piece, hpiece, hopener⟩
  · exact ⟨piece, hpiece.symm⟩
  · cases piece with
    | nil =>
        exact ⟨[], by simp [hpiece]⟩
    | cons c piece =>
        obtain ⟨e, opener', rfl⟩ := List.exists_cons_of_ne_nil ho
        obtain ⟨rfl, -⟩ := List.cons.inj hopener
        exact absurd List.mem_cons_self (hv e (by simp [hpiece]))

theorem Delimiters.IsLiteral.not_blank (h : d.IsLiteral s) :
    ¬ ∀ c ∈ lastLine s, isIndent c = true := by
  intro hall
  obtain ⟨c, hmem, hc⟩ := h.exists_not_isIndent
  rw [hall c hmem] at hc
  cases hc

theorem Delimiters.IsLiteral.endsLine_eq_false (h : d.IsLiteral s) : endsLine s = false := by
  cases hends : endsLine s with
  | false => rfl
  | true =>
      obtain ⟨c, hmem, -⟩ := h.exists_not_isIndent
      rw [lastLine_of_endsLine (.inr hends)] at hmem
      cases hmem

theorem Delimiters.IsLiteral.ne_nil (h : d.IsLiteral s) : s ≠ [] := by
  intro heq
  subst heq
  obtain ⟨c, hmem, -⟩ := h.exists_not_isIndent
  cases hmem

theorem lastLine_mem {c : Char} {s : Text} (h : c ∈ lastLine s) : c ∈ s := by
  obtain ⟨u, hu, -⟩ := exists_eq_append_lastLine s
  rw [hu]
  exact List.mem_append_right _ h

variable [MarkerLimits]

/-- Literal text is one run of text in front of a tag or of the end of the template. -/
theorem next_literal (hd : d.Valid) (h : d.IsLiteral s)
    (hrest : rest = [] ∨ d.opener.toList <+: rest) (lineStart : Bool) :
    next d lineStart (s ++ rest) = .lexeme (.text s) rest := by
  have hopener := (Delimiters.isMarker_iff.mp hd.1).1
  have hne : s ++ rest ≠ [] := by simp [h.ne_nil]
  refine next_eq_text_iff.mpr ⟨?_, (splitText_eq_iff hne).mpr ⟨rfl, h.ne_nil, ?_, ?_⟩⟩
  · refine (splitOpening_eq_none_iff hd.1).mpr ?_
    intro indent u heq hindent
    obtain ⟨piece, hpiece⟩ := isPrefix_of_opening hopener h.notMem_opener heq
    apply h.not_blank
    intro c hc
    exact hindent c (by rw [← hpiece]; exact List.mem_append_left _ (lastLine_mem hc))
  · intro a b hab ha hb
    cases hopens : opensHere d.opener.toList (endsLine a) (b ++ rest) with
    | false => rfl
    | true =>
        obtain ⟨indent, u, heq, hindent, hline⟩ := (opensHere_iff hd.1).mp hopens
        have hbOpener : ∀ c ∈ b, c ∉ d.opener.toList := by
          intro c hc
          exact h.notMem_opener c (by rw [hab]; exact List.mem_append_right _ hc)
        obtain ⟨piece, hpiece⟩ := isPrefix_of_opening hopener hbOpener heq
        have hblank : ∀ c ∈ b, isIndent c = true := by
          intro c hc
          exact hindent c (by rw [← hpiece]; exact List.mem_append_left _ hc)
        have hends : endsLine a = true := by
          rcases hline with hline | rfl
          · exact hline
          · exact absurd (List.append_eq_nil_iff.mp hpiece).1 hb
        have hlast : lastLine s = lastLine b := by
          rw [hab, lastLine_append_left (.inr hends)]
        refine absurd ?_ h.not_blank
        intro c hc
        rw [hlast] at hc
        exact hblank c (lastLine_mem hc)
  · intro hne'
    obtain ⟨u, hu⟩ := hrest.resolve_left hne'
    exact (opensHere_iff hd.1).mpr ⟨[], u, by simp [hu], nofun, .inr rfl⟩

theorem lexes_literal (hd : d.Valid) (h : d.IsLiteral s)
    (hrest : rest = [] ∨ d.opener.toList <+: rest) (lineStart : Bool) {lexemes : List Lexeme}
    (hlexes : Lexes d false rest lexemes) :
    Lexes d lineStart (s ++ rest) (.text s :: lexemes) := by
  have hline : (Lexeme.text s).startsLineAfter = false := h.endsLine_eq_false
  refine .cons (by simp [h.ne_nil]) (next_literal hd h hrest lineStart) ?_
  rw [delimitersAfter_text, hline]
  exact hlexes

end Literal

/-! ## Templates -/

section Template

variable {d : Delimiters}

section

variable [MarkerLimits]

/-- In front of nothing or of a tag, and not at the start of a line, the printed text is read as
lexemes that make the nodes. -/
structure ReadsBack (d : Delimiters) (printed : Text) (lexemes : List Lexeme) (nodes : List Node) :
    Prop where
  forms : Forms lexemes nodes
  source_eq : sourceOf lexemes = printed
  lexes : ∀ rest more, (rest = [] ∨ d.opener.toList <+: rest) → Lexes d false rest more →
    Lexes d false (printed ++ rest) (lexemes ++ more)

namespace ReadsBack

variable {printed inner : Text} {lexemes body : List Lexeme} {nodes children : List Node}

theorem nil (d : Delimiters) : ReadsBack d [] [] [] :=
  ⟨.nil, rfl, fun _ _ _ hmore => hmore⟩

theorem static {text : String} (hd : d.Valid) (hliteral : d.IsLiteral text.toList)
    (hhead : printed = [] ∨ d.opener.toList <+: printed) (h : ReadsBack d printed lexemes nodes) :
    ReadsBack d (text.toList ++ printed) (.text text.toList :: lexemes) (.static text :: nodes) where
  forms := by
    have hstatic : staticNodes text.toList = [.static text] := by
      rw [staticNodes, if_neg hliteral.ne_nil, String.ofList_toList]
    have hforms := Forms.text (t := text.toList) h.forms
    rw [hstatic] at hforms
    exact hforms
  source_eq := by
    rw [sourceOf_cons, h.source_eq]
    rfl
  lexes rest more hrest hmore := by
    have hfollows : printed ++ rest = [] ∨ d.opener.toList <+: printed ++ rest := by
      rcases hhead with rfl | hstarts
      · exact hrest
      · exact .inr (hstarts.trans (List.prefix_append _ _))
    rw [List.append_assoc]
    exact lexes_literal hd hliteral hfollows false (h.lexes rest more hrest hmore)

theorem leaf {tag : Tag} {written : Text} {directive : Directive} (hd : d.Valid)
    (htag : tag.ReadsBack d written directive) (hleaf : directive.isBoundary = false)
    (hpair : ∀ text pair, directive ≠ .setDelimiters text pair)
    (h : ReadsBack d printed lexemes nodes) :
    ReadsBack d (written ++ printed) (.tag tag :: lexemes) (tag.leaves ++ nodes) where
  forms := by
    have hown : tag.directive.isBoundary = false := by
      rw [htag.directive_eq]
      exact hleaf
    have hforms := Forms.leaf hown h.forms
    rw [htag.kept_eq] at hforms
    exact hforms
  source_eq := by
    rw [sourceOf_cons, h.source_eq, Lexeme.source, htag.source_eq hd]
  lexes rest more hrest hmore := by
    rw [List.append_assoc]
    exact htag.lexes hd hpair (h.lexes rest more hrest hmore)

theorem block {opening closing : Tag} {front back name : Text} {inverted : Bool} (hd : d.Valid)
    (hopening : opening.ReadsBack d front (.openBlock inverted name))
    (hclosing : closing.ReadsBack d back (.closeBlock name))
    (hbody : ReadsBack d inner body children) (h : ReadsBack d printed lexemes nodes) :
    ReadsBack d (front ++ inner ++ back ++ printed)
      (.tag opening :: body ++ .tag closing :: lexemes)
      (.block inverted (.ofText name) children (String.ofList inner) d :: nodes) where
  forms := by
    have hforms := Forms.block hopening.directive_eq hclosing.directive_eq hbody.forms h.forms
    rw [hopening.kept_eq, hclosing.kept_eq, hclosing.indent_eq, hclosing.delimiters_eq,
      hbody.source_eq, List.append_nil] at hforms
    simpa [staticNodes] using hforms
  source_eq := by
    simp [hbody.source_eq, h.source_eq, Lexeme.source, hopening.source_eq hd,
      hclosing.source_eq hd]
  lexes rest more hrest hmore := by
    have hback := hclosing.lexes hd (by simp) (h.lexes rest more hrest hmore)
    have hinner := hbody.lexes _ _ (.inr (hclosing.starts_opener.trans (List.prefix_append _ _)))
      hback
    have hfront := hopening.lexes hd (by simp) hinner
    simpa using hfront

end ReadsBack

omit [MarkerLimits] in
theorem Printable.printAll_head {nodes : List Node} (h : Printable d nodes)
    (hhead : ∀ text, nodes.head? ≠ some (.static text)) :
    Node.printAll d nodes = [] ∨ d.opener.toList <+: Node.printAll d nodes := by
  cases h with
  | nil => exact .inl rfl
  | static => exact absurd rfl (hhead _)
  | interpolation | block | partialRef =>
      right
      simp [Node.printAll, Node.print, Delimiters.printInterpolation, Delimiters.printNamed]

/-- Printed nodes are read as lexemes that make them. -/
theorem Printable.exists_readsBack (hd : d.Valid) (hclose : d.ClosesApart) {nodes : List Node}
    (h : Printable d nodes) : ∃ lexemes, ReadsBack d (Node.printAll d nodes) lexemes nodes := by
  induction h with
  | nil => exact ⟨[], .nil d⟩
  | @static text nodes hliteral hhead hnodes ih =>
      obtain ⟨lexemes, hlexemes⟩ := ih
      exact ⟨_, hlexemes.static hd hliteral (hnodes.printAll_head hhead)⟩
  | @interpolation escape callee args nodes hcallee horder htokens hlength _ ih =>
      obtain ⟨lexemes, hlexemes⟩ := ih
      obtain ⟨tag, htag⟩ := exists_readsBack_printInterpolation hd hclose escape hcallee.1 htokens
        (Nat.lt_succ_of_le hlength)
      have hleaves : tag.leaves = [.interpolation escape callee args] := by
        have hpath : Path.ofText callee.dotted.toList = callee := hcallee.2
        have hescape : (InterpolationForm.ofEscape escape).escape = escape := by
          cases escape with
          | escaped => rfl
          | unescaped => rfl
        simp [Tag.leaves, htag.directive_eq, hpath, hescape,
          Argument.ofTokens_flatMap_tokens horder]
      have := hlexemes.leaf hd htag rfl (by simp)
      rw [hleaves] at this
      exact ⟨_, this⟩
  | @block inverted callee body nodes hcallee _ _ ihbody ih =>
      obtain ⟨inner, hinner⟩ := ihbody
      obtain ⟨lexemes, hlexemes⟩ := ih
      obtain ⟨opening, hopening⟩ : ∃ tag : Tag, tag.ReadsBack d
          (d.printNamed (Node.openSigil inverted) callee.dotted.toList)
          (.openBlock inverted callee.dotted.toList) := by
        cases inverted with
        | false => exact exists_readsBack_printNamed hd hclose rfl hcallee.1 rfl
        | true => exact exists_readsBack_printNamed hd hclose rfl hcallee.1 rfl
      obtain ⟨closing, hclosing⟩ : ∃ tag : Tag, tag.ReadsBack d
          (d.printNamed .slash callee.dotted.toList) (.closeBlock callee.dotted.toList) :=
        exists_readsBack_printNamed hd hclose rfl hcallee.1 rfl
      have := ReadsBack.block hd hopening hclosing hinner hlexemes
      rw [show Path.ofText callee.dotted.toList = callee from hcallee.2] at this
      exact ⟨_, this⟩
  | @partialRef name nodes hname _ ih =>
      obtain ⟨lexemes, hlexemes⟩ := ih
      obtain ⟨tag, htag⟩ : ∃ tag : Tag, tag.ReadsBack d (d.printNamed .greater name.toList)
          (.partialRef name.toList) := exists_readsBack_printNamed hd hclose rfl hname rfl
      have hleaves : tag.leaves = [.partialRef name ""] := by
        have hpadding : tag.padding = [] := by
          unfold Tag.padding
          rw [htag.indent_eq]
          split
          · rfl
          · rfl
        simp [Tag.leaves, htag.directive_eq, hpadding]
      have := hlexemes.leaf hd htag rfl (by simp)
      rw [hleaves] at this
      exact ⟨_, this⟩

theorem Printable.exists_lexes (hd : d.Valid) (hclose : d.ClosesApart) {nodes : List Node}
    (hstart : ∀ node ∈ nodes.head?, ∃ text, node = .static text) (h : Printable d nodes) :
    ∃ lexemes, Forms lexemes nodes ∧ Lexes d true (Node.printAll d nodes) lexemes := by
  cases h with
  | nil => exact ⟨[], .nil, .nil⟩
  | @static text nodes hliteral hhead hnodes =>
      obtain ⟨lexemes, hlexemes⟩ := hnodes.exists_readsBack hd hclose
      have hfollows := hnodes.printAll_head hhead
      have hrest := hlexemes.lexes [] [] (.inl rfl) .nil
      rw [List.append_nil, List.append_nil] at hrest
      exact ⟨_, (hlexemes.static hd hliteral hfollows).forms,
        lexes_literal hd hliteral hfollows true hrest⟩
  | interpolation | block | partialRef =>
      obtain ⟨text, htext⟩ := hstart _ rfl
      cases htext

/-- Printed nodes that start with literal text compile to themselves. -/
theorem compile_printAll (hd : d.Valid) (hlimit : d.withinLimit = true) (hclose : d.ClosesApart)
    {nodes : List Node} (hstart : ∀ node ∈ nodes.head?, ∃ text, node = .static text)
    (h : Printable d nodes) :
    compile d (String.ofList (Node.printAll d nodes)) = .ok (.multi nodes) := by
  obtain ⟨lexemes, hforms, hlexes⟩ := h.exists_lexes hd hclose hstart
  have hread : Lexemes.read d (String.ofList (Node.printAll d nodes)).toList = ⟨lexemes, none⟩ := by
    rw [String.toList_ofList]
    exact hlexes.readFrom_eq
  refine compile_eq_ok_iff.mpr ⟨hlimit, ?_, nodes, rfl, ?_⟩
  · rw [hread]
  · rw [hread]
    exact hforms

end

/-- Literal text, an interpolation with arguments of all kinds and a section. -/
theorem compile_printAll_standard :
    ∃ nodes, nodes = [.static "x ", .interpolation .unescaped ⟨["a", "b"]⟩
        [.positional (.quoted "it's \x7d\x7d"), .positional (.number "1.5"),
          .named ⟨[("k", .path ⟨["v"]⟩)]⟩],
        .block true ⟨["s"]⟩ [.partialRef "p" "", .static "y\n z"] "\x7b\x7b>p\x7d\x7dy\n z"
          .standard] ∧
      Printable .standard nodes ∧
      compile .standard (String.ofList (Node.printAll .standard nodes)) = .ok (.multi nodes) := by
  have hbody : Printable .standard [.partialRef "p" "", .static "y\n z"] :=
    .partialRef (by decide) (.static (by decide) nofun .nil)
  have hnodes : Printable .standard [.static "x ", .interpolation .unescaped ⟨["a", "b"]⟩
      [.positional (.quoted "it's \x7d\x7d"), .positional (.number "1.5"),
        .named ⟨[("k", .path ⟨["v"]⟩)]⟩],
      .block true ⟨["s"]⟩ [.partialRef "p" "", .static "y\n z"] "\x7b\x7b>p\x7d\x7dy\n z"
        .standard] := by
    refine .static (by decide) nofun ?_
    refine .interpolation (by decide) ?_ (by decide) (by decide) (.block (by decide) hbody .nil)
    exact ⟨[.quoted "it's \x7d\x7d", .number "1.5"], .inr ⟨[("k", .path ⟨["v"]⟩)], nofun, rfl⟩⟩
  refine ⟨_, rfl, hnodes, ?_⟩
  exact compile_printAll Delimiters.standard_valid (by decide) (by decide) (by simp) hnodes

end Template

end TagTemplate

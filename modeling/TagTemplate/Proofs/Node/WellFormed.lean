import Mathlib.Data.List.Basic
import TagTemplate.Proofs.Assembly.Walk
import TagTemplate.Proofs.Printer.Template
import TagTemplate.Proofs.Tag.Name

/-!
# Well-formed trees

What can be relied on in a compiled tree without a look at its template. Every clause is settled by
one reader: the words and literals of arguments by the one that classifies a token, names and
padding by the one that reads a tag. Assembling only puts together what they made, wherever in the
tree a node ends up.
-/

namespace TagTemplate

open Text

/-! ## Trees -/

/-- What holds of each node below the root, apart from its descendants. A tree does not tell with
which marker a tag closed, so that the words of its arguments only have to be words in a tag that
keeps no characters for it. -/
def Node.Proper : Node → Prop
  | multi _ => False
  | static text => text ≠ ""
  | interpolation _ callee args =>
      callee.IsNamed ∧ Argument.InOrder args ∧ (args.flatMap Argument.tokens).length ≤ 30 ∧
        ∀ token ∈ args.flatMap Argument.tokens, token.Spelled []
  | block _ callee _ _ d => callee.IsNamed ∧ d.Valid
  | partialRef name padding => IsName name.toList ∧ ∀ c ∈ padding.toList, isIndent c = true

/-- The root holds nodes side by side, and all of these and their descendants are proper. -/
def Node.WellFormed (root : Node) : Prop :=
  ∃ nodes, root = multi nodes ∧ ∀ node ∈ walkAll nodes, node.Proper

/-! ## Arguments -/

namespace ArgumentToken

theorem isWord_nil_iff {t : Text} : IsWord [] t ↔ isWord t = true := by
  simp [IsWord, inWord, isWord]

theorem SpellsValue.spelled {isNumeral : Text → Bool} {t : Text} {value : Value}
    (h : SpellsValue isNumeral t value) : value.Spelled [] isNumeral := by
  cases h with
  | quoted hquote hmem =>
      rw [Value.Spelled, String.toList_ofList]
      simp only [isQuote, Bool.or_eq_true, beq_iff_eq] at hquote
      rcases hquote with rfl | rfl
      · exact .inl hmem
      · exact .inr hmem
  | number hword hnum =>
      rw [Value.Spelled, String.toList_ofList]
      exact ⟨isWord_nil_iff.mpr hword, hnum⟩
  | path hword hnum =>
      rw [Value.Spelled, ← Path.ofText, Path.dotted_ofText, String.toList_ofList]
      refine ⟨isWord_nil_iff.mpr hword, hnum, ?_⟩
      rw [Path.ofString, String.toList_ofList]

theorem spelled_of_classify? {t : Text} {token : ArgumentToken} (h : classify? t = some token) :
    token.Spelled [] := by
  cases classify?_eq_some_iff.mp h with
  | positional hvalue => exact hvalue.spelled
  | named hname hvalue =>
      refine ⟨?_, hvalue.spelled⟩
      rw [String.toList_ofList]
      exact isWord_nil_iff.mpr hname

/-- A list of arguments has fewer tokens than it was looked at, and each is spelled as an
argument. -/
theorem spelled_of_listReader {stop close t : Text} {scans : Nat}
    {x : Reading (List ArgumentToken)} (h : listReader stop close scans t = .ok x) :
    x.value.length < scans ∧ ∀ token ∈ x.value, token.Spelled [] := by
  induction scans generalizing t x with
  | zero => cases h
  | succ scans ih =>
      obtain ⟨gap, -, ⟨hvalue, -, -⟩ | ⟨token, tokens, htoken, -, htokens, -, -, hvalue, -⟩⟩ :=
        listReader_eq_ok h
      · rw [hvalue]
        exact ⟨Nat.succ_pos scans, nofun⟩
      · obtain ⟨hlt, hall⟩ := ih htokens
        rw [hvalue]
        refine ⟨by simpa using hlt, ?_⟩
        intro other hmem
        rcases List.mem_cons.mp hmem with rfl | hmem
        · exact spelled_of_classify? (reader_eq_ok htoken).2
        · exact hall other hmem

end ArgumentToken

namespace Argument

open ArgumentToken

theorem inOrder_ofTokens (tokens : List ArgumentToken) : InOrder (ofTokens tokens) := by
  have hvalues : ∃ values : List Value, tokens.filterMap positional? = values.map positional := by
    induction tokens with
    | nil => exact ⟨[], rfl⟩
    | cons token tokens ih =>
        obtain ⟨values, ih⟩ := ih
        cases token with
        | positional value => exact ⟨value :: values, congrArg (positional value :: ·) ih⟩
        | named name value => exact ⟨values, ih⟩
  obtain ⟨values, hvalues⟩ := hvalues
  refine ⟨values, ?_⟩
  rw [ofTokens_eq, hvalues]
  split
  · exact .inl (List.append_nil _)
  · rename_i hne
    exact .inr ⟨_, hne, rfl⟩

theorem perm_flatMap_tokens_ofTokens (tokens : List ArgumentToken) :
    ((ofTokens tokens).flatMap Argument.tokens).Perm tokens := by
  have hnamed : (if tokens.filterMap entry? = [] then [] else
      [Argument.named ⟨tokens.filterMap entry?⟩]).flatMap Argument.tokens =
        (tokens.filterMap entry?).map fun entry => .named entry.1 entry.2 := by
    split
    · rename_i hnil
      rw [hnil]
      rfl
    · exact List.append_nil _
  rw [ofTokens_eq, List.flatMap_append, hnamed]
  clear hnamed
  induction tokens with
  | nil => exact .refl _
  | cons token tokens ih =>
      cases token with
      | positional value => exact ih.cons _
      | named name value => exact List.perm_middle.trans (ih.cons _)

end Argument

/-! ## Lexemes -/

/-- The names and the arguments in a tag are spelled as such. Free text may be anything. -/
def Directive.Proper : Directive → Prop
  | interpolation _ callee args =>
      IsName callee ∧ args.length ≤ 30 ∧ ∀ token ∈ args, token.Spelled []
  | openBlock _ name | closeBlock name | partialRef name => IsName name
  | comment _ | setDelimiters _ _ => True

/-- Text is not empty, and a tag has proper content, blanks before it and markers that pass the
check. -/
def Lexeme.Proper : Lexeme → Prop
  | text t => t ≠ []
  | tag t => t.directive.Proper ∧ (∀ c ∈ t.indent, isIndent c = true) ∧ t.delimiters.Valid

theorem TagHead.isName_of_reader {closer t : Text} {head : Reading TagHead}
    (h : reader closer t = .ok head) (hname : takesFreeText head.value.sigil = false) :
    IsName head.value.content := by
  obtain ⟨_, _, _, hne, _, _, _, hcontent⟩ := reader_eq_ok h
  rw [contentReader_name closer hname] at hcontent
  exact ⟨hne, (Reader.takeWhile_eq_ok hcontent).2.1⟩

namespace Directive

theorem proper_of_interpolationReader {form : InterpolationForm} {closer callee t : Text}
    {x : Reading Directive} (hcallee : IsName callee)
    (h : interpolationReader form closer callee t = .ok x) : x.value.Proper := by
  rw [interpolationReader_eq] at h
  obtain ⟨args, a, hargs, ha, rfl⟩ := Reader.bind_eq_ok_iff.mp h
  cases ha
  obtain ⟨hlt, hall⟩ := ArgumentToken.spelled_of_listReader hargs
  exact ⟨hcallee, Nat.lt_succ_iff.mp hlt, hall⟩

variable [MarkerLimits]

theorem proper_of_reader {closer t : Text} {head : TagHead} {x : Reading Directive}
    (hhead : TagHead.takesFreeText head.sigil = false → IsName head.content)
    (h : reader closer head t = .ok x) : x.value.Proper := by
  obtain ⟨sigil, content⟩ := head
  cases sigil with
  | none => exact proper_of_interpolationReader (hhead rfl) h
  | some sigil =>
      cases sigil with
      | brace | ampersand => exact proper_of_interpolationReader (hhead rfl) h
      | hash | caret | slash | less | greater =>
          rw [value_of_endReader h]
          exact hhead rfl
      | bang =>
          rw [value_of_endReader h]
          trivial
      | equals =>
          cases hp : pair? content with
          | none => simp [reader, hp, Reader.fail] at h
          | some pair =>
              rw [reader, hp] at h
              rw [value_of_endReader h]
              trivial

end Directive

section

variable [MarkerLimits]

theorem proper_of_next {d : Delimiters} {lineStart : Bool} {t rest : Text} {lexeme : Lexeme}
    (hd : d.Valid) (ht : t ≠ []) (h : next d lineStart t = .lexeme lexeme rest) :
    lexeme.Proper := by
  cases lexeme with
  | text text => exact (next_append ht h).2
  | tag tag =>
      have hplaced := placed_of_next hd h
      obtain ⟨indent, u, -, hread⟩ := next_eq_tag_iff.mp h
      obtain ⟨head, directive, hhead, hdirective, htag, -⟩ := readTag_eq_lexeme_iff.mp hread
      refine ⟨?_, hplaced.indent, ?_⟩
      · cases htag
        exact Directive.proper_of_reader (TagHead.isName_of_reader hhead) hdirective
      · rw [hplaced.delimiters_eq]
        exact hd

theorem Lexes.proper {d : Delimiters} {lineStart : Bool} {t : Text} {lexemes : List Lexeme}
    (hd : d.Valid ∧ d.withinLimit = true) (h : Lexes d lineStart t lexemes) :
    ∀ x ∈ lexemes, x.Proper := by
  induction h with
  | nil => nofun
  | cons ht hnext _ ih =>
      intro x hmem
      rcases List.mem_cons.mp hmem with rfl | hmem
      · exact proper_of_next hd.1 ht hnext
      · exact ih (valid_delimitersAfter hd hnext) x hmem

end

/-! ## From lexemes to trees -/

theorem proper_of_mem_staticNodes {t : Text} {node : Node} (h : node ∈ staticNodes t) :
    node.Proper := by
  unfold staticNodes at h
  split at h
  · cases h
  · rename_i hne
    rw [List.mem_singleton.mp h, Node.Proper]
    intro heq
    exact hne (String.ofList_eq_empty_iff.mp heq)

theorem Path.isNamed_ofText {name : Text} (h : IsName name) : (Path.ofText name).IsNamed := by
  refine ⟨?_, ?_⟩
  · rwa [Path.dotted_ofText, String.toList_ofList]
  · rw [Path.dotted_ofText, Path.ofString, String.toList_ofList]

theorem proper_of_mem_leaves {lexeme : Lexeme} (hlexeme : lexeme.Proper) {node : Node}
    (h : node ∈ lexeme.leaves) : node.Proper := by
  cases lexeme with
  | text t => exact proper_of_mem_staticNodes h
  | tag tag =>
      obtain ⟨hdirective, hindent, -⟩ := hlexeme
      rcases List.mem_append.mp h with h | h
      · exact proper_of_mem_staticNodes h
      · unfold Tag.leaves at h
        split at h
        · rename_i form callee args heq
          rw [heq] at hdirective
          obtain ⟨hcallee, hlength, hall⟩ := hdirective
          have hperm := Argument.perm_flatMap_tokens_ofTokens args
          rw [List.mem_singleton.mp h]
          refine ⟨Path.isNamed_ofText hcallee, Argument.inOrder_ofTokens args, ?_, ?_⟩
          · rwa [hperm.length_eq]
          · intro token hmem
            exact hall token (hperm.mem_iff.mp hmem)
        · rename_i name heq
          rw [heq] at hdirective
          rw [List.mem_singleton.mp h, Node.Proper, String.toList_ofList, String.toList_ofList]
          refine ⟨hdirective, ?_⟩
          unfold Tag.padding
          split
          · exact hindent
          · nofun
        · cases h

theorem Forms.proper {lexemes : List Lexeme} {nodes : List Node} (h : Forms lexemes nodes)
    (hlexemes : ∀ x ∈ lexemes, x.Proper) : ∀ node ∈ Node.walkAll nodes, node.Proper := by
  have hleaves : ∀ x : Lexeme, x.Proper → ∀ nodes, (∀ node ∈ Node.walkAll nodes, node.Proper) →
      ∀ node ∈ Node.walkAll (x.leaves ++ nodes), node.Proper := by
    intro x hx nodes hnodes node hmem
    rw [Node.walkAll_append, walkAll_leaves] at hmem
    rcases List.mem_append.mp hmem with hmem | hmem
    · exact proper_of_mem_leaves hx hmem
    · exact hnodes node hmem
  induction h with
  | nil => nofun
  | text _ ih =>
      obtain ⟨hfirst, hrest⟩ := List.forall_mem_cons.mp hlexemes
      exact hleaves _ hfirst _ (ih hrest)
  | leaf _ _ ih =>
      obtain ⟨hfirst, hrest⟩ := List.forall_mem_cons.mp hlexemes
      exact hleaves _ hfirst _ (ih hrest)
  | @block opening closing inverted name body lexemes inner nodes hopen hclose _ _ ihbody ih =>
      obtain ⟨hopening, hrest⟩ := List.forall_mem_cons.mp hlexemes
      obtain ⟨hbody, hrest⟩ := List.forall_mem_append.mp hrest
      obtain ⟨hclosing, hrest⟩ := List.forall_mem_cons.mp hrest
      have hname : IsName name := by
        have hdirective := hopening.1
        rwa [hopen] at hdirective
      intro node hmem
      rw [walkAll_block hopen hclose] at hmem
      simp only [List.mem_append, List.mem_cons] at hmem
      rcases hmem with hmem | rfl | (hmem | hmem) | hmem
      · exact proper_of_mem_leaves hopening hmem
      · exact ⟨Path.isNamed_ofText hname, hclosing.2.2⟩
      · exact ihbody hbody node hmem
      · exact proper_of_mem_leaves hclosing hmem
      · exact ih hrest node hmem

/-- Every compiled tree is well formed, whatever the template is. -/
theorem wellFormed_of_compile [MarkerLimits] {d : Delimiters} {template : String} {root : Node}
    (hd : d.Valid) (h : compile d template = .ok root) : root.WellFormed := by
  obtain ⟨hlimit, hread, nodes, rfl, hforms⟩ := compile_eq_ok_iff.mp h
  have hlexes : Lexes d true template.toList (Lexemes.read d template.toList).lexemes :=
    Lexes.of_readFrom hread
  exact ⟨nodes, rfl, hforms.proper (hlexes.proper ⟨hd, hlimit⟩)⟩

/-- A number and a path that looks like one, by position and by name, in a section. -/
theorem wellFormed_of_compile_numbers :
    ∃ template root,
      template = "\x7b\x7b#s\x7d\x7d\x7b\x7bf 1.2 k=h1 1st\x7d\x7d\x7b\x7b/s\x7d\x7d" ∧
      root = .multi [.block false ⟨["s"]⟩
        [.interpolation .escaped ⟨["f"]⟩ [.positional (.number "1.2"),
          .positional (.path ⟨["1st"]⟩), .named ⟨[("k", .number "h1")]⟩]]
        "\x7b\x7bf 1.2 k=h1 1st\x7d\x7d" .standard] ∧
      compile .standard template = .ok root ∧ root.WellFormed := by
  have h : compile .standard "\x7b\x7b#s\x7d\x7d\x7b\x7bf 1.2 k=h1 1st\x7d\x7d\x7b\x7b/s\x7d\x7d" =
      .ok (.multi [.block false ⟨["s"]⟩
        [.interpolation .escaped ⟨["f"]⟩ [.positional (.number "1.2"),
          .positional (.path ⟨["1st"]⟩), .named ⟨[("k", .number "h1")]⟩]]
        "\x7b\x7bf 1.2 k=h1 1st\x7d\x7d" .standard]) := by
    rw [compile_eq_evaluate]
    decide +kernel
  exact ⟨_, _, rfl, rfl, h, wellFormed_of_compile Delimiters.standard_valid h⟩

end TagTemplate

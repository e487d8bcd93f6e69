import TagTemplate.Proofs.Assembly.Grammar
import TagTemplate.Proofs.Assembly.Shift
import TagTemplate.Proofs.Evaluation
import TagTemplate.Proofs.Lexeme.Concatenation
import TagTemplate.Proofs.Occurrence.Spans
import TagTemplate.Proofs.SyntaxError

/-!
# Templates one after the other

A template of whole lines that compiles can be compiled apart from what follows it: the rest is
compiled with the pair that it leaves in force. The trees are put side by side, up to a run of text
across the seam, and an error in the rest is found as many lines further down.
-/

namespace TagTemplate

open Text

/-! ## Literal text across the seam -/

namespace Node

def consMerged : Node → List Node → List Node
  | static s, static t :: nodes => static (s ++ t) :: nodes
  | node, nodes => node :: nodes

/-- The nodes with literal text that stands side by side made into one node. -/
def mergeStatics (nodes : List Node) : List Node := nodes.foldr consMerged []

theorem mergeStatics_append (nodes nodes' : List Node) :
    mergeStatics (nodes ++ nodes') = nodes.foldr consMerged (mergeStatics nodes') :=
  List.foldr_append

theorem consMerged_static (s t : String) (nodes : List Node) :
    consMerged (static s) (consMerged (static t) nodes) = consMerged (static (s ++ t)) nodes := by
  cases nodes with
  | nil => rfl
  | cons node nodes =>
      cases node with
      | static u => simp [consMerged, String.append_assoc]
      | multi | interpolation | block | partialRef => rfl

theorem mergeStatics_congr {nodes nodes' : List Node} (before : List Node)
    (h : mergeStatics nodes = mergeStatics nodes') :
    mergeStatics (before ++ nodes) = mergeStatics (before ++ nodes') := by
  rw [mergeStatics_append, mergeStatics_append, h]

theorem mergeStatics_staticNodes (s t : Text) (nodes : List Node) :
    mergeStatics (staticNodes (s ++ t) ++ nodes) =
      mergeStatics (staticNodes s ++ (staticNodes t ++ nodes)) := by
  by_cases hs : s = []
  · subst hs
    rfl
  · by_cases ht : t = []
    · subst ht
      rw [List.append_nil]
      rfl
    · have hst : s ++ t ≠ [] := by simp [hs]
      rw [staticNodes, staticNodes, staticNodes, if_neg hs, if_neg ht, if_neg hst,
        String.ofList_append]
      exact (consMerged_static _ _ _).symm

end Node

theorem Lexeme.join_append_tag (lexemes : List Lexeme) (tag : Tag) (lexemes' more : List Lexeme) :
    join (lexemes ++ .tag tag :: lexemes') more = lexemes ++ .tag tag :: join lexemes' more := by
  induction lexemes with
  | nil => exact join_tag tag lexemes' more
  | cons lexeme lexemes ih =>
      rw [List.cons_append, join_cons _ (by simp), ih]
      rfl

/-- Well nested lexemes one after the other make the nodes of both, up to the text between
them. -/
theorem Forms.exists_join {lexemes more : List Lexeme} {nodes nodes' : List Node}
    (h : Forms lexemes nodes) (hmore : Forms more nodes') :
    ∃ whole, Forms (Lexeme.join lexemes more) whole ∧
      Node.mergeStatics whole = Node.mergeStatics (nodes ++ nodes') := by
  induction h with
  | nil => exact ⟨nodes', by simpa [Lexeme.join] using hmore, rfl⟩
  | @text t lexemes nodes hrest ih =>
      by_cases hnil : lexemes = []
      · subst hnil
        cases hrest
        rw [List.append_nil]
        by_cases hhead : ∃ u, more.head? = some (.text u)
        · obtain ⟨u, hu⟩ := hhead
          cases hmore with
          | nil => cases hu
          | leaf => cases hu
          | block => cases hu
          | @text u' more nodes' hmore =>
              refine ⟨_, .text hmore, ?_⟩
              rw [Node.mergeStatics_staticNodes]
        · have hjoin := Lexeme.join_text (t := t) fun u hu => hhead ⟨u, hu⟩
          rw [hjoin]
          exact ⟨_, .text hmore, rfl⟩
      · obtain ⟨whole, hwhole, hmerge⟩ := ih
        rw [Lexeme.join_cons _ hnil]
        refine ⟨_, .text hwhole, ?_⟩
        rw [List.append_assoc]
        exact Node.mergeStatics_congr _ hmerge
  | leaf hleaf _ ih =>
      obtain ⟨whole, hwhole, hmerge⟩ := ih
      rw [Lexeme.join_tag]
      refine ⟨_, .leaf hleaf hwhole, ?_⟩
      rw [List.append_assoc (staticNodes _ ++ _)]
      exact Node.mergeStatics_congr _ hmerge
  | @block opening closing inverted name body lexemes inner nodes hopen hclose hbody _ _ ih =>
      obtain ⟨whole, hwhole, hmerge⟩ := ih
      rw [Lexeme.join_append_tag]
      refine ⟨_, .block hopen hclose hbody hwhole, ?_⟩
      rw [List.append_assoc]
      apply Node.mergeStatics_congr
      exact Node.mergeStatics_congr [_] hmerge

/-! ## Errors behind the seam -/

namespace Assembly

/-- What is added behind the seam goes on alike, whether or not a run of text crosses it. -/
theorem agree_foldlM_join {k : Nat} {a b c : Assembly} {lexemes : List Lexeme}
    (h : lexemes.foldlM add a = .ok c) (hc : Shifted k c b) (more : List Lexeme) :
    Agree k (Shifted k) ((Lexeme.join lexemes more).foldlM add a) (more.foldlM add b) := by
  induction lexemes generalizing a with
  | nil =>
      cases h
      simpa [Lexeme.join] using hc.foldlM_add more
  | cons lexeme lexemes ih =>
      obtain ⟨a', ha', h⟩ := exists_add_of_foldlM_cons h
      by_cases hnil : lexemes = []
      · subst hnil
        cases h
        have hapart : Agree k (Shifted k) ((lexeme :: more).foldlM add a) (more.foldlM add b) := by
          rw [foldlM_add_cons _ ha']
          exact hc.foldlM_add more
        cases lexeme with
        | tag tag => simpa [Lexeme.join] using hapart
        | text t =>
            cases ha'
            by_cases hhead : ∃ u rest, more = .text u :: rest
            · obtain ⟨u, rest, rfl⟩ := hhead
              have hcross : Shifted k (a.addText (t ++ u)) (b.addText u) := by
                have hoffset := hc.offset_eq
                refine ⟨?_, hc.openBlocks_eq⟩
                simp only [addText, size_append] at hoffset ⊢
                omega
              exact hcross.foldlM_add rest
            · have hfirst : ∀ u, more.head? ≠ some (.text u) := by
                intro u hu
                obtain ⟨rest, hrest⟩ := List.head?_eq_some_iff.mp hu
                exact hhead ⟨u, rest, hrest⟩
              rw [Lexeme.join_text hfirst]
              exact hapart
      · rw [Lexeme.join_cons _ hnil, foldlM_add_cons _ ha']
        exact ih h

end Assembly

namespace SyntaxError

theorem locate_append {before : String} (h : before.toList = [] ∨ endsLine before.toList = true)
    (after : String) (offset : Nat) (message : String) :
    locate (before ++ after) (offset + size before.toList) message =
      { locate after offset message with
        line := (locate after offset message).line + before.toList.count '\n' } := by
  have hparts : (splitAtSize? (offset + size before.toList) (before ++ after).toList).getD
      ((before ++ after).toList, []) =
        (before.toList ++ ((splitAtSize? offset after.toList).getD (after.toList, [])).1,
          ((splitAtSize? offset after.toList).getD (after.toList, [])).2) := by
    rw [String.toList_append, splitAtSize?_append]
    cases splitAtSize? offset after.toList with
    | none => rfl
    | some parts => rfl
  rw [locate_eq, locate_eq, hparts]
  dsimp only
  rw [lastLine_append_left h, List.count_append]
  congr 1
  omega

end SyntaxError

/-! ## Compiling across the seam -/

section

variable [MarkerLimits]

theorem read_append {d : Delimiters} {before : String} (hd : d.Valid ∧ d.withinLimit = true)
    (hline : before.toList = [] ∨ endsLine before.toList = true)
    (hclose : ∀ pair ∈ Occurrence.pairs d (Occurrence.list d before),
      pair.closer.toList.head? ≠ some '=')
    (hread : (Lexemes.read d before.toList).broken? = none) (after : String) :
    Lexemes.read d (before ++ after).toList =
      ⟨Lexeme.join (Lexemes.read d before.toList).lexemes
          (Lexemes.read (Occurrence.pairAtEnd d (Occurrence.list d before)) after.toList).lexemes,
        (Lexemes.read (Occurrence.pairAtEnd d (Occurrence.list d before)) after.toList).broken?⟩ := by
  have hlexes : Lexes d true before.toList (Lexemes.read d before.toList).lexemes :=
    Lexes.of_readFrom hread
  have hpair : Occurrence.pairAtEnd d (Occurrence.list d before) =
      pairAfter d (Lexemes.read d before.toList).lexemes := Occurrence.pairAtEnd_listFrom d 0 _
  have hcloser : ∀ left right, (Lexemes.read d before.toList).lexemes = left ++ right →
      (pairAfter d left).closer.toList.head? ≠ some '=' := by
    intro left right hsplit
    apply hclose
    rw [Occurrence.list, hsplit]
    exact Occurrence.pairAfter_mem_pairs d left right
  rw [hpair, String.toList_append]
  exact hlexes.readFrom_append hd hcloser (hline.imp_left fun h => ⟨h, rfl⟩) after.toList

theorem withinLimit_pairAtEnd {d : Delimiters} {template : String}
    (hd : d.Valid ∧ d.withinLimit = true)
    (h : Lexes d true template.toList (Lexemes.read d template.toList).lexemes) :
    (Occurrence.pairAtEnd d (Occurrence.list d template)).withinLimit = true := by
  rw [← List.append_nil (Lexemes.read d template.toList).lexemes] at h
  rw [Occurrence.list, Occurrence.pairAtEnd_listFrom]
  exact (h.valid_pairAfter_left hd).2

/-- Where the assemblies of a template and of what follows its first lines agree, so do the errors,
counted from further up. -/
theorem compile_append_of_agree {d pair : Delimiters} {before after : String} {error : SyntaxError}
    (hline : before.toList = [] ∨ endsLine before.toList = true) (hd : d.withinLimit = true)
    (hpair : pair.withinLimit = true)
    (hassembled : Agree (size before.toList) (Assembly.Shifted (size before.toList))
      (Assembly.ofLexemes { log := [.started (before ++ after).utf8ByteSize] }
        (Lexemes.read d (before ++ after).toList))
      (Assembly.ofLexemes { log := [.started after.utf8ByteSize] }
        (Lexemes.read pair after.toList)))
    (herror : compile pair after = .error error) :
    compile d (before ++ after) =
      .error { error with line := error.line + before.toList.count '\n' } := by
  have hanswer := hassembled.bind fun a b hab => hab.finish
  rw [compile_of_withinLimit hpair] at herror
  rw [compile_of_withinLimit hd]
  rcases hanswer.eq_or_eq with ⟨whole, second, -, hsecond⟩ | ⟨f, g, hf, hg, hfault, hoffset⟩
  · rw [hsecond] at herror
    cases herror
  · rw [hg] at herror
    cases herror
    rw [hf, answerOf, hfault, hoffset, SyntaxError.locate_append hline]

section Seam

variable {d : Delimiters} {before : String} {first : Node}

theorem compile_append_ok (hd : d.Valid)
    (hline : before.toList = [] ∨ endsLine before.toList = true)
    (h : compile d before = .ok first)
    (hclose : ∀ pair ∈ Occurrence.pairs d (Occurrence.list d before),
      pair.closer.toList.head? ≠ some '=') {after : String} {second : Node}
    (hsecond : compile (Occurrence.pairAtEnd d (Occurrence.list d before)) after = .ok second) :
    ∃ whole, compile d (before ++ after) = .ok whole ∧
      Node.mergeStatics whole.children =
        Node.mergeStatics (first.children ++ second.children) := by
  obtain ⟨hlimit, hread, nodes, rfl, hforms⟩ := compile_eq_ok_iff.mp h
  obtain ⟨-, hread', nodes', rfl, hforms'⟩ := compile_eq_ok_iff.mp hsecond
  obtain ⟨whole, hwhole, hmerge⟩ := hforms.exists_join hforms'
  have hjoin := read_append ⟨hd, hlimit⟩ hline hclose hread after
  refine ⟨.multi whole, compile_eq_ok_iff.mpr ⟨hlimit, ?_, whole, rfl, ?_⟩, hmerge⟩
  · rw [hjoin]
    exact hread'
  · rw [hjoin]
    exact hwhole

theorem compile_append_error (hd : d.Valid)
    (hline : before.toList = [] ∨ endsLine before.toList = true)
    (h : compile d before = .ok first)
    (hclose : ∀ pair ∈ Occurrence.pairs d (Occurrence.list d before),
      pair.closer.toList.head? ≠ some '=') {after : String} {error : SyntaxError}
    (herror : compile (Occurrence.pairAtEnd d (Occurrence.list d before)) after = .error error) :
    compile d (before ++ after) =
      .error { error with line := error.line + before.toList.count '\n' } := by
  obtain ⟨hlimit, hread, nodes, rfl, hforms⟩ := compile_eq_ok_iff.mp h
  have hlexes : Lexes d true before.toList (Lexemes.read d before.toList).lexemes :=
    Lexes.of_readFrom hread
  have hjoin := read_append ⟨hd, hlimit⟩ hline hclose hread after
  have hpair := withinLimit_pairAtEnd ⟨hd, hlimit⟩ hlexes
  have hstart : Assembly.Shifted (size before.toList)
      (Assembly.extend { log := [.started (before ++ after).utf8ByteSize] }
        (Lexemes.read d before.toList).lexemes nodes) { log := [.started after.utf8ByteSize] } := by
    refine ⟨?_, rfl⟩
    rw [Assembly.extend, hlexes.sourceOf_eq]
  have hfold := Assembly.foldlM_add_of_forms hforms
    { log := [.started (before ++ after).utf8ByteSize] } []
  rw [List.append_nil] at hfold
  have hfolds := Assembly.agree_foldlM_join hfold hstart
    (Lexemes.read (Occurrence.pairAtEnd d (Occurrence.list d before)) after.toList).lexemes
  refine compile_append_of_agree hline hlimit hpair ?_ herror
  apply Assembly.Agree.ofLexemes
  · rw [hjoin]
    exact hfolds
  · rw [hjoin]

end Seam

/-- A template of whole lines that compiles can be put in front of any other one. The second one
compiles behind it if and only if it compiles with the pair that the first one leaves in force.
Then the nodes are those of both, up to literal text across the seam; and else the error is the
same, as many lines further down as the first template has. -/
theorem compile_append {d : Delimiters} {before : String} {first : Node} (hd : d.Valid)
    (hline : before.toList = [] ∨ before.toList.getLast? = some '\n')
    (h : compile d before = .ok first)
    (hclose : ∀ pair ∈ Occurrence.pairs d (Occurrence.list d before),
      pair.closer.toList.head? ≠ some '=') (after : String) :
    ((∃ whole, compile d (before ++ after) = .ok whole) ↔
        ∃ second, compile (Occurrence.pairAtEnd d (Occurrence.list d before)) after = .ok second) ∧
      (∀ whole second, compile d (before ++ after) = .ok whole →
        compile (Occurrence.pairAtEnd d (Occurrence.list d before)) after = .ok second →
        Node.mergeStatics whole.children = Node.mergeStatics (first.children ++ second.children)) ∧
      ∀ error, compile (Occurrence.pairAtEnd d (Occurrence.list d before)) after = .error error →
        compile d (before ++ after) =
          .error { error with line := error.line + before.toList.count '\n' } := by
  have hlines : before.toList = [] ∨ endsLine before.toList = true :=
    hline.imp_right endsLine_iff.mpr
  cases hsecond : compile (Occurrence.pairAtEnd d (Occurrence.list d before)) after with
  | error error =>
      have herror := compile_append_error hd hlines h hclose hsecond
      refine ⟨?_, ?_, ?_⟩
      · rw [herror]
        constructor
        · intro h
          rcases h with ⟨whole, hwhole⟩
          cases hwhole
        · intro h
          rcases h with ⟨second, hok⟩
          cases hok
      · intro whole second _ hok
        cases hok
      · intro error' hsame
        cases hsame
        exact herror
  | ok second =>
      obtain ⟨whole, hwhole, hmerge⟩ := compile_append_ok hd hlines h hclose hsecond
      refine ⟨?_, ?_, ?_⟩
      · rw [hwhole]
        exact ⟨fun _ => ⟨second, rfl⟩, fun _ => ⟨whole, rfl⟩⟩
      · intro whole' second' hwhole' hsame
        rw [hwhole] at hwhole'
        cases hwhole'
        cases hsame
        exact hmerge
      · intro error hsame
        cases hsame

end

/-- Behind a line that changes the pair, the rest is compiled with the new one. -/
theorem compile_append_change :
    ∃ before first, before = "a\n\x7b\x7b=<% %>=\x7d\x7d\n" ∧
      compile .standard before = .ok first ∧
      (∀ pair ∈ Occurrence.pairs .standard (Occurrence.list .standard before),
        pair.closer.toList.head? ≠ some '=') ∧
      ∀ after, ((∃ whole, compile .standard (before ++ after) = .ok whole) ↔
          ∃ second, compile ⟨"<%", "%>"⟩ after = .ok second) ∧
        ∀ error, compile ⟨"<%", "%>"⟩ after = .error error →
          compile .standard (before ++ after) = .error { error with line := error.line + 2 } := by
  have h : compile .standard "a\n\x7b\x7b=<% %>=\x7d\x7d\n" = .ok (.multi [.static "a\n"]) := by
    rw [compile_eq_evaluate]
    rfl
  have hpairs : Occurrence.pairs .standard
      (Occurrence.list .standard "a\n\x7b\x7b=<% %>=\x7d\x7d\n") = [.standard, ⟨"<%", "%>"⟩] := by
    rw [Occurrence.list_eq_listFrom_readWithin]
    rfl
  have hend : Occurrence.pairAtEnd .standard
      (Occurrence.list .standard "a\n\x7b\x7b=<% %>=\x7d\x7d\n") = ⟨"<%", "%>"⟩ := by
    rw [Occurrence.list_eq_listFrom_readWithin]
    rfl
  have hclose : ∀ pair ∈ Occurrence.pairs .standard
      (Occurrence.list .standard "a\n\x7b\x7b=<% %>=\x7d\x7d\n"),
      pair.closer.toList.head? ≠ some '=' := by
    rw [hpairs]
    decide
  refine ⟨_, _, rfl, h, hclose, ?_⟩
  intro after
  have hall := compile_append Delimiters.standard_valid (.inr (by decide)) h hclose after
  rw [hend] at hall
  exact ⟨hall.1, hall.2.2⟩

end TagTemplate

import TagTemplate.Proofs.Argument.Reader
import TagTemplate.Proofs.Lexeme.Boundary
import TagTemplate.Proofs.Text.Place
import TagTemplate.Tag.Reader

/-!
# What a tag depends on

A tag that is read to its end is read the same whatever follows its closing marker. If the marker
begins with an equals sign, this holds for what is left of the text that followed it. The free text
of a comment or of a change of delimiters is the delicate case: the search for its end may look
past the end that it finds, but never past the closing marker that the tag then takes.
-/

namespace TagTemplate

open Text Reader

theorem Sigil.isSpace_toChar (sigil : Sigil) : isSpace sigil.toChar = false := by
  cases sigil <;> decide

/-! ## Free text -/

namespace TagHead

/-- What stands at the end of a tag without arguments: white space, perhaps the sigil once more,
and the closing marker. -/
def IsEnd (sigil : Char) (closer piece : Text) : Prop :=
  ∃ gap balance, piece = gap ++ (balance ++ closer) ∧ (∀ c ∈ gap, isSpace c = true) ∧
    (balance = [sigil] ∨ balance = [] ∧ closer.head? ≠ some sigil)

theorem closesHere_iff {sigil : Char} {closer t : Text} :
    closesHere sigil closer t = true ↔ closer <+: t ∨ sigil :: closer <+: t := by
  unfold closesHere
  rw [Bool.or_eq_true, List.isPrefixOf_iff_prefix]
  cases t with
  | nil => simp
  | cons c t =>
      simp only [Bool.and_eq_true, beq_iff_eq, List.isPrefixOf_iff_prefix, List.cons_prefix_cons]
      rw [@eq_comm Char c sigil]

theorem closesHere_append_right {sigil : Char} {closer t : Text}
    (h : closer.length + 1 ≤ t.length) (s : Text) :
    closesHere sigil closer (t ++ s) = closesHere sigil closer t := by
  unfold closesHere
  rw [isPrefixOf_append_right (by omega)]
  cases t with
  | nil => simp at h
  | cons c t =>
      simp only [List.length_cons] at h
      simp only [List.cons_append, isPrefixOf_append_right (show closer.length ≤ t.length by omega)]

theorem stopsRun_of_closesHere {sigil : Char} {closer t : Text}
    (hc : Delimiters.isMarker closer = true) (hs : isSpace sigil = false)
    (h : closesHere sigil closer t = true) : StopsRun isSpace t := by
  rcases closesHere_iff.mp h with ⟨rest, rfl⟩ | ⟨rest, rfl⟩
  · exact Delimiters.stopsRun_of_isMarker hc rest
  · exact stopsRun_cons hs

theorem cutFree?_eq_some_iff {sigil : Char} {closer t content rest : Text} :
    cutFree? sigil closer t = some (content, rest) ↔ ∃ gap after, t = content ++ gap ++ after ∧
      rest = gap ++ after ∧ (∀ c ∈ gap, isSpace c = true) ∧ StopsRun isSpace content.reverse ∧
      closesHere sigil closer after = true ∧
      ∀ s u, content ++ gap = s ++ u → u ≠ [] → closesHere sigil closer (u ++ after) = false := by
  unfold cutFree?
  rw [Option.map_eq_some_iff]
  constructor
  · intro h
    rcases h with ⟨⟨before, after⟩, hs, hp⟩
    obtain ⟨rfl, hcloses, hfirst⟩ := splitAtFirst?_eq_some_iff.mp hs
    simp only [Prod.mk.injEq] at hp
    obtain ⟨hcontent, hrest⟩ := hp
    obtain ⟨hbefore, hgap, hstop⟩ := splitEndWhile_eq_iff.mp
      (Prod.ext hcontent rfl : splitEndWhile isSpace before = (content, _))
    refine ⟨_, after, by rw [← hbefore], hrest.symm, hgap, hstop, hcloses, ?_⟩
    intro s u hsu hu
    rw [← hbefore] at hsu
    exact hfirst s u hsu hu
  · intro h
    rcases h with ⟨gap, after, rfl, rfl, hgap, hstop, hcloses, hfirst⟩
    refine ⟨(content ++ gap, after), splitAtFirst?_eq_some_iff.mpr ⟨rfl, hcloses, hfirst⟩, ?_⟩
    simp only [splitEndWhile_eq_iff.mpr ⟨rfl, hgap, hstop⟩]

/-- Free text in front of the end of a tag is cut off the same whatever follows that end. -/
theorem cutFree?_append_right {sigil : Char} {closer t content ending s : Text}
    (hc : Delimiters.isMarker closer = true) (hs : isSpace sigil = false)
    (hend : IsEnd sigil closer ending)
    (h : cutFree? sigil closer t = some (content, ending ++ s)) (s' : Text) :
    cutFree? sigil closer (content ++ (ending ++ s')) = some (content, ending ++ s') := by
  obtain ⟨gap, after, -, hrest, hgap, hstop, hcloses, hfirst⟩ := cutFree?_eq_some_iff.mp h
  obtain ⟨gap', balance, rfl, hgap', hbalance⟩ := hend
  have hclosesAt : ∀ v, closesHere sigil closer (balance ++ closer ++ v) = true := by
    intro v
    apply closesHere_iff.mpr
    rcases hbalance with rfl | ⟨rfl, -⟩
    · exact .inr ⟨v, rfl⟩
    · exact .inl ⟨v, rfl⟩
  -- The gap is all of the white space in front, so the two places found are one.
  have hsame : gap' ++ (balance ++ closer ++ s) = gap ++ after := by
    rw [← hrest]
    simp
  have hstopAfter := stopsRun_of_closesHere hc hs hcloses
  have hstopEnd := stopsRun_of_closesHere hc hs (hclosesAt s)
  have hgaps : gap' = gap := by
    have h₁ := takeWhile_append_stop hgap' hstopEnd
    have h₂ := takeWhile_append_stop hgap hstopAfter
    rw [← h₁, hsame, h₂]
  subst hgaps
  have hafter : balance ++ closer ++ s = after := List.append_cancel_left hsame
  subst hafter
  apply cutFree?_eq_some_iff.mpr
  refine ⟨gap', balance ++ closer ++ s', by simp, by simp, hgap, hstop, hclosesAt s', ?_⟩
  intro v u hvu hu
  have hlong : closer.length + 1 ≤ (u ++ (balance ++ closer)).length := by
    have := List.length_pos_iff.mpr hu
    simp only [List.length_append]
    omega
  have hno := hfirst v u hvu hu
  rw [← List.append_assoc, closesHere_append_right hlong] at hno
  rw [← List.append_assoc, closesHere_append_right hlong]
  exact hno

/-! ## Heads -/

def takesFreeText : Option Sigil → Bool
  | some .bang | some .equals => true
  | _ => false

theorem contentReader_name {sigil : Option Sigil} (closer : Text)
    (h : takesFreeText sigil = false) :
    contentReader closer sigil = Reader.takeWhile isContent := by
  unfold contentReader
  split
  · cases h
  · cases h
  · rfl

theorem contentReader_free {sigil : Sigil} (closer : Text)
    (h : takesFreeText (some sigil) = true) :
    contentReader closer (some sigil) =
      Reader.cutting (cutFree? sigil.toChar closer) .unclosedTag := by
  cases sigil <;> first | rfl | cases h

/-- What a sigil, or the lack of one, looks like in front of the rest of a tag. -/
def IsMark (sigil : Option Sigil) (mark rest : Text) : Prop :=
  match sigil with
  | some s => mark = [s.toChar]
  | none => mark = [] ∧ ∀ c ∈ rest.head?, Sigil.ofChar? c = none

theorem IsMark.append {sigil : Option Sigil} {mark t s : Text} (h : IsMark sigil mark (t ++ s))
    (ht : t ≠ []) (s' : Text) : IsMark sigil mark (t ++ s') := by
  cases sigil with
  | some sigil => exact h
  | none =>
      obtain ⟨c, u, rfl⟩ := List.exists_cons_of_ne_nil ht
      exact h

theorem reads_sigilReader {sigil : Option Sigil} {mark : Text} {P : Text → Prop}
    (h : ∀ rest, P rest → IsMark sigil mark rest) : Reads sigilReader sigil mark P := by
  intro rest hrest
  have hmark := h rest hrest
  cases sigil with
  | some s =>
      cases hmark
      simp [sigilReader, Sigil.ofChar?_toChar]
  | none =>
      obtain ⟨rfl, hhead⟩ := hmark
      cases rest with
      | nil => rfl
      | cons c rest => simp [sigilReader, hhead c rfl]

theorem sigilReader_eq_ok {t : Text} {x : Reading (Option Sigil)} (h : sigilReader t = .ok x) :
    IsMark x.value x.read x.rest := by
  unfold sigilReader at h
  split at h
  · cases h
    exact ⟨rfl, by simp⟩
  · rename_i c t
    cases hs : Sigil.ofChar? c with
    | some s =>
        simp only [hs] at h
        cases h
        show [c] = [s.toChar]
        rw [Sigil.toChar_of_ofChar? hs]
    | none =>
        simp only [hs] at h
        cases h
        refine ⟨rfl, ?_⟩
        intro d h
        rcases h with ⟨rfl⟩
        exact hs

theorem reads_reader {sigil : Option Sigil} {closer mark gap content : Text} {P : Text → Prop}
    (hmark : ∀ rest, IsMark sigil mark (gap ++ content ++ rest))
    (hgap : ∀ c ∈ gap, isSpace c = true) (hne : content ≠ [])
    (hstop : StopsRun isSpace content)
    (hcontent : Reads (contentReader closer sigil) content content P) :
    Reads (reader closer) ⟨sigil, content⟩ (mark ++ (gap ++ content)) P := by
  have h : Reads (reader closer) ⟨sigil, content⟩ (mark ++ (gap ++ (content ++ []))) P := by
    refine (reads_sigilReader (P := fun rest => IsMark sigil mark rest) fun _ h => h).bind ?_ ?_
    · refine (reads_takeWhile hgap).bind ?_ ?_
      · refine hcontent.bind ?_ fun rest hrest => by simpa using hrest
        rw [if_neg hne]
        exact reads_pure _ P
      · intro rest _
        rw [← List.append_nil content] at hstop
        simpa using hstop.append hne rest
    · intro rest _
      simpa using hmark rest
  simpa using h

theorem reader_eq_ok {closer t : Text} {x : Reading TagHead} (h : reader closer t = .ok x) :
    ∃ mark gap, x.read = mark ++ (gap ++ x.value.content) ∧ x.value.content ≠ [] ∧
      (∀ c ∈ gap, isSpace c = true) ∧ StopsRun isSpace (x.value.content ++ x.rest) ∧
      IsMark x.value.sigil mark (gap ++ x.value.content ++ x.rest) ∧
      contentReader closer x.value.sigil (x.value.content ++ x.rest) =
        .ok ⟨x.value.content, x.value.content, x.rest⟩ := by
  obtain ⟨sigil, a, hsigil, ha, rfl⟩ := bind_eq_ok_iff.mp h
  obtain ⟨gap, b, hgap, hb, rfl⟩ := bind_eq_ok_iff.mp ha
  obtain ⟨content, e, hcontent, he, rfl⟩ := bind_eq_ok_iff.mp hb
  split at he
  · cases he
  · rename_i hne
    cases he
    have hval := contentReader_value hcontent
    have happSigil := sigilReader_faithful.append hsigil
    have happGap := (faithful_takeWhile isSpace).append hgap
    have happContent := (contentReader_faithful closer sigil.value).append hcontent
    obtain ⟨-, hspaces, hstop⟩ := takeWhile_eq_ok hgap
    have hmark := sigilReader_eq_ok hsigil
    rw [hval] at happContent
    refine ⟨sigil.read, gap.read, by simp [hval], hne, hspaces, ?_, ?_, ?_⟩
    · rwa [← happContent] at hstop
    · rw [← happGap, ← happContent] at hmark
      simpa using hmark
    · rw [← happContent] at hcontent
      rw [hcontent]
      cases content
      simp_all

/-- A head is read the same whatever follows the text that the rest of the tag takes. -/
theorem reads_reader_of_eq_ok {closer t ending s : Text} {x : Reading TagHead}
    (hc : Delimiters.isMarker closer = true) (h : reader closer t = .ok x)
    (hrest : x.rest = ending ++ s) (hne : ending ≠ [])
    (hend : ∀ sigil, x.value.sigil = some sigil → takesFreeText (some sigil) = true →
      IsEnd sigil.toChar closer ending) :
    Reads (reader closer) x.value x.read (fun rest => ∃ s', rest = ending ++ s') := by
  obtain ⟨mark, gap, hread, hcontent, hgap, hstop, hmark, hok⟩ := reader_eq_ok h
  rw [hread]
  refine reads_reader ?_ hgap hcontent ?_ ?_
  · intro rest
    exact hmark.append (by simp [hcontent]) rest
  · have := hstop.append hcontent []
    simpa using this
  · cases hfree : takesFreeText x.value.sigil with
    | false =>
        rw [contentReader_name closer hfree] at hok ⊢
        obtain ⟨-, hall, hstopContent⟩ := takeWhile_eq_ok hok
        refine (reads_takeWhile hall).mono ?_
        intro rest h
        rcases h with ⟨s', rfl⟩
        simp only [hrest] at hstopContent
        exact hstopContent.append hne s'
    | true =>
        obtain ⟨sigil, hsigil⟩ : ∃ sigil, x.value.sigil = some sigil := by
          cases hs : x.value.sigil with
          | none =>
              rw [hs] at hfree
              cases hfree
          | some sigil => exact ⟨sigil, rfl⟩
        rw [hsigil] at hfree hok ⊢
        rw [contentReader_free closer hfree] at hok ⊢
        have hcut := (cutting_eq_ok hok).2
        simp only [hrest] at hcut
        refine reads_cutting ?_
        intro rest h
        rcases h with ⟨s', rfl⟩
        exact cutFree?_append_right hc sigil.isSpace_toChar (hend sigil hsigil hfree) hcut s'

end TagHead

/-! ## Ends -/

def InterpolationForm.close (form : InterpolationForm) (closer : Text) : Text :=
  if form = .braced then '\x7d' :: closer else closer

namespace InterpolationForm

theorem close_ne_nil (form : InterpolationForm) {closer : Text} (h : closer ≠ []) :
    form.close closer ≠ [] := by
  unfold close
  split
  · simp
  · exact h

theorem head?_close (form : InterpolationForm) {closer : Text} (h : closer.head? ≠ some '=') :
    (form.close closer).head? ≠ some '=' := by
  unfold close
  split
  · simp
  · exact h

theorem suffix_close (form : InterpolationForm) (closer : Text) : closer <:+ form.close closer := by
  unfold close
  split
  · exact List.suffix_cons _ _
  · exact List.suffix_rfl

end InterpolationForm

namespace Directive

open TagHead

theorem reads_endReader {sigil : Sigil} {closer piece : Text}
    (hc : Delimiters.isMarker closer = true) (directive : Directive)
    (hend : IsEnd sigil.toChar closer piece) (P : Text → Prop) :
    Reads (endReader sigil closer directive) directive piece P := by
  obtain ⟨hne, hspace⟩ := Delimiters.isMarker_iff.mp hc
  obtain ⟨gap, balance, rfl, hgap, hbalance⟩ := hend
  obtain ⟨c, u, rfl⟩ := List.exists_cons_of_ne_nil hne
  have hexpect : Reads (expect (c :: u) .unclosedTag >>= fun _ => pure directive) directive
      (c :: u ++ []) P :=
    (reads_expect _ _ P).bind (reads_pure directive P) fun rest hrest => by simpa using hrest
  have h : Reads (endReader sigil (c :: u) directive) directive
      (gap ++ (balance ++ (c :: u ++ []))) P := by
    rcases hbalance with rfl | ⟨rfl, hhead⟩
    · refine (reads_takeWhile hgap).bind ?_ fun rest _ => stopsRun_cons sigil.isSpace_toChar
      exact (reads_skip?_true _ fun _ => True).bind hexpect fun _ _ => trivial
    · refine (reads_takeWhile hgap).bind ?_ fun rest _ =>
        stopsRun_cons (hspace c List.mem_cons_self)
      refine (reads_skip?_false _).bind hexpect fun rest _ => not_prefix_of_head ?_
      intro d h heq
      rcases h with ⟨rfl⟩
      subst heq
      exact hhead rfl
  simpa using h

theorem endReader_eq_ok {sigil : Sigil} {closer t : Text} {directive : Directive}
    {x : Reading Directive} (hc : Delimiters.isMarker closer = true)
    (h : endReader sigil closer directive t = .ok x) :
    x.value = directive ∧ IsEnd sigil.toChar closer x.read := by
  obtain ⟨gap, a, hgap, ha, rfl⟩ := bind_eq_ok_iff.mp h
  obtain ⟨balance, b, hbalance, hb, rfl⟩ := bind_eq_ok_iff.mp ha
  obtain ⟨e, f, he, hf, rfl⟩ := bind_eq_ok_iff.mp hb
  cases hf
  obtain ⟨-, hspaces, -⟩ := takeWhile_eq_ok hgap
  have hcloser := expect_eq_ok he
  refine ⟨rfl, gap.read, balance.read, by simp [hcloser], hspaces, ?_⟩
  rcases skip?_eq_ok hbalance with ⟨-, hr⟩ | ⟨-, hr, hnone⟩
  · exact .inl hr
  · right
    refine ⟨hr, ?_⟩
    intro hhead
    have happ := (faithful_expect closer .unclosedTag).append he
    rw [hcloser] at happ
    cases closer with
    | nil => cases hc
    | cons c closer =>
        cases hhead
        simp [← happ] at hnone

theorem interpolationReader_eq (form : InterpolationForm) (closer callee : Text) :
    interpolationReader form closer callee =
      ArgumentToken.listReader closer (form.close closer) ArgumentToken.scanLimit >>= fun args =>
        pure (interpolation form callee args) := rfl

variable [MarkerLimits]

/-- An interpolation is read as a list of arguments, every other tag as the bare end of a tag. A
change of delimiters asks for the pair that its text spells. -/
theorem reader_cases {closer t : Text} {head : TagHead} {x : Reading Directive}
    (h : reader closer head t = .ok x) :
    (∃ form, reader closer head = interpolationReader form closer head.content ∧
      takesFreeText head.sigil = false) ∨
    ∃ sigil directive, head.sigil = some sigil ∧
      reader closer head = endReader sigil closer directive ∧
      ∀ text pair, directive = .setDelimiters text pair → pair? text = some pair := by
  obtain ⟨sigil, content⟩ := head
  cases sigil with
  | none => exact .inl ⟨.plain, rfl, rfl⟩
  | some sigil =>
      cases sigil with
      | brace => exact .inl ⟨.braced, rfl, rfl⟩
      | ampersand => exact .inl ⟨.ampersand, rfl, rfl⟩
      | hash => exact .inr ⟨.hash, _, rfl, rfl, nofun⟩
      | caret => exact .inr ⟨.caret, _, rfl, rfl, nofun⟩
      | slash => exact .inr ⟨.slash, _, rfl, rfl, nofun⟩
      | bang => exact .inr ⟨.bang, _, rfl, rfl, nofun⟩
      | less => exact .inr ⟨.less, _, rfl, rfl, nofun⟩
      | greater => exact .inr ⟨.greater, _, rfl, rfl, nofun⟩
      | equals =>
          cases hp : pair? content with
          | none => simp [reader, hp, fail] at h
          | some pair =>
              refine .inr ⟨.equals, setDelimiters content pair, rfl, by simp [reader, hp], ?_⟩
              intro _ _ h
              rcases h with ⟨rfl, rfl⟩
              exact hp

theorem isEnd_of_reader_eq_ok {closer t : Text} {head : TagHead} {x : Reading Directive}
    (hc : Delimiters.isMarker closer = true) (h : reader closer head t = .ok x) :
    ∀ sigil, head.sigil = some sigil → takesFreeText (some sigil) = true →
      IsEnd sigil.toChar closer x.read := by
  intro sigil hsigil hfree
  rcases reader_cases h with ⟨form, -, hname⟩ | ⟨sigil', directive, hsigil', hreader, -⟩
  · rw [hsigil, hfree] at hname
    cases hname
  · rw [hsigil] at hsigil'
    cases hsigil'
    rw [hreader] at h
    exact (endReader_eq_ok hc h).2

theorem reader_read_suffix {closer t : Text} {head : TagHead} {x : Reading Directive}
    (hc : Delimiters.isMarker closer = true) (h : reader closer head t = .ok x) :
    closer <:+ x.read := by
  rcases reader_cases h with ⟨form, hreader, -⟩ | ⟨sigil, directive, -, hreader, -⟩
  · rw [hreader, interpolationReader_eq] at h
    obtain ⟨args, a, hargs, ha, rfl⟩ := bind_eq_ok_iff.mp h
    cases ha
    simp only [List.append_nil]
    exact (form.suffix_close closer).trans (ArgumentToken.listReader_read_suffix hargs)
  · rw [hreader] at h
    obtain ⟨-, gap, balance, hread, -⟩ := endReader_eq_ok hc h
    exact ⟨gap ++ balance, by simp [hread]⟩

/-- The rest of a tag is read the same whatever follows the tag, or if the closing marker begins
with an equals sign, whatever is left of the text that followed it. -/
theorem reads_reader_of_eq_ok {closer t : Text} {head : TagHead} {x : Reading Directive}
    {P : Text → Prop} (hc : Delimiters.isMarker closer = true) (h : reader closer head t = .ok x)
    (hP : ∀ rest, P rest → closer.head? ≠ some '=' ∨ rest <+: x.rest) :
    Reads (reader closer head) x.value x.read P := by
  rcases reader_cases h with ⟨form, hreader, -⟩ | ⟨sigil, directive, -, hreader, -⟩
  · rw [hreader, interpolationReader_eq] at h ⊢
    obtain ⟨args, a, hargs, ha, rfl⟩ := bind_eq_ok_iff.mp h
    cases ha
    have hne : form.close closer ≠ [] := form.close_ne_nil (Delimiters.isMarker_iff.mp hc).1
    have hclose : ∀ rest, P rest → (form.close closer).head? ≠ some '=' ∨ rest <+: args.rest :=
      fun rest hrest => (hP rest hrest).imp_left form.head?_close
    exact (ArgumentToken.reads_listReader hne hargs hclose).bind (reads_pure _ P)
      fun _ hrest => by simpa using hrest
  · rw [hreader] at h ⊢
    obtain ⟨hval, hend⟩ := endReader_eq_ok hc h
    rw [hval]
    exact reads_endReader hc directive hend P

theorem pair?_of_reader_eq_ok {closer t text : Text} {head : TagHead} {pair : Delimiters}
    {x : Reading Directive} (hc : Delimiters.isMarker closer = true)
    (h : reader closer head t = .ok x) (hx : x.value = .setDelimiters text pair) :
    pair? text = some pair := by
  rcases reader_cases h with ⟨form, hreader, -⟩ | ⟨sigil, directive, -, hreader, hpair⟩
  · rw [hreader, interpolationReader_eq] at h
    obtain ⟨args, a, -, ha, rfl⟩ := bind_eq_ok_iff.mp h
    cases ha
    cases hx
  · rw [hreader] at h
    rw [(endReader_eq_ok hc h).1] at hx
    exact hpair text pair hx

/-- A directive asks only for pairs that pass the check and keep to the limit. -/
theorem valid_of_pair? {text : Text} {pair : Delimiters} (h : pair? text = some pair) :
    pair.Valid ∧ pair.withinLimit = true := by
  unfold pair? at h
  cases hp : Delimiters.parse (String.ofList text) with
  | error e => simp [hp] at h
  | ok parsed =>
      simp only [hp] at h
      split at h
      · rename_i hlimit
        cases h
        refine ⟨?_, hlimit⟩
        unfold Delimiters.parse at hp
        dsimp only at hp
        split at hp
        · cases hp
        · exact (Delimiters.ofMarkers_eq_ok_iff.mp hp).2
      · cases h

end Directive

variable [MarkerLimits]

/-- A tag that is read to its end is read the same whatever follows it. If the closing marker begins
with an equals sign, it is so if less of the same text follows. -/
theorem tag_readers_append {closer t s rest : Text} {head : Reading TagHead}
    {directive : Reading Directive} (hc : Delimiters.isMarker closer = true)
    (hhead : TagHead.reader closer t = .ok head)
    (hdirective : Directive.reader closer head.value head.rest = .ok directive)
    (hrest : closer.head? ≠ some '=' ∨ rest <+: directive.rest) (hs : s = directive.read ++ rest) :
    TagHead.reader closer (head.read ++ s) = .ok { head with rest := s } ∧
      Directive.reader closer head.value s = .ok { directive with rest } := by
  have happ := (Directive.reader_faithful closer head.value).append hdirective
  have hne : directive.read ≠ [] := by
    intro hnil
    have hsuffix := Directive.reader_read_suffix hc hdirective
    rw [hnil] at hsuffix
    exact (Delimiters.isMarker_iff.mp hc).1 (List.suffix_nil.mp hsuffix)
  constructor
  · exact TagHead.reads_reader_of_eq_ok hc hhead happ.symm hne
      (Directive.isEnd_of_reader_eq_ok hc hdirective) s ⟨rest, hs⟩
  · rw [hs]
    have hreads : Reads (Directive.reader closer head.value) directive.value directive.read
        (· = rest) := by
      refine Directive.reads_reader_of_eq_ok hc hdirective ?_
      intro u hu
      rwa [hu]
    exact hreads rest rfl

end TagTemplate

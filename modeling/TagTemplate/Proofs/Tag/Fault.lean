import TagTemplate.Proofs.Lexeme.Reading
import TagTemplate.Proofs.Tag.Name

/-!
# Faults in tags

A reader stops with a fault of the tag that it reads. How sections nest is no matter of single tags
and shows only when tags are put together.
-/

namespace TagTemplate

/-- The fault lies in one tag, whatever sections are open. -/
def Fault.isOfTag : Fault → Bool
  | unclosedTag | illegalContent | invalidDelimiters => true
  | closingUnopened _ | unclosedSection _ => false

/-! ## Readers -/

section Reader

open Reader

theorem TagHead.faultsIn_sigilReader (p : Fault → Prop) : FaultsIn p TagHead.sigilReader where
  fault h := by
    unfold TagHead.sigilReader at h
    split at h
    · cases h
    · split at h
      · cases h
      · cases h

theorem TagHead.faultsIn_contentReader {p : Fault → Prop} (closer : Text) (sigil : Option Sigil)
    (hp : p .unclosedTag) : FaultsIn p (TagHead.contentReader closer sigil) := by
  unfold TagHead.contentReader
  split
  · exact faultsIn_cutting _ hp
  · exact faultsIn_cutting _ hp
  · exact faultsIn_takeWhile _

theorem TagHead.faultsIn_reader (closer : Text) :
    FaultsIn (·.isOfTag = true) (TagHead.reader closer) := by
  have hcontent : ∀ sigil, FaultsIn (·.isOfTag = true) (TagHead.contentReader closer sigil) :=
    fun sigil => TagHead.faultsIn_contentReader closer sigil rfl
  exact (TagHead.faultsIn_sigilReader _).bind fun sigil =>
    (faultsIn_takeWhile _).bind fun _ =>
      (hcontent sigil).bind fun _ => faultsIn_ite (faultsIn_fail rfl) (faultsIn_pure _)

namespace Directive

theorem faultsIn_endReader {p : Fault → Prop} (sigil : Sigil) (closer : Text)
    (directive : Directive) (hp : p .unclosedTag) :
    FaultsIn p (endReader sigil closer directive) :=
  (faultsIn_takeWhile _).bind fun _ =>
    (faultsIn_skip? _).bind fun _ =>
      (faultsIn_expect closer hp).bind fun _ => faultsIn_pure directive

theorem faultsIn_interpolationReader {p : Fault → Prop} (form : InterpolationForm)
    (closer callee : Text) (hp : p .unclosedTag) :
    FaultsIn p (interpolationReader form closer callee) :=
  (ArgumentToken.faultsIn_listReader _ _ _ hp).bind fun _ => faultsIn_pure _

variable [MarkerLimits]

theorem faultsIn_reader (closer : Text) (head : TagHead) :
    FaultsIn (·.isOfTag = true) (reader closer head) := by
  unfold reader
  split
  iterate 3 exact faultsIn_interpolationReader _ _ _ rfl
  iterate 6 exact faultsIn_endReader _ _ _ rfl
  cases pair? head.content with
  | some pair => exact faultsIn_endReader _ _ _ rfl
  | none => exact faultsIn_fail rfl

end Directive

end Reader

/-! ## Lexemes -/

/-- A tag that opens or closes a section has a name for its content. -/
def Lexeme.NamesSection : Lexeme → Prop
  | text _ => True
  | tag t => IsSectionName t.directive.kind t.directive.content

/-- The tag's fault is its own, and if its front could be read and opens or closes a section, the
content is a name. -/
structure BrokenTag.FaultsInTag (tag : BrokenTag) : Prop where
  fault : tag.fault.isOfTag = true
  names_section : ∀ head, tag.head? = some head → IsSectionName head.kind head.content

variable [MarkerLimits]

section Next

variable {d : Delimiters} {lineStart : Bool} {t rest : Text}

theorem namesSection_of_next {lexeme : Lexeme} (h : next d lineStart t = .lexeme lexeme rest) :
    lexeme.NamesSection := by
  cases lexeme with
  | text t => trivial
  | tag tag =>
      obtain ⟨indent, u, -, hread⟩ := next_eq_tag_iff.mp h
      obtain ⟨head, directive, hhead, hdirective, htag, -⟩ := readTag_eq_lexeme_iff.mp hread
      obtain ⟨hkind, hcontent⟩ := Directive.kind_content_of_reader hdirective
      cases htag
      rw [Lexeme.NamesSection, Tag.ofReadings, hkind, hcontent]
      exact TagHead.isSectionName_of_reader hhead

theorem faultsInTag_of_readTag {indent : Text} {tag : BrokenTag}
    (h : readTag d lineStart indent t = .broken tag) : tag.FaultsInTag := by
  unfold readTag at h
  cases hhead : TagHead.reader d.closer.toList t with
  | error stop =>
      simp only [hhead, Next.broken.injEq] at h
      subst h
      exact ⟨(TagHead.faultsIn_reader _).fault hhead, nofun⟩
  | ok head =>
      cases hdirective : Directive.reader d.closer.toList head.value head.rest with
      | ok directive => simp [hhead, hdirective] at h
      | error stop =>
          simp only [hhead, hdirective, Next.broken.injEq] at h
          subst h
          refine ⟨(Directive.faultsIn_reader _ _).fault hdirective, ?_⟩
          intro head' heq
          cases heq
          exact TagHead.isSectionName_of_reader hhead

theorem faultsInTag_of_next {tag : BrokenTag} (h : next d lineStart t = .broken tag) :
    tag.FaultsInTag := by
  unfold next at h
  cases hs : splitOpening d.opener.toList t with
  | none => simp [hs] at h
  | some parts =>
      simp only [hs] at h
      exact faultsInTag_of_readTag h

end Next

/-- Every lexeme of a template, and the broken tag at its end if there is one, was read as the next
one of some text. -/
theorem Lexemes.of_readFrom {P : Lexeme → Prop} {Q : BrokenTag → Prop}
    (hlexeme : ∀ d lineStart t lexeme rest, next d lineStart t = .lexeme lexeme rest → P lexeme)
    (hbroken : ∀ d lineStart t tag, next d lineStart t = .broken tag → Q tag) (d : Delimiters)
    (lineStart : Bool) (t : Text) :
    (∀ x ∈ (readFrom d lineStart t []).lexemes, P x) ∧
      ∀ tag, (readFrom d lineStart t []).broken? = some tag → Q tag := by
  induction hn : t.length using Nat.strongRecOn generalizing d lineStart t with
  | ind n ih =>
      by_cases ht : t = []
      · subst ht
        simp
      · cases hx : next d lineStart t with
        | broken tag =>
            rw [readFrom_of_broken ht hx]
            refine ⟨nofun, ?_⟩
            intro tag' htag
            cases htag
            exact hbroken _ _ _ _ hx
        | lexeme lexeme rest =>
            have hlt := next_length_lt ht hx
            have hrest := ih rest.length (by omega) (lexeme.delimitersAfter d)
              lexeme.startsLineAfter rest rfl
            rw [readFrom_of_lexeme ht hx, readFrom_seen]
            refine ⟨?_, hrest.2⟩
            intro x hmem
            rcases List.mem_cons.mp hmem with rfl | hmem
            · exact hlexeme _ _ _ _ _ hx
            · exact hrest.1 x hmem

theorem namesSection_of_mem_read {d : Delimiters} {template : Text} {x : Lexeme}
    (h : x ∈ (Lexemes.read d template).lexemes) : x.NamesSection :=
  (Lexemes.of_readFrom (fun _ _ _ _ _ => namesSection_of_next)
    (fun _ _ _ _ => faultsInTag_of_next) d true template).1 x h

theorem faultsInTag_of_read {d : Delimiters} {template : Text} {tag : BrokenTag}
    (h : (Lexemes.read d template).broken? = some tag) : tag.FaultsInTag :=
  (Lexemes.of_readFrom (fun _ _ _ _ _ => namesSection_of_next)
    (fun _ _ _ _ => faultsInTag_of_next) d true template).2 tag h

end TagTemplate

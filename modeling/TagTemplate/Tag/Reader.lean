import TagTemplate.Argument.Reader
import TagTemplate.Tag.Basic

/-!
# Reading a tag

After the opening marker a tag is read in two steps: its head, which ends with the content, and
then what its kind asks for up to the closing marker. A name takes as many content characters as
there are. The free text of a comment or of a change of delimiters runs to the first closing
marker, less the white space and one balancing sigil before it.
-/

namespace TagTemplate

def isContent (c : Char) : Bool :=
  c.isAlphanum || c == '_' || c == '?' || c == '!' || c == '/' || c == '.' || c == '-'

/-! ## The head -/

namespace TagHead

/-- The closing marker comes next, perhaps after a balancing sigil. -/
def closesHere (sigil : Char) (closer t : Text) : Bool :=
  closer.isPrefixOf t ||
    match t with
    | [] => false
    | c :: t => c == sigil && closer.isPrefixOf t

/-- Cut off free text, which ends before the first place where the tag closes and before the
white space that stands there. -/
def cutFree? (sigil : Char) (closer t : Text) : Option (Text × Text) :=
  (Text.splitAtFirst? (closesHere sigil closer) t).map fun (before, after) =>
    let (content, gap) := Text.splitEndWhile isSpace before
    (content, gap ++ after)

theorem cutFree?_append {sigil : Char} {closer t piece rest : Text}
    (h : cutFree? sigil closer t = some (piece, rest)) : piece ++ rest = t := by
  unfold cutFree? at h
  obtain ⟨⟨before, after⟩, hs, hp⟩ := Option.map_eq_some_iff.mp h
  simp only [Prod.mk.injEq] at hp
  obtain ⟨rfl, rfl⟩ := hp
  rw [← List.append_assoc, Text.splitEndWhile_append, Text.splitAtFirst?_append hs]

def sigilReader : Reader (Option Sigil) := fun t =>
  match t with
  | [] => .ok ⟨none, [], []⟩
  | c :: t =>
      match Sigil.ofChar? c with
      | some sigil => .ok ⟨some sigil, [c], t⟩
      | none => .ok ⟨none, [], c :: t⟩

theorem sigilReader_faithful : sigilReader.Faithful where
  append {t x} h := by
    unfold sigilReader at h
    split at h
    · cases h
      rfl
    · split at h <;> cases h <;> rfl
  isPrefix {t stop} h := by
    unfold sigilReader at h
    split at h
    · cases h
    · split at h <;> cases h

def contentReader (closer : Text) : Option Sigil → Reader Text
  | some .bang => Reader.cutting (cutFree? '!' closer) .unclosedTag
  | some .equals => Reader.cutting (cutFree? '=' closer) .unclosedTag
  | _ => Reader.takeWhile isContent

theorem contentReader_faithful (closer : Text) (sigil : Option Sigil) :
    (contentReader closer sigil).Faithful := by
  unfold contentReader
  split
  · exact Reader.faithful_cutting fun h => cutFree?_append h
  · exact Reader.faithful_cutting fun h => cutFree?_append h
  · exact Reader.faithful_takeWhile _

theorem contentReader_value {closer : Text} {sigil : Option Sigil} {t : Text} {x : Reading Text}
    (h : contentReader closer sigil t = .ok x) : x.read = x.value := by
  unfold contentReader at h
  split at h
  · unfold Reader.cutting at h
    split at h <;> cases h
    rfl
  · unfold Reader.cutting at h
    split at h <;> cases h
    rfl
  · cases h
    rfl

/-- Take everything up to the end of the content, which must not be empty. -/
def reader (closer : Text) : Reader TagHead := do
  let sigil ← sigilReader
  let _ ← Reader.spaces
  let content ← contentReader closer sigil
  if content = [] then Reader.fail .illegalContent else return ⟨sigil, content⟩

theorem reader_faithful (closer : Text) : (reader closer).Faithful :=
  sigilReader_faithful.bind fun sigil =>
    (Reader.faithful_takeWhile _).bind fun _ =>
      (contentReader_faithful closer sigil).bind fun _ =>
        Reader.faithful_ite (Reader.faithful_fail _) (Reader.faithful_pure _)

theorem reader_read_ne_nil {closer t : Text} {x : Reading TagHead}
    (h : reader closer t = .ok x) : x.read ≠ [] := by
  obtain ⟨a, x₁, -, h₁, rfl⟩ := Reader.bind_eq_ok_iff.mp h
  obtain ⟨b, x₂, -, h₂, rfl⟩ := Reader.bind_eq_ok_iff.mp h₁
  obtain ⟨c, x₃, hc, h₃, rfl⟩ := Reader.bind_eq_ok_iff.mp h₂
  split at h₃
  · cases h₃
  · rename_i hne
    have := contentReader_value hc
    simp_all

end TagHead

/-! ## The rest of the tag -/

namespace Directive

/-- Take the end of a tag that has no arguments: its sigil may come once more before the
closing marker. -/
def endReader (sigil : Sigil) (closer : Text) (directive : Directive) : Reader Directive := do
  let _ ← Reader.spaces
  let _ ← Reader.skip? [sigil.toChar]
  Reader.expect closer .unclosedTag
  return directive

theorem endReader_faithful (sigil : Sigil) (closer : Text) (directive : Directive) :
    (endReader sigil closer directive).Faithful :=
  (Reader.faithful_takeWhile _).bind fun _ =>
    (Reader.faithful_skip? _).bind fun _ =>
      (Reader.faithful_expect closer _).bind fun _ => Reader.faithful_pure directive

/-- Take the arguments of an interpolation and its end. The braced form ends with a brace and
the closing marker. -/
def interpolationReader (form : InterpolationForm) (closer callee : Text) : Reader Directive := do
  let close := if form = .braced then '\x7d' :: closer else closer
  let args ← ArgumentToken.listReader closer close ArgumentToken.scanLimit
  return interpolation form callee args

theorem interpolationReader_faithful (form : InterpolationForm) (closer callee : Text) :
    (interpolationReader form closer callee).Faithful :=
  (ArgumentToken.listReader_faithful _ _ _).bind fun _ => Reader.faithful_pure _

variable [MarkerLimits]

/-- The pair that a change of delimiters asks for, if a template can be read with it. -/
def pair? (text : Text) : Option Delimiters :=
  match Delimiters.parse (String.ofList text) with
  | .ok pair => if pair.withinLimit then some pair else none
  | .error _ => none

def reader (closer : Text) (head : TagHead) : Reader Directive :=
  match head.sigil with
  | none => interpolationReader .plain closer head.content
  | some .brace => interpolationReader .braced closer head.content
  | some .ampersand => interpolationReader .ampersand closer head.content
  | some .hash => endReader .hash closer (openBlock false head.content)
  | some .caret => endReader .caret closer (openBlock true head.content)
  | some .slash => endReader .slash closer (closeBlock head.content)
  | some .bang => endReader .bang closer (comment head.content)
  | some .less => endReader .less closer (partialRef head.content)
  | some .greater => endReader .greater closer (partialRef head.content)
  | some .equals =>
      match pair? head.content with
      | some pair => endReader .equals closer (setDelimiters head.content pair)
      | none => Reader.fail .invalidDelimiters

theorem reader_faithful (closer : Text) (head : TagHead) : (reader closer head).Faithful := by
  unfold reader
  split
  iterate 3 exact interpolationReader_faithful _ _ _
  iterate 6 exact endReader_faithful _ _ _
  cases pair? head.content with
  | some pair => exact endReader_faithful _ _ _
  | none => exact Reader.faithful_fail _

end Directive

end TagTemplate

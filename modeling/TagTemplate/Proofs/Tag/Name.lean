import TagTemplate.Proofs.Tag.Reader
import TagTemplate.Text.Quoted

/-!
# Names in tags

The characters of names are printable ones that quoting leaves alone. The content of every tag that
opens or closes a section is a name.
-/

namespace TagTemplate

open Text

theorem toNat_of_isContent {c : Char} (h : isContent c = true) : 33 ≤ c.toNat ∧ c.toNat ≤ 122 := by
  have hrange : ∀ {a b : Char}, 33 ≤ a.toNat → b.toNat ≤ 122 → a.val ≤ c.val ∧ c.val ≤ b.val →
      33 ≤ c.toNat ∧ c.toNat ≤ 122 := by
    intro a b ha hb hab
    have hac : a.toNat ≤ c.toNat := UInt32.le_iff_toNat_le.mp hab.1
    have hcb : c.toNat ≤ b.toNat := UInt32.le_iff_toNat_le.mp hab.2
    omega
  unfold isContent Char.isAlphanum Char.isAlpha Char.isUpper Char.isLower Char.isDigit at h
  simp only [Bool.or_eq_true, Bool.and_eq_true, decide_eq_true_eq, beq_iff_eq, ge_iff_le] at h
  rcases h with (((((((h | h) | h) | rfl) | rfl) | rfl) | rfl) | rfl) | rfl
  · exact hrange (a := 'A') (b := 'Z') (by decide) (by decide) h
  · exact hrange (a := 'a') (b := 'z') (by decide) (by decide) h
  · exact hrange (a := '0') (b := '9') (by decide) (by decide) h
  · decide
  · decide
  · decide
  · decide
  · decide
  · decide

theorem isSpace_eq_false_of_isContent {c : Char} (h : isContent c = true) : isSpace c = false := by
  have hrange := toNat_of_isContent h
  have hne : ∀ n, (n < 33 ∨ 122 < n) → (c.toNat == n) = false := by
    intro n hn
    simp only [beq_eq_false_iff_ne]
    omega
  have hle : ∀ n, 122 < n → decide (n ≤ c.toNat) = false := by
    intro n hn
    simp only [decide_eq_false_iff_not]
    omega
  have hctrl : decide (c.toNat ≤ 13) = false := by
    simp only [decide_eq_false_iff_not]
    omega
  simp [isSpace, hne, hle, hctrl]

/-! ## Quoted names -/

theorem quotedChar_of_isContent {c : Char} (h : isContent c = true) : quotedChar c = [c] := by
  have hrange := toNat_of_isContent h
  have hprintable : isPrintable c = true := by
    have hlt : c.toNat < 0x7f := by omega
    have hle : 0x20 ≤ c.toNat := by omega
    simp [isPrintable, hlt, hle]
  unfold quotedChar
  split
  · cases h
  · cases h
  · cases h
  · cases h
  · cases h
  · cases h
  · rw [if_pos hprintable]

/-- A name is quoted as it is. -/
theorem quoted_ofList {name : Text} (h : ∀ c ∈ name, isContent c = true) :
    quoted (String.ofList name) = "\"" ++ String.ofList name ++ "\"" := by
  have hsame : name.flatMap quotedChar = name := by
    induction name with
    | nil => rfl
    | cons c name ih =>
        have hrest := ih fun x hx => h x (List.mem_cons_of_mem _ hx)
        rw [List.flatMap_cons, quotedChar_of_isContent (h c List.mem_cons_self), hrest]
        rfl
  rw [← String.toList_inj]
  simp [quoted, hsame]

/-! ## Names of sections -/

def TagKind.isBoundary : TagKind → Bool
  | openBlock _ | closeBlock => true
  | _ => false

/-- If a tag of the kind opens or closes a section, its content is a name. -/
def IsSectionName (kind : TagKind) (content : Text) : Prop :=
  kind.isBoundary = true → ∀ c ∈ content, isContent c = true

namespace TagHead

theorem takesFreeText_of_isBoundary {sigil : Option Sigil}
    (h : (TagKind.ofSigil sigil).isBoundary = true) : takesFreeText sigil = false := by
  cases sigil with
  | none => rfl
  | some sigil =>
      cases sigil with
      | bang | equals => cases h
      | hash | caret | slash | less | greater | brace | ampersand => rfl

theorem isSectionName_of_reader {closer t : Text} {head : Reading TagHead}
    (h : reader closer t = .ok head) : IsSectionName head.value.kind head.value.content := by
  intro hkind
  obtain ⟨_, _, _, _, _, _, _, hcontent⟩ := reader_eq_ok h
  rw [contentReader_name closer (takesFreeText_of_isBoundary hkind)] at hcontent
  exact (Reader.takeWhile_eq_ok hcontent).2.1

end TagHead

namespace Directive

theorem value_of_endReader {sigil : Sigil} {closer t : Text} {directive : Directive}
    {x : Reading Directive} (h : endReader sigil closer directive t = .ok x) :
    x.value = directive := by
  obtain ⟨_, a, -, ha, rfl⟩ := Reader.bind_eq_ok_iff.mp h
  obtain ⟨_, b, -, hb, rfl⟩ := Reader.bind_eq_ok_iff.mp ha
  obtain ⟨_, c, -, hc, rfl⟩ := Reader.bind_eq_ok_iff.mp hb
  cases hc
  rfl

theorem value_of_interpolationReader {form : InterpolationForm} {closer callee t : Text}
    {x : Reading Directive} (h : interpolationReader form closer callee t = .ok x) :
    ∃ args, x.value = interpolation form callee args := by
  obtain ⟨args, a, -, ha, rfl⟩ := Reader.bind_eq_ok_iff.mp h
  cases ha
  exact ⟨args.value, rfl⟩

variable [MarkerLimits]

/-- What a tag asks for is of the kind that its head tells, with the head's content. -/
theorem kind_content_of_reader {closer t : Text} {head : TagHead} {x : Reading Directive}
    (h : reader closer head t = .ok x) :
    x.value.kind = head.kind ∧ x.value.content = head.content := by
  obtain ⟨sigil, content⟩ := head
  cases sigil with
  | none =>
      obtain ⟨args, hvalue⟩ := value_of_interpolationReader h
      rw [hvalue]
      exact ⟨rfl, rfl⟩
  | some sigil =>
      cases sigil with
      | brace | ampersand =>
          obtain ⟨args, hvalue⟩ := value_of_interpolationReader h
          rw [hvalue]
          exact ⟨rfl, rfl⟩
      | hash | caret | slash | bang | less | greater =>
          rw [value_of_endReader h]
          exact ⟨rfl, rfl⟩
      | equals =>
          cases hp : pair? content with
          | none => simp [reader, hp, Reader.fail] at h
          | some pair =>
              rw [reader, hp] at h
              rw [value_of_endReader h]
              exact ⟨rfl, rfl⟩

end Directive

end TagTemplate

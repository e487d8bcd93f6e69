import TagTemplate.Lexeme.Basic

/-!
# Sequences of lexemes

The lexemes of a template are read one after the other, each with the pair that the ones before
it leave in force. Unless a tag is broken, their sources concatenate to the template.
-/

namespace TagTemplate

structure Lexemes where
  lexemes : List Lexeme
  broken? : Option BrokenTag
deriving DecidableEq, Repr, Inhabited

variable [MarkerLimits]

/-- Read to the end of `t`, after the lexemes in `seen`, last one first. -/
def Lexemes.readFrom (d : Delimiters) (lineStart : Bool) (t : Text) (seen : List Lexeme) :
    Lexemes :=
  if ht : t = [] then ⟨seen.reverse, none⟩
  else
    match hn : next d lineStart t with
    | .broken tag => ⟨seen.reverse, some tag⟩
    | .lexeme lexeme rest =>
        have := next_length_lt ht hn
        readFrom (lexeme.delimitersAfter d) lexeme.startsLineAfter rest (lexeme :: seen)
termination_by t.length

def Lexemes.read (d : Delimiters) (template : Text) : Lexemes := readFrom d true template []

namespace Lexemes

@[simp] theorem readFrom_nil (d : Delimiters) (lineStart : Bool) (seen : List Lexeme) :
    readFrom d lineStart [] seen = ⟨seen.reverse, none⟩ := by
  rw [readFrom, dif_pos rfl]

theorem readFrom_of_broken {d : Delimiters} {lineStart : Bool} {t : Text} {seen : List Lexeme}
    {tag : BrokenTag} (ht : t ≠ []) (h : next d lineStart t = .broken tag) :
    readFrom d lineStart t seen = ⟨seen.reverse, some tag⟩ := by
  rw [readFrom, dif_neg ht]
  split
  · simp_all
  · simp_all

theorem readFrom_of_lexeme {d : Delimiters} {lineStart : Bool} {t rest : Text} {seen : List Lexeme}
    {lexeme : Lexeme} (ht : t ≠ []) (h : next d lineStart t = .lexeme lexeme rest) :
    readFrom d lineStart t seen =
      readFrom (lexeme.delimitersAfter d) lexeme.startsLineAfter rest (lexeme :: seen) := by
  rw [readFrom, dif_neg ht]
  split
  · simp_all
  · simp_all

/-- What was read before stands before what is read now, and does not bear on it. -/
theorem readFrom_seen (d : Delimiters) (lineStart : Bool) (t : Text) (seen : List Lexeme) :
    readFrom d lineStart t seen =
      ⟨seen.reverse ++ (readFrom d lineStart t []).lexemes,
        (readFrom d lineStart t []).broken?⟩ := by
  induction hn : t.length using Nat.strongRecOn generalizing d lineStart t seen with
  | ind n ih =>
      by_cases ht : t = []
      · subst ht
        simp
      · cases h : next d lineStart t with
        | broken tag => simp [readFrom_of_broken ht h]
        | lexeme lexeme rest =>
            have hlt := next_length_lt ht h
            have step := fun seen => ih rest.length (by omega) (lexeme.delimitersAfter d)
              lexeme.startsLineAfter rest (lexeme :: seen) rfl
            rw [readFrom_of_lexeme ht h, readFrom_of_lexeme ht h, step seen, step []]
            simp

/-- Unless a tag is broken, the sources of the lexemes concatenate to what was read. -/
theorem flatMap_source_readFrom {d : Delimiters} {lineStart : Bool} {t : Text}
    (h : (readFrom d lineStart t []).broken? = none) :
    (readFrom d lineStart t []).lexemes.flatMap Lexeme.source = t := by
  induction hn : t.length using Nat.strongRecOn generalizing d lineStart t with
  | ind n ih =>
      by_cases ht : t = []
      · subst ht
        simp
      · cases hx : next d lineStart t with
        | broken tag => simp [readFrom_of_broken ht hx] at h
        | lexeme lexeme rest =>
            have hlt := next_length_lt ht hx
            rw [readFrom_of_lexeme ht hx, readFrom_seen] at h ⊢
            have hrest := ih rest.length (by omega) h rfl
            simp [hrest, (next_append ht hx).1]

theorem flatMap_source_read {d : Delimiters} {template : Text}
    (h : (read d template).broken? = none) :
    (read d template).lexemes.flatMap Lexeme.source = template := flatMap_source_readFrom h

end Lexemes

end TagTemplate

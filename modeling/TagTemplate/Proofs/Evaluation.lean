import TagTemplate.Compile

/-!
# Compiling by evaluation

Lexemes are read by recursion on the length of what remains. The same recursion on a bound for it
gives the same lexemes, and can be evaluated step by step on a given template. The answer of a
compile is told from how reading, assembling and closing the template end.
-/

namespace TagTemplate

variable [MarkerLimits]

def Lexemes.readWithin : (bound : Nat) → Delimiters → (lineStart : Bool) → Text → Lexemes
  | 0, _, _, _ => ⟨[], none⟩
  | bound + 1, d, lineStart, t =>
      if t = [] then ⟨[], none⟩
      else
        match next d lineStart t with
        | .broken tag => ⟨[], some tag⟩
        | .lexeme lexeme rest =>
            let more := readWithin bound (lexeme.delimitersAfter d) lexeme.startsLineAfter rest
            ⟨lexeme :: more.lexemes, more.broken?⟩

theorem Lexemes.readFrom_eq_readWithin {bound : Nat} {t : Text} (h : t.length ≤ bound)
    (d : Delimiters) (lineStart : Bool) :
    readFrom d lineStart t [] = readWithin bound d lineStart t := by
  induction bound generalizing t d lineStart with
  | zero =>
      have ht : t = [] := List.eq_nil_of_length_eq_zero (by omega)
      rw [ht, readFrom_nil]
      rfl
  | succ bound ih =>
      by_cases ht : t = []
      · rw [readWithin, if_pos ht, ht, readFrom_nil]
        rfl
      · rw [readWithin, if_neg ht]
        cases hx : next d lineStart t with
        | broken tag => exact readFrom_of_broken ht hx
        | lexeme lexeme rest =>
            have hlt := next_length_lt ht hx
            rw [readFrom_of_lexeme ht hx, readFrom_seen, ih (by omega)]
            rfl

/-! ## Answers -/

def answerOf (template : String) : Except Failure (List Node) → Except SyntaxError Node
  | .error failure => .error (SyntaxError.locate template failure.offset failure.fault.message)
  | .ok nodes => .ok (.multi nodes)

theorem compile_eq_answerOf (d : Delimiters) (template : String) :
    compile d template = answerOf template
      (assemble d template.toList { log := [.started template.utf8ByteSize] } >>=
        Assembly.finish) := by
  unfold compile run
  cases assemble d template.toList { log := [.started template.utf8ByteSize] } with
  | error failure => rfl
  | ok a =>
      have hbind : (Except.ok a >>= Assembly.finish : Except Failure (List Node)) = a.finish := rfl
      rw [hbind]
      dsimp only
      cases a.finish with
      | error failure => rfl
      | ok nodes => rfl

theorem compile_of_withinLimit {d : Delimiters} (hlimit : d.withinLimit = true)
    (template : String) :
    compile d template = answerOf template
      (({ log := [.started template.utf8ByteSize] } : Assembly).ofLexemes
        (Lexemes.read d template.toList) >>= Assembly.finish) := by
  rw [compile_eq_answerOf, assemble, if_pos hlimit]

/-- A pair that is too long is refused at the start of the template, whatever the template. -/
theorem compile_of_not_withinLimit {d : Delimiters} (hlimit : d.withinLimit = false)
    (template : String) :
    compile d template = .error (SyntaxError.locate template 0 Fault.invalidDelimiters.message) := by
  have hno : ¬ d.withinLimit = true := by simp [hlimit]
  rw [compile_eq_answerOf, assemble, if_neg hno]
  rfl

/-- Compile a template, reading it by recursion on its length. -/
def evaluate (d : Delimiters) (template : String) : Except SyntaxError Node :=
  let t := template.toList
  let start : Assembly := { log := [.started template.utf8ByteSize] }
  let assembled :=
    if d.withinLimit then start.ofLexemes (Lexemes.readWithin t.length d true t)
    else start.fail .invalidDelimiters 0
  answerOf template (assembled >>= Assembly.finish)

theorem compile_eq_evaluate (d : Delimiters) (template : String) :
    compile d template = evaluate d template := by
  have hread : Lexemes.read d template.toList =
      Lexemes.readWithin template.toList.length d true template.toList :=
    Lexemes.readFrom_eq_readWithin (Nat.le_refl _) d true
  rw [compile_eq_answerOf, assemble, hread]
  rfl

end TagTemplate

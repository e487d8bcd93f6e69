import TagTemplate.Argument.Reader
import TagTemplate.Proofs.Argument.Token
import TagTemplate.Proofs.Reader.Fault
import TagTemplate.Proofs.Reader.Reads

/-!
# What the arguments of a tag depend on

Arguments that are read up to their close are read the same whatever follows the close, provided
that the close does not begin with an equals sign: with such a close a name could be an argument
by itself as long as the value after it is a literal that nothing ends. With any close they are
read the same in front of less of the text that follows it.
-/

namespace TagTemplate.ArgumentToken

open Text Reader

/-! ## One token -/

/-- A token is never empty and never begins with an equals sign. -/
theorem cut?_head {stop t piece rest : Text} (h : cut? stop t = some (piece, rest)) :
    ∃ c u, piece = c :: u ∧ c ≠ '=' ∧ isSpace c = false := by
  have hword : ∀ {t word rest : Text}, cutWord? stop t = some (word, rest) →
      ∃ c u, word = c :: u ∧ c ≠ '=' ∧ isSpace c = false := by
    intro t word rest hw
    obtain ⟨-, hne, hin, -⟩ := cutWord?_eq_some_iff.mp hw
    cases word with
    | nil => exact absurd rfl hne
    | cons c word =>
        have hbare := isBare_of_inWord (hin c List.mem_cons_self)
        exact ⟨c, word, rfl, ne_equals_of_isBare hbare, isSpace_eq_false_of_isBare hbare⟩
  rcases cut?_eq_some_iff.mp h with hq | ⟨hw, -⟩ | ⟨name, value, u, hw, -, rfl⟩
  · obtain ⟨quote, inner, hquote, -, rfl, -⟩ := cutQuoted?_eq_some_iff.mp hq
    refine ⟨quote, inner ++ [quote], rfl, ?_⟩
    simp only [isQuote, Bool.or_eq_true, beq_iff_eq] at hquote
    rcases hquote with rfl | rfl
    · decide
    · decide
  · exact hword hw
  · obtain ⟨c, v, rfl, hc⟩ := hword hw
    exact ⟨c, v ++ '=' :: value, rfl, hc⟩

theorem cutWord?_append_right {stop t word rest rest' : Text}
    (h : cutWord? stop t = some (word, rest)) (hhead : rest'.head? = rest.head?) : cutWord? stop (word ++ rest') = some (word, rest') := by
  obtain ⟨-, hne, hin, hstop⟩ := cutWord?_eq_some_iff.mp h
  have hstop' : StopsRun (inWord stop) rest' := by
    intro c hc
    rw [hhead] at hc
    exact hstop c hc
  exact cutWord?_eq_some_iff.mpr ⟨rfl, hne, hin, hstop'⟩

theorem cutQuoted?_append_right {t piece rest : Text} (h : cutQuoted? t = some (piece, rest))
    (rest' : Text) : cutQuoted? (piece ++ rest') = some (piece, rest') := by
  obtain ⟨quote, inner, hq, hmem, rfl, -⟩ := cutQuoted?_eq_some_iff.mp h
  exact cutQuoted?_eq_some_iff.mpr ⟨quote, inner, hq, hmem, rfl, rfl⟩

/-- Where no value begins, none begins if less of the text is there. -/
theorem cutValue?_eq_none_of_append {stop t s : Text} (h : cutValue? stop (t ++ s) = none) :
    cutValue? stop t = none := by
  obtain ⟨hquoted, hword⟩ := cutValue?_eq_none_iff.mp h
  apply cutValue?_eq_none_iff.mpr
  constructor
  · cases hq : cutQuoted? t with
    | none => rfl
    | some parts =>
        obtain ⟨piece, rest⟩ := parts
        have hsome := cutQuoted?_append_right hq (rest ++ s)
        rw [← List.append_assoc, cutQuoted?_append hq, hquoted] at hsome
        cases hsome
  · cases t with
    | nil => exact fun c hc => nomatch hc
    | cons c t => exact stopsRun_cons (hword c rfl)

/-- Of what follows a token only the first character matters, unless that is an equals sign. Less of
what follows it makes no difference either, as long as something does. -/
theorem cut?_append_right {stop t piece rest rest' : Text} (h : cut? stop t = some (piece, rest))
    (hnext : rest.head? ≠ some '=' ∨ rest' <+: rest) (hhead : rest'.head? = rest.head?) :
    cut? stop (piece ++ rest') = some (piece, rest') := by
  apply cut?_eq_some_iff.mpr
  rcases cut?_eq_some_iff.mp h with hq | ⟨hw, hnone⟩ | ⟨name, value, u, hw, hv, rfl⟩
  · exact .inl (cutQuoted?_append_right hq rest')
  · refine .inr (.inl ⟨cutWord?_append_right hw hhead, ?_⟩)
    intro u hu
    subst hu
    rcases hnext with hne | ⟨s, rfl⟩
    · exact absurd hhead.symm hne
    · exact cutValue?_eq_none_of_append (hnone (u ++ s) rfl)
  · refine .inr (.inr ⟨name, value, value ++ rest', ?_, ?_, rfl⟩)
    · rw [List.append_assoc, List.cons_append]
      exact cutWord?_append_right hw rfl
    · apply cutValue?_eq_some_iff.mpr
      rcases cutValue?_eq_some_iff.mp hv with hq | hw'
      · exact .inl (cutQuoted?_append_right hq rest')
      · exact .inr (cutWord?_append_right hw' hhead)

theorem reader_eq_ok {stop t : Text} {x : Reading ArgumentToken} (h : reader stop t = .ok x) :
    cut? stop t = some (x.read, x.rest) ∧ classify? x.read = some x.value := by
  obtain ⟨a, b, ha, hb, rfl⟩ := bind_eq_ok_iff.mp h
  obtain ⟨hval, hcut⟩ := cutting_eq_ok ha
  cases hc : classify? a.value with
  | none =>
      simp only [hc] at hb
      cases hb
  | some token =>
      simp only [hc] at hb
      cases hb
      simp only [List.append_nil]
      exact ⟨hcut, by rw [← hval, hc]⟩

theorem reads_reader {stop piece : Text} {token : ArgumentToken} {P : Text → Prop}
    (hcut : ∀ rest, P rest → cut? stop (piece ++ rest) = some (piece, rest))
    (hclass : classify? piece = some token) : Reads (reader stop) token piece P := by
  have h : Reads (reader stop) token (piece ++ []) P := by
    refine (reads_cutting hcut).bind ?_ fun rest hrest => by simpa using hrest
    rw [hclass]
    exact reads_pure token P
  simpa using h

/-! ## Faults -/

theorem faultsIn_reader {p : Fault → Prop} (stop : Text) (hp : p .unclosedTag) :
    FaultsIn p (reader stop) :=
  (faultsIn_cutting _ hp).bind fun token => by
    cases classify? token with
    | some argument => exact faultsIn_pure argument
    | none => exact faultsIn_fail hp

theorem faultsIn_listReader {p : Fault → Prop} (stop close : Text) (scans : Nat)
    (hp : p .unclosedTag) : FaultsIn p (listReader stop close scans) := by
  induction scans with
  | zero => exact faultsIn_fail hp
  | succ scans ih =>
      exact (faultsIn_takeWhile _).bind fun _ =>
        (faultsIn_skip? close).bind fun _ =>
          faultsIn_ite (faultsIn_pure []) <|
            (faultsIn_reader stop hp).bind fun token =>
              ih.bind fun tokens => faultsIn_pure (token :: tokens)

/-! ## The list -/

/-- The two ways in which a look at the text ahead succeeds: the close is there, or a token is
and the rest of the list follows it. -/
theorem listReader_eq_ok {stop close t : Text} {scans : Nat} {x : Reading (List ArgumentToken)}
    (h : listReader stop close (scans + 1) t = .ok x) :
    ∃ gap, (∀ c ∈ gap, isSpace c = true) ∧
      ((x.value = [] ∧ x.read = gap ++ close ∧ StopsRun isSpace (close ++ x.rest)) ∨
        ∃ token tokens, reader stop (token.read ++ (tokens.read ++ x.rest)) = .ok token ∧
          token.rest = tokens.read ++ x.rest ∧
          listReader stop close scans token.rest = .ok tokens ∧ tokens.rest = x.rest ∧
          ¬ close <+: token.read ++ (tokens.read ++ x.rest) ∧
          x.value = token.value :: tokens.value ∧
          x.read = gap ++ (token.read ++ tokens.read)) := by
  obtain ⟨gap, a, hgap, ha, rfl⟩ := bind_eq_ok_iff.mp h
  obtain ⟨closed, b, hclosed, hb, rfl⟩ := bind_eq_ok_iff.mp ha
  obtain ⟨-, hspaces, hstop⟩ := takeWhile_eq_ok hgap
  refine ⟨gap.read, hspaces, ?_⟩
  have happ := (faithful_skip? close).append hclosed
  rcases skip?_eq_ok hclosed with ⟨hv, hr⟩ | ⟨hv, hr, hnone⟩
  · simp only [hv, if_true] at hb
    cases hb
    left
    refine ⟨rfl, by simp [hr], ?_⟩
    rwa [← happ, hr] at hstop
  · simp only [hv, Bool.false_eq_true, if_false] at hb
    obtain ⟨token, c, htoken, hc, rfl⟩ := bind_eq_ok_iff.mp hb
    obtain ⟨tokens, e, htokens, he, rfl⟩ := bind_eq_ok_iff.mp hc
    cases he
    right
    have happToken := (reader_faithful stop).append htoken
    have happTokens := (listReader_faithful stop close scans).append htokens
    refine ⟨token, tokens, ?_, happTokens.symm, htokens, rfl, ?_, rfl, by simp [hr]⟩
    · rw [happTokens, happToken]
      exact htoken
    · rw [happTokens, happToken]
      exact hnone

theorem listReader_read_suffix {stop close t : Text} {scans : Nat}
    {x : Reading (List ArgumentToken)} (h : listReader stop close scans t = .ok x) :
    close <:+ x.read := by
  induction scans generalizing t x with
  | zero => cases h
  | succ scans ih =>
      obtain ⟨gap, -, ⟨-, hread, -⟩ | ⟨token, tokens, -, -, htokens, -, -, -, hread⟩⟩ :=
        listReader_eq_ok h
      · exact ⟨gap, hread.symm⟩
      · obtain ⟨before, hbefore⟩ := ih htokens
        exact ⟨gap ++ token.read ++ before, by rw [hread, ← hbefore]; simp⟩

theorem listReader_read_ne_nil {stop close t : Text} {scans : Nat}
    {x : Reading (List ArgumentToken)} (hclose : close ≠ [])
    (h : listReader stop close scans t = .ok x) : x.read ≠ [] := by
  intro hnil
  have hsuffix := listReader_read_suffix h
  rw [hnil] at hsuffix
  exact hclose (List.suffix_nil.mp hsuffix)

theorem listReader_read_head {stop close t : Text} {scans : Nat}
    {x : Reading (List ArgumentToken)} (hhead : close.head? ≠ some '=')
    (h : listReader stop close scans t = .ok x) : x.read.head? ≠ some '=' := by
  cases scans with
  | zero => cases h
  | succ scans =>
      have hspace : ∀ {c}, isSpace c = true → some c ≠ some '=' := by
        intro c hc heq
        cases heq
        revert hc
        decide
      obtain ⟨gap, hgap, ⟨-, hread, -⟩ | ⟨token, tokens, htoken, -, -, -, -, -, hread⟩⟩ :=
        listReader_eq_ok h
      · rw [hread]
        cases gap with
        | nil => exact hhead
        | cons c gap => exact hspace (hgap c List.mem_cons_self)
      · obtain ⟨c, u, hc, hne, -⟩ := cut?_head (reader_eq_ok htoken).1
        rw [hread, hc]
        cases gap with
        | nil => simpa using hne
        | cons c gap => exact hspace (hgap c List.mem_cons_self)

theorem reads_listReader_close {close gap : Text} (stop : Text) (scans : Nat) {P : Text → Prop}
    (hgap : ∀ c ∈ gap, isSpace c = true)
    (hclose : ∀ rest, P rest → StopsRun isSpace (close ++ rest)) :
    Reads (listReader stop close (scans + 1)) [] (gap ++ close) P := by
  have h : Reads (listReader stop close (scans + 1)) [] (gap ++ (close ++ [])) P := by
    refine (reads_takeWhile hgap).bind ?_ fun rest hrest => by simpa using hclose rest hrest
    refine (reads_skip?_true close P).bind ?_ fun rest hrest => by simpa using hrest
    exact reads_pure [] P
  simpa using h

theorem reads_listReader_cons {stop close gap piece pieces : Text} {scans : Nat}
    {token : ArgumentToken} {tokens : List ArgumentToken} {P Q : Text → Prop}
    (hgap : ∀ c ∈ gap, isSpace c = true) (htoken : Reads (reader stop) token piece Q)
    (htokens : Reads (listReader stop close scans) tokens pieces P)
    (hfollows : ∀ rest, P rest → Q (pieces ++ rest))
    (hahead : ∀ rest, P rest → StopsRun isSpace (piece ++ pieces ++ rest) ∧
      ¬ close <+: piece ++ pieces ++ rest) :
    Reads (listReader stop close (scans + 1)) (token :: tokens) (gap ++ (piece ++ pieces)) P := by
  have h : Reads (listReader stop close (scans + 1)) (token :: tokens)
      (gap ++ ([] ++ (piece ++ (pieces ++ [])))) P := by
    refine (reads_takeWhile hgap).bind ?_ fun rest hrest => by simpa using (hahead rest hrest).1
    refine (reads_skip?_false close).bind ?_ fun rest hrest => by
      simpa using (hahead rest hrest).2
    refine htoken.bind ?_ fun rest hrest => by simpa using hfollows rest hrest
    refine htokens.bind ?_ fun rest hrest => by simpa using hrest
    exact reads_pure (token :: tokens) P
  simpa using h

/-- A list of arguments is read the same whatever follows its close, or if the close begins with an
equals sign, whatever is left of the text that followed it. -/
theorem reads_listReader {stop close t : Text} {scans : Nat} {x : Reading (List ArgumentToken)}
    {P : Text → Prop} (hclose : close ≠ []) (h : listReader stop close scans t = .ok x)
    (hP : ∀ rest, P rest → close.head? ≠ some '=' ∨ rest <+: x.rest) :
    Reads (listReader stop close scans) x.value x.read P := by
  induction scans generalizing t x with
  | zero => cases h
  | succ scans ih =>
      obtain ⟨gap, hgap, ⟨hval, hread, hstop⟩ |
        ⟨token, tokens, htoken, hrest, htokens, hsame, hnone, hval, hread⟩⟩ := listReader_eq_ok h
      · rw [hval, hread]
        exact reads_listReader_close stop scans hgap fun rest _ => hstop.append hclose rest
      · have hne := listReader_read_ne_nil hclose htokens
        obtain ⟨hcut, hclass⟩ := reader_eq_ok htoken
        obtain ⟨d, u, hpiece, -, hspace⟩ := cut?_head hcut
        have hahead : ∀ rest, (tokens.read ++ rest).head? = token.rest.head? := by
          intro rest
          rw [hrest]
          cases hr : tokens.read with
          | nil => exact absurd hr hne
          | cons e v => rfl
        have hreadToken : Reads (reader stop) token.value token.read (fun rest =>
            (token.rest.head? ≠ some '=' ∨ rest <+: token.rest) ∧
              rest.head? = token.rest.head?) :=
          reads_reader (fun rest hr => cut?_append_right hcut hr.1 hr.2) hclass
        have hlong : close.length ≤ (token.read ++ tokens.read).length := by
          have := (listReader_read_suffix htokens).length_le
          rw [List.length_append]
          omega
        rw [← List.append_assoc, prefix_append_iff hlong] at hnone
        rw [hval, hread]
        refine reads_listReader_cons hgap hreadToken (ih htokens ?_) ?_ ?_
        · rwa [hsame]
        · intro rest hr
          refine ⟨?_, hahead rest⟩
          rcases hP rest hr with hhead | hprefix
          · left
            rw [← hahead [], List.append_nil]
            exact listReader_read_head hhead htokens
          · right
            rw [hrest]
            exact (List.prefix_append_right_inj _).mpr hprefix
        · intro rest _
          constructor
          · rw [hpiece]
            exact stopsRun_cons hspace
          · rwa [prefix_append_iff hlong]

end TagTemplate.ArgumentToken

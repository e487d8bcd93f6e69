import TagTemplate.Proofs.Argument.Reader

/-!
# Tokens as they are written

A token in front of a space is cut as it was written. The last token of a tag stands directly in
front of the close, and a bare word goes on into the close as far as the close is made of characters
that a word may hold, and as far as it reads like a value. Then the close is gone.
-/

namespace TagTemplate.ArgumentToken

open Text Reader

/-! ## Texts of tokens -/

def IsQuoted (t : Text) : Prop :=
  ∃ quote inner, isQuote quote = true ∧ quote ∉ inner ∧ t = quote :: inner ++ [quote]

/-- The ways to write an argument. -/
inductive IsWritten : Text → Prop where
  | quoted {t : Text} : IsQuoted t → IsWritten t
  | word {t : Text} : isWord t = true → IsWritten t
  | named {name value : Text} : isWord name = true → IsQuoted value ∨ isWord value = true →
      IsWritten (name ++ '=' :: value)

def EndsQuoted (t : Text) : Prop := ∀ c ∈ t.getLast?, isQuote c = true

theorem isWord_iff_isBare {t : Text} : isWord t = true ↔ t ≠ [] ∧ ∀ c ∈ t, isBare c = true := by
  simp [isWord]

theorem IsQuoted.endsQuoted {t : Text} (h : IsQuoted t) (front : Text) :
    EndsQuoted (front ++ t) := by
  obtain ⟨quote, inner, hquote, -, rfl⟩ := h
  intro c hc
  rw [← List.append_assoc, List.getLast?_concat] at hc
  cases hc
  exact hquote

theorem not_endsQuoted_of_isWord {t : Text} (h : isWord t = true) (front : Text) :
    ¬ EndsQuoted (front ++ t) := by
  obtain ⟨hne, hbare⟩ := isWord_iff_isBare.mp h
  intro hends
  have hmem : t.getLast hne ∈ (front ++ t).getLast? := by
    rw [List.getLast?_append, List.getLast?_eq_some_getLast hne]
    rfl
  have hlast := hends _ hmem
  rw [isQuote_eq_false_of_isBare (hbare _ (List.getLast_mem hne))] at hlast
  cases hlast

/-! ## Cutting -/

section Cut

variable {stop t rest : Text}

theorem cutQuoted?_of_isQuoted (h : IsQuoted t) (rest : Text) :
    cutQuoted? (t ++ rest) = some (t, rest) := by
  obtain ⟨quote, inner, hquote, hmem, rfl⟩ := h
  exact cutQuoted?_eq_some_iff.mpr ⟨quote, inner, hquote, hmem, rfl, rfl⟩

theorem cutWord?_of_isWord (run : Text) (h : isWord t = true) (havoid : ∀ c ∈ t, c ∉ stop)
    (hrun : ∀ c ∈ run, inWord stop c = true) (hstop : StopsRun (inWord stop) rest) :
    cutWord? stop (t ++ (run ++ rest)) = some (t ++ run, rest) := by
  obtain ⟨hne, hbare⟩ := isWord_iff_isBare.mp h
  refine cutWord?_eq_some_iff.mpr ⟨by simp, by simp [hne], ?_, hstop⟩
  intro c hc
  rcases List.mem_append.mp hc with hc | hc
  · simp [inWord, hbare c hc, havoid c hc]
  · exact hrun c hc

theorem stopsRun_equals (stop u : Text) : StopsRun (inWord stop) ('=' :: u) := by
  apply stopsRun_cons
  have hbare : isBare '=' = false := by decide
  simp [inWord, hbare]

theorem cut?_of_name {name u value : Text} (hname : isWord name = true)
    (havoid : ∀ c ∈ name, c ∉ stop) (hvalue : cutValue? stop u = some (value, rest)) :
    cut? stop (name ++ '=' :: u) = some (name ++ '=' :: value, rest) := by
  have hword := cutWord?_of_isWord [] hname havoid nofun (stopsRun_equals stop u)
  rw [List.append_nil] at hword
  exact cut?_eq_some_iff.mpr (.inr (.inr ⟨name, value, u, hword, hvalue, rfl⟩))

/-- A token that ends with a word is cut together with the characters of words that follow it, and
with a value if an equals sign and a value follow them. -/
theorem cut?_of_not_endsQuoted (run : Text) (h : IsWritten t) (havoid : ∀ c ∈ t, c ∉ stop)
    (hbare : ¬ EndsQuoted t) (hrun : ∀ c ∈ run, inWord stop c = true)
    (hstop : StopsRun (inWord stop) rest) :
    cut? stop (t ++ (run ++ rest)) = some (t ++ run, rest) ∨
      ∃ u value v, rest = '=' :: u ∧ cutValue? stop u = some (value, v) ∧
        cut? stop (t ++ (run ++ rest)) = some (t ++ run ++ '=' :: value, v) := by
  cases h with
  | quoted hquoted => exact absurd (hquoted.endsQuoted []) hbare
  | word hword =>
      have hcut := cutWord?_of_isWord run hword havoid hrun hstop
      by_cases hequals : ∃ u, rest = '=' :: u
      · obtain ⟨u, rfl⟩ := hequals
        cases hv : cutValue? stop u with
        | none =>
            refine .inl (cut?_eq_some_iff.mpr (.inr (.inl ⟨hcut, ?_⟩)))
            intro u' heq
            cases heq
            exact hv
        | some parts =>
            exact .inr ⟨u, parts.1, parts.2, rfl, hv,
              cut?_eq_some_iff.mpr (.inr (.inr ⟨_, _, _, hcut, hv, rfl⟩))⟩
      · exact .inl (cut?_eq_some_iff.mpr
          (.inr (.inl ⟨hcut, fun u heq => absurd ⟨u, heq⟩ hequals⟩)))
  | @named name value hname hval =>
      have hword : isWord value = true := by
        refine hval.resolve_left fun hquoted => hbare ?_
        simpa using hquoted.endsQuoted (name ++ ['='])
      have havoidValue : ∀ c ∈ value, c ∉ stop := fun c hc => havoid c (by simp [hc])
      have hcut := cut?_of_name hname (fun c hc => havoid c (by simp [hc]))
        (cutValue?_eq_some_iff.mpr (.inr (cutWord?_of_isWord run hword havoidValue hrun hstop)))
      exact .inl (by simpa using hcut)

/-- A token that ends with a quote is cut as it was written in front of any text. -/
theorem cut?_of_endsQuoted (h : IsWritten t) (havoid : ∀ c ∈ t, c ∉ stop) (hends : EndsQuoted t)
    (rest : Text) : cut? stop (t ++ rest) = some (t, rest) := by
  cases h with
  | quoted h => exact cut?_eq_some_iff.mpr (.inl (cutQuoted?_of_isQuoted h rest))
  | word hword => exact absurd hends (not_endsQuoted_of_isWord hword [])
  | @named name value hname hval =>
      have hvalue : IsQuoted value := by
        refine hval.resolve_right fun hword => ?_
        have hno := not_endsQuoted_of_isWord hword (name ++ ['='])
        rw [List.append_assoc] at hno
        exact hno hends
      have hcutValue : cutValue? stop (value ++ rest) = some (value, rest) :=
        cutValue?_eq_some_iff.mpr (.inl (cutQuoted?_of_isQuoted hvalue rest))
      have hcut := cut?_of_name hname (fun c hc => havoid c (by simp [hc])) hcutValue
      simpa using hcut

/-- Other tokens are cut as they were written in front of what neither goes on with a word nor gives
it a value. -/
theorem cut?_of_isWritten (h : IsWritten t) (havoid : ∀ c ∈ t, c ∉ stop)
    (hstop : StopsRun (inWord stop) rest)
    (hvalue : ∀ u, rest = '=' :: u → cutValue? stop u = none) :
    cut? stop (t ++ rest) = some (t, rest) := by
  by_cases hends : EndsQuoted t
  · exact cut?_of_endsQuoted h havoid hends rest
  · rcases cut?_of_not_endsQuoted [] h havoid hends nofun hstop with hcut | ⟨u, value, v, hu, hv, -⟩
    · simpa using hcut
    · rw [hvalue u hu] at hv
      cases hv

theorem exists_cut?_past {c : Char} (h : IsWritten t) (havoid : ∀ c ∈ t, c ∉ stop)
    (hbare : ¬ EndsQuoted t) (hc : inWord stop c = true) (rest : Text) :
    ∃ past u, past ≠ [] ∧ cut? stop (t ++ c :: rest) = some (t ++ past, u) := by
  have hsplit : (c :: rest).takeWhile (inWord stop) ++ (c :: rest).dropWhile (inWord stop) =
      c :: rest := List.takeWhile_append_dropWhile
  have hne : (c :: rest).takeWhile (inWord stop) ≠ [] := by simp [hc]
  rcases cut?_of_not_endsQuoted _ h havoid hbare (fun _ => List.mem_takeWhile_imp)
    (stopsRun_dropWhile (inWord stop) (c :: rest)) with hcut | ⟨u, value, v, -, -, hcut⟩
  · rw [hsplit] at hcut
    exact ⟨_, _, hne, hcut⟩
  · rw [hsplit, List.append_assoc] at hcut
    exact ⟨_, v, by simp, hcut⟩

end Cut

/-! ## Lists -/

def written (tokens : List Text) : Text := tokens.flatMap (' ' :: ·)

theorem IsWritten.head {t : Text} (h : IsWritten t) : ∃ c u, t = c :: u ∧ isSpace c = false := by
  have hcut : cut? [] (t ++ []) = some (t, []) := cut?_of_isWritten h nofun nofun nofun
  obtain ⟨c, u, ht, -, hc⟩ := cut?_head hcut
  exact ⟨c, u, ht, hc⟩

/-- The token can be told from the close and holds no character at which words stop. -/
structure Fits (stop close t : Text) : Prop where
  isWritten : IsWritten t
  avoids_stop : ∀ c ∈ t, c ∉ stop
  avoids_close : ∀ c ∈ close.head?, c ∉ t

section List

variable {stop close t : Text} {tokens : List Text}

theorem Fits.ahead (h : Fits stop close t) (hclose : close ≠ []) (rest : Text) :
    StopsRun isSpace (t ++ rest) ∧ ¬ close <+: t ++ rest := by
  obtain ⟨c, u, rfl, hc⟩ := h.isWritten.head
  obtain ⟨e, v, rfl⟩ := List.exists_cons_of_ne_nil hclose
  refine ⟨stopsRun_cons hc, not_prefix_of_head ?_⟩
  intro _ h' heq
  cases h'
  exact h.avoids_close e rfl (by simp [heq])

theorem exists_reads_of_cut? {piece rest : Text}
    (hcut : cut? stop (piece ++ rest) = some (piece, rest)) :
    ∃ token, classify? piece = some token ∧ Reads (reader stop) token piece (· = rest) := by
  obtain ⟨token, htoken⟩ := Option.isSome_iff_exists.mp (isSome_classify?_of_cut? hcut)
  refine ⟨token, htoken, reads_reader ?_ htoken⟩
  intro _ heq
  rw [heq]
  exact hcut

theorem Fits.cut?_space (h : Fits stop close t) (rest : Text) :
    cut? stop (t ++ ' ' :: rest) = some (t, ' ' :: rest) := by
  have hspace : isBare ' ' = false := by decide
  exact cut?_of_isWritten h.isWritten h.avoids_stop (stopsRun_cons (by simp [inWord, hspace])) nofun

theorem written_cons (t : Text) (tokens : List Text) (rest : Text) :
    written (t :: tokens) ++ rest = [' '] ++ (t ++ (written tokens ++ rest)) := by
  simp [written]

/-- Tokens are read as they were written if the last one is cut so in front of the close. -/
theorem reads_listReader_written {scans : Nat} (hclose : close ≠ [])
    (hspace : StopsRun isSpace close) (h : ∀ t ∈ tokens, Fits stop close t)
    (hlast : ∀ t ∈ tokens.getLast?, cut? stop (t ++ close) = some (t, close))
    (hscans : tokens.length < scans) :
    Reads (listReader stop close scans) (tokens.filterMap classify?) (written tokens ++ close)
      (· = []) := by
  induction tokens generalizing scans with
  | nil =>
      obtain ⟨scans, rfl⟩ := Nat.exists_eq_add_one.mpr hscans
      have hgap : ∀ c ∈ ([] : Text), isSpace c = true := nofun
      refine reads_listReader_close stop scans hgap ?_
      intro rest hrest
      rw [hrest, List.append_nil]
      exact hspace
  | cons t tokens ih =>
      obtain ⟨hfit, hfits⟩ := List.forall_mem_cons.mp h
      obtain ⟨scans, rfl⟩ := Nat.exists_eq_add_one.mpr (Nat.zero_lt_of_lt hscans)
      have hcut : cut? stop (t ++ (written tokens ++ close)) =
          some (t, written tokens ++ close) := by
        cases tokens with
        | nil => exact hlast t rfl
        | cons t' tokens => exact hfit.cut?_space _
      obtain ⟨token, hclass, hreads⟩ := exists_reads_of_cut? hcut
      have hrest := ih hfits (fun s hs => hlast s (List.mem_getLast?_cons hs))
        (Nat.lt_of_succ_lt_succ hscans)
      rw [written_cons, List.filterMap_cons_some hclass]
      refine reads_listReader_cons (List.forall_mem_singleton.mpr rfl) hreads hrest ?_ ?_
      · intro rest hnil
        rw [hnil, List.append_nil]
      · intro rest _
        rw [List.append_assoc]
        exact hfit.ahead hclose _

/-! ## A close that is gone -/

theorem stops_listReader_of_length {t : Text} (scans : Nat) (h : t.length < close.length) :
    Stops (listReader stop close scans) t .unclosedTag := by
  cases hx : listReader stop close scans t with
  | error s =>
      have hfaults : FaultsIn (· = .unclosedTag) (listReader stop close scans) :=
        faultsIn_listReader stop close scans rfl
      exact ⟨s, hx, hfaults.fault hx⟩
  | ok x =>
      have hread := (listReader_read_suffix hx).length_le
      have happ := congrArg List.length ((listReader_faithful stop close scans).append hx)
      rw [List.length_append] at happ
      omega

theorem stops_listReader_cons {gap piece rest : Text} {scans : Nat} {token : ArgumentToken}
    (hgap : ∀ c ∈ gap, isSpace c = true) (htoken : Reads (reader stop) token piece (· = rest))
    (hahead : StopsRun isSpace (piece ++ rest) ∧ ¬ close <+: piece ++ rest)
    (hrest : Stops (listReader stop close scans) rest .unclosedTag) :
    Stops (listReader stop close (scans + 1)) (gap ++ (piece ++ rest)) .unclosedTag := by
  refine (reads_takeWhile hgap).bind_stops hahead.1 ?_
  refine (reads_skip?_false close).bind_stops hahead.2 ?_
  exact htoken.bind_stops rfl hrest.bind

/-- If the last token is cut beyond its end, the tag is not closed: the cut takes the beginning of
the close, and the rest of it is no close. -/
theorem stops_listReader_written (scans : Nat) (hclose : close ≠ [])
    (h : ∀ t ∈ tokens, Fits stop close t)
    (hlast : ∃ t ∈ tokens.getLast?, ∃ past u, past ≠ [] ∧
      cut? stop (t ++ close) = some (t ++ past, u)) :
    Stops (listReader stop close scans) (written tokens ++ close) .unclosedTag := by
  induction tokens generalizing scans with
  | nil =>
      obtain ⟨t, ht, -⟩ := hlast
      cases ht
  | cons t tokens ih =>
      obtain ⟨hfit, hfits⟩ := List.forall_mem_cons.mp h
      have hgap : ∀ c ∈ [' '], isSpace c = true := List.forall_mem_singleton.mpr rfl
      rw [written_cons]
      cases scans with
      | zero => exact ⟨_, rfl, rfl⟩
      | succ scans =>
          cases tokens with
          | nil =>
              obtain ⟨last, ht, past, u, hpast, hcut⟩ := hlast
              obtain rfl : t = last := by simpa using ht
              have happ := cut?_append hcut
              have hsplit : close = past ++ u := by simpa using happ.symm
              have hshort : u.length < close.length := by
                have := List.length_pos_iff.mpr hpast
                rw [hsplit, List.length_append]
                omega
              have hahead := hfit.ahead hclose close
              rw [← happ] at hcut hahead
              obtain ⟨token, -, hreads⟩ := exists_reads_of_cut? hcut
              have hwhole : t ++ (written [] ++ close) = t ++ past ++ u := happ.symm
              rw [hwhole]
              exact stops_listReader_cons hgap hreads hahead
                (stops_listReader_of_length scans hshort)
          | cons t' tokens =>
              obtain ⟨token, -, hreads⟩ := exists_reads_of_cut? (hfit.cut?_space _)
              refine stops_listReader_cons hgap hreads (hfit.ahead hclose _) (ih scans hfits ?_)
              simpa using hlast

end List

end TagTemplate.ArgumentToken

import TagTemplate.Proofs.LineEnding.Text
import TagTemplate.Proofs.Tag.Reader

/-!
# Reading tags in both spellings

`Mirrors f r r'` says that where `r` reads a text, `r'` reads the same text with its line ends
spelled out, and makes of it what `f` makes of the first value, or stops with the same fault at the
same place. Readings in sequence mirror each other if their parts do. Every reader of tags mirrors
itself, with the values mapped where they hold free text.
-/

namespace TagTemplate

open Text

/-! ## Readers -/

section

variable {α β γ δ : Type}

@[simp] theorem mapError_ok (f : α → β) (c : γ) : (Except.ok c).mapError f = .ok c := rfl

@[simp] theorem mapError_error (f : α → β) (a : α) :
    (Except.error a : Except α γ).mapError f = .error (f a) := rfl

/-- The same reading in the other spelling. -/
def Reading.withCrlf (f : α → β) (x : Reading α) : Reading β :=
  ⟨f x.value, crlf x.read, crlf x.rest⟩

def Stop.withCrlf (stop : Stop) : Stop := { stop with read := crlf stop.read }

namespace Reader

/-- The second reader makes of a text with its line ends spelled out what the first one makes of the
text. -/
def Mirrors (f : α → β) (r : Reader α) (r' : Reader β) : Prop :=
  ∀ t, r' (crlf t) = ((r t).map (Reading.withCrlf f)).mapError Stop.withCrlf

variable {f : α → β} {g : γ → δ} {r : Reader α} {r' : Reader β}

theorem Mirrors.bind {next : α → Reader γ} {next' : β → Reader δ} (hfirst : Mirrors f r r')
    (hnext : ∀ a, Mirrors g (next a) (next' (f a))) : Mirrors g (r >>= next) (r' >>= next') := by
  intro t
  change Reader.bind r' next' (crlf t) = ((Reader.bind r next t).map _).mapError _
  unfold Reader.bind
  rw [hfirst t]
  cases r t with
  | error stop => rfl
  | ok a =>
      have hrest := hnext a.value a.rest
      dsimp only [Except.map, mapError_ok, Reading.withCrlf]
      rw [hrest]
      cases next a.value a.rest with
      | error stop => simp [Except.map, Stop.withCrlf]
      | ok b => simp [Except.map, Reading.withCrlf]

theorem mirrors_pure (f : α → β) (value : α) : Mirrors f (pure value) (pure (f value)) :=
  fun _ => rfl

theorem mirrors_fail (f : α → β) (fault : Fault) : Mirrors f (fail fault) (fail fault) :=
  fun _ => rfl

theorem mirrors_ite {c : Prop} [Decidable c] {s : Reader α} {s' : Reader β} (hr : Mirrors f r r')
    (hs : Mirrors f s s') : Mirrors f (if c then r else s) (if c then r' else s') := by
  split
  · exact hr
  · exact hs

theorem mirrors_takeWhile {p : Char → Bool} (hp : p '\r' = p '\n') :
    Mirrors crlf (takeWhile p) (takeWhile p) := by
  intro t
  simp [takeWhile, takeWhile_crlf hp, dropWhile_crlf hp, Except.map, Reading.withCrlf]

/-- A run that ends before a line feed is the same value in both spellings. -/
theorem mirrors_takeWhile_eq {p : Char → Bool} (hp : p '\r' = p '\n') (hn : p '\n' = false) :
    Mirrors (fun run => run) (takeWhile p) (takeWhile p) := by
  intro t
  have hsame : crlf (t.takeWhile p) = t.takeWhile p :=
    crlf_of_forall hn fun _ => List.mem_takeWhile_imp
  simp [takeWhile, takeWhile_crlf hp, dropWhile_crlf hp, Except.map, Reading.withCrlf, hsame]

theorem mirrors_spaces : Mirrors crlf spaces spaces := mirrors_takeWhile isSpace_return

theorem mirrors_skip? {piece : Text} (h : IsInline piece) :
    Mirrors id (skip? piece) (skip? piece) := by
  intro t
  unfold skip?
  rw [isPrefixOf_crlf h]
  split
  · rename_i hpiece
    simp [Except.map, Reading.withCrlf, h.crlf_eq,
      drop_crlf h (List.isPrefixOf_iff_prefix.mp hpiece)]
  · simp [Except.map, Reading.withCrlf]

theorem mirrors_expect {piece : Text} (h : IsInline piece) (fault : Fault) :
    Mirrors id (expect piece fault) (expect piece fault) :=
  (mirrors_skip? h).bind fun _ => mirrors_ite (mirrors_fail id fault) (mirrors_pure id ())

theorem mirrors_cutting {cut : Text → Option (Text × Text)} (fault : Fault)
    (h : ∀ t, cut (crlf t) = (cut t).map fun parts => (crlf parts.1, crlf parts.2)) :
    Mirrors crlf (cutting cut fault) (cutting cut fault) := by
  intro t
  unfold cutting
  rw [h]
  cases cut t with
  | none => rfl
  | some parts => rfl

end Reader

end

/-! ## Arguments -/

def Value.withCrlf : Value → Value
  | quoted text => quoted (crlfString text)
  | number numeral => number numeral
  | path p => path p

def ArgumentToken.withCrlf : ArgumentToken → ArgumentToken
  | positional value => positional value.withCrlf
  | named name value => named name value.withCrlf

namespace ArgumentToken

theorem isBare_newline : isBare '\n' = false := by decide

theorem isBare_return : isBare '\r' = isBare '\n' := by decide

/-- A literal reaches to the same quote in both spellings. -/
theorem literal_crlf {quote : Char} (h : isQuote quote = true) (t : Text) :
    (crlf t).takeWhile (· != quote) = crlf (t.takeWhile (· != quote)) ∧
      (crlf t).dropWhile (· != quote) = crlf (t.dropWhile (· != quote)) := by
  have hp : ('\r' != quote) = ('\n' != quote) := by
    simp only [isQuote, Bool.or_eq_true, beq_iff_eq] at h
    rcases h with rfl | rfl
    · rfl
    · rfl
  exact ⟨@takeWhile_crlf (· != quote) hp t, @dropWhile_crlf (· != quote) hp t⟩

theorem cutQuoted?_crlf (t : Text) :
    cutQuoted? (crlf t) = (cutQuoted? t).map fun parts => (crlf parts.1, crlf parts.2) := by
  fun_cases crlf t with
  | case1 => rfl
  | case2 t => rfl
  | case3 quote t hne =>
      simp only [cutQuoted?]
      split
      · rename_i hquote
        rw [(literal_crlf hquote t).1, (literal_crlf hquote t).2]
        cases hd : t.dropWhile (· != quote) with
        | nil => rfl
        | cons c rest =>
            obtain rfl : c = quote := by
              have hhead := stopsRun_dropWhile (· != quote) t c (by rw [hd]; rfl)
              simpa using hhead
            simp [crlf_cons hne]
      · rfl

theorem cutWord?_crlf (stop t : Text) :
    cutWord? stop (crlf t) = (cutWord? stop t).map fun parts => (crlf parts.1, crlf parts.2) := by
  have hn : inWord stop '\n' = false := by simp [inWord, isBare_newline]
  have hp : inWord stop '\r' = inWord stop '\n' := by simp [inWord, isBare_return, isBare_newline]
  have hclass : (fun c => isBare c && ! stop.contains c) = inWord stop := rfl
  have hword : crlf (t.takeWhile (inWord stop)) = t.takeWhile (inWord stop) :=
    crlf_of_forall hn fun _ => List.mem_takeWhile_imp
  simp only [cutWord?, hclass, takeWhile_crlf_eq hp hn, dropWhile_crlf hp]
  cases hw : t.takeWhile (inWord stop) with
  | nil => rfl
  | cons c word =>
      rw [hw] at hword
      simp [hword]

theorem cutValue?_crlf (stop t : Text) :
    cutValue? stop (crlf t) = (cutValue? stop t).map fun parts => (crlf parts.1, crlf parts.2) := by
  unfold cutValue?
  rw [cutQuoted?_crlf, cutWord?_crlf]
  cases cutQuoted? t with
  | none => rfl
  | some parts => rfl

theorem cut?_of_equals {stop t name u : Text} (h : cutWord? stop t = some (name, '=' :: u)) :
    cut? stop t = some (match cutValue? stop u with
      | some (value, rest) => (name ++ '=' :: value, rest)
      | none => (name, '=' :: u)) := by
  cases hv : cutValue? stop u with
  | none => simp [cut?, h, hv]
  | some parts => simp [cut?, h, hv]

theorem cut?_of_ne {stop t : Text} (h : ∀ name u, cutWord? stop t ≠ some (name, '=' :: u)) :
    cut? stop t = cutValue? stop t := by
  unfold cut?
  split
  · rename_i name u hw
    exact absurd hw (h name u)
  · rfl

theorem cut?_crlf (stop t : Text) :
    cut? stop (crlf t) = (cut? stop t).map fun parts => (crlf parts.1, crlf parts.2) := by
  by_cases h : ∃ name u, cutWord? stop t = some (name, '=' :: u)
  · obtain ⟨name, u, h⟩ := h
    have h' : cutWord? stop (crlf t) = some (crlf name, '=' :: crlf u) := by
      rw [cutWord?_crlf, h]
      rfl
    rw [cut?_of_equals h, cut?_of_equals h', cutValue?_crlf]
    cases cutValue? stop u with
    | none => rfl
    | some parts => simp [crlf_cons]
  · have h' : ∀ name u, cutWord? stop (crlf t) ≠ some (name, '=' :: u) := by
      intro name u hw
      rw [cutWord?_crlf] at hw
      obtain ⟨parts, hparts, heq⟩ := Option.map_eq_some_iff.mp hw
      obtain ⟨-, hrest⟩ := Prod.mk.inj heq
      obtain ⟨v, hv, -⟩ := (crlf_eq_cons_iff (by decide) (by decide)).mp hrest
      exact h ⟨parts.1, v, by rw [hparts, ← hv]⟩
    rw [cut?_of_ne h', cutValue?_crlf, cut?_of_ne fun name u hw => h ⟨name, u, hw⟩]

/-! ## Classifying tokens -/

theorem unquoted?_crlf (t : Text) : unquoted? (crlf t) = (unquoted? t).map crlf := by
  fun_cases crlf t with
  | case1 => rfl
  | case2 t => rfl
  | case3 quote t hne =>
      cases hquote : isQuote quote with
      | false => simp [unquoted?, hquote]
      | true =>
          have hreturn : quote ≠ '\r' := by
            rintro rfl
            cases hquote
          have hend : ∀ u : Text, (crlf u == [quote]) = (u == [quote]) := by
            intro u
            rw [Bool.eq_iff_iff, beq_iff_eq, beq_iff_eq, crlf_eq_cons_iff hreturn hne]
            simp
          simp only [unquoted?, hquote, (literal_crlf hquote t).1, (literal_crlf hquote t).2, hend]
          split
          · rfl
          · rfl

theorem isWord_crlf (t : Text) : isWord (crlf t) = isWord t := by
  rw [isWord, all_crlf isBare_return, isEmpty_crlf, isWord]

theorem crlf_of_isWord {t : Text} (h : isWord t = true) : crlf t = t := by
  simp only [isWord, Bool.and_eq_true, List.all_eq_true] at h
  exact crlf_of_forall isBare_newline h.2

theorem valueOf?_crlf (isNumeral : Text → Bool) (t : Text) :
    valueOf? isNumeral (crlf t) = (valueOf? isNumeral t).map Value.withCrlf := by
  unfold valueOf?
  rw [unquoted?_crlf, isWord_crlf]
  cases unquoted? t with
  | some inner => simp [Value.withCrlf]
  | none =>
      cases hword : isWord t with
      | false => rfl
      | true =>
          rw [crlf_of_isWord hword]
          cases isNumeral t with
          | false => rfl
          | true => rfl

theorem classify?_crlf (t : Text) : classify? (crlf t) = (classify? t).map withCrlf := by
  have hpositional : (positionalValue? (crlf t)).map positional =
      ((positionalValue? t).map positional).map withCrlf := by
    rw [positionalValue?_eq, positionalValue?_eq, valueOf?_crlf, Option.map_map, Option.map_map]
    rfl
  have hnamed : ∀ (name : Text) (value : Text),
      (namedValue? (crlf value)).map (named (String.ofList name)) =
        ((namedValue? value).map (named (String.ofList name))).map withCrlf := by
    intro name value
    rw [namedValue?_eq, namedValue?_eq, valueOf?_crlf, Option.map_map, Option.map_map]
    rfl
  unfold classify?
  rw [takeWhile_crlf_eq isBare_return isBare_newline, dropWhile_crlf isBare_return]
  dsimp only
  split
  · rename_i c word value hw hd
    obtain ⟨v, hv, rfl⟩ := (crlf_eq_cons_iff (by decide) (by decide)).mp hd
    rw [hv, hw]
    exact hnamed _ v
  · rename_i hno
    rw [hpositional]
    split
    · rename_i c word value hw hd
      refine absurd ?_ (hno c word (crlf value) hw)
      simp [hd, crlf_cons]
    · rfl

theorem mirrors_reader (stop : Text) : Reader.Mirrors withCrlf (reader stop) (reader stop) := by
  refine (Reader.mirrors_cutting _ (cut?_crlf stop)).bind ?_
  intro token
  rw [classify?_crlf]
  cases classify? token with
  | none => exact Reader.mirrors_fail _ _
  | some argument => exact Reader.mirrors_pure withCrlf argument

theorem mirrors_listReader {stop close : Text} (h : IsInline close) (scans : Nat) :
    Reader.Mirrors (List.map withCrlf) (listReader stop close scans)
      (listReader stop close scans) := by
  induction scans with
  | zero => exact Reader.mirrors_fail _ _
  | succ scans ih =>
      exact Reader.mirrors_spaces.bind fun _ => (Reader.mirrors_skip? h).bind fun closed =>
        Reader.mirrors_ite (Reader.mirrors_pure (List.map withCrlf) []) <|
          (mirrors_reader stop).bind fun token => ih.bind fun tokens =>
            Reader.mirrors_pure (List.map withCrlf) (token :: tokens)

end ArgumentToken

end TagTemplate

import TagTemplate.Argument.Basic

/-!
# Argument tokens

A token is one argument as it is written: a value, or a name and a value with an equals sign
between them. A value is a quoted literal or a bare word. `cut?` cuts a token off the text
ahead, where a bare word also stops at every character of the closing marker; `classify?` reads
a whole token.
-/

namespace TagTemplate

inductive ArgumentToken where
  | positional (value : Value)
  | named (name : String) (value : Value)
deriving DecidableEq, Repr, Inhabited

namespace ArgumentToken

def isBare (c : Char) : Bool := ! isSpace c && c != '"' && c != '\'' && c != '='

/-- The two quotes. A literal ends at the next quote of its own kind. -/
def isQuote (c : Char) : Bool := c == '"' || c == '\''

def isNumeric (c : Char) : Bool := c.isDigit || c == '.'

/-! ## Cutting -/

def cutQuoted? : Text → Option (Text × Text)
  | [] => none
  | quote :: t =>
      if isQuote quote then
        match t.dropWhile (· != quote) with
        | [] => none
        | _ :: rest => some (quote :: t.takeWhile (· != quote) ++ [quote], rest)
      else none

def cutWord? (stop t : Text) : Option (Text × Text) :=
  let p := fun c => isBare c && ! stop.contains c
  match t.takeWhile p with
  | [] => none
  | word => some (word, t.dropWhile p)

def cutValue? (stop t : Text) : Option (Text × Text) :=
  match cutQuoted? t with
  | some cut => some cut
  | none => cutWord? stop t

/-- Cut off a token. A word before an equals sign is a name only if a value comes after. -/
def cut? (stop t : Text) : Option (Text × Text) :=
  match cutWord? stop t with
  | some (name, '=' :: t') =>
      match cutValue? stop t' with
      | some (value, rest) => some (name ++ '=' :: value, rest)
      | none => some (name, '=' :: t')
  | _ => cutValue? stop t

theorem cutQuoted?_append {t piece rest : Text} (h : cutQuoted? t = some (piece, rest)) :
    piece ++ rest = t := by
  cases t with
  | nil => simp [cutQuoted?] at h
  | cons quote t =>
      simp only [cutQuoted?] at h
      split at h
      · split at h
        · simp at h
        · rename_i c r hd
          have hc : c = quote := by
            have := List.head?_dropWhile_not (· != quote) t
            simpa [hd] using this
          simp only [Option.some.injEq, Prod.mk.injEq] at h
          obtain ⟨rfl, rfl⟩ := h
          subst hc
          have := List.takeWhile_append_dropWhile (p := (· != c)) (l := t)
          rw [hd] at this
          simpa using this
      · simp at h

theorem cutWord?_append {stop t piece rest : Text} (h : cutWord? stop t = some (piece, rest)) :
    piece ++ rest = t := by
  simp only [cutWord?] at h
  split at h
  · simp at h
  · simp only [Option.some.injEq, Prod.mk.injEq] at h
    obtain ⟨rfl, rfl⟩ := h
    exact List.takeWhile_append_dropWhile

theorem cutValue?_append {stop t piece rest : Text} (h : cutValue? stop t = some (piece, rest)) :
    piece ++ rest = t := by
  unfold cutValue? at h
  split at h
  · rename_i cut hq
    exact cutQuoted?_append (hq.trans h)
  · exact cutWord?_append h

theorem cut?_append {stop t piece rest : Text} (h : cut? stop t = some (piece, rest)) :
    piece ++ rest = t := by
  unfold cut? at h
  split at h
  · rename_i name t' hw
    have hn := cutWord?_append hw
    split at h
    · rename_i value r hv
      have := cutValue?_append hv
      simp only [Option.some.injEq, Prod.mk.injEq] at h
      obtain ⟨rfl, rfl⟩ := h
      simp [← hn, ← this]
    · simp only [Option.some.injEq, Prod.mk.injEq] at h
      obtain ⟨rfl, rfl⟩ := h
      exact hn
  · exact cutValue?_append h

/-! ## Classifying -/

def unquoted? : Text → Option Text
  | [] => none
  | quote :: t =>
      if isQuote quote && t.dropWhile (· != quote) == [quote] then some (t.takeWhile (· != quote))
      else none

def isWord (t : Text) : Bool := ! t.isEmpty && t.all isBare

/-- The value of a positional token: a word of digits and dots alone is a number. -/
def positionalValue? (t : Text) : Option Value :=
  match unquoted? t with
  | some inner => some (.quoted (String.ofList inner))
  | none =>
      if ! isWord t then none
      else if t.all isNumeric then some (.number (String.ofList t))
      else some (.path (.ofText t))

/-- The value of a named token: a word that ends in a digit or a dot is a number. -/
def namedValue? (t : Text) : Option Value :=
  match unquoted? t with
  | some inner => some (.quoted (String.ofList inner))
  | none =>
      if ! isWord t then none
      else if t.getLast?.any isNumeric then some (.number (String.ofList t))
      else some (.path (.ofText t))

/-- The argument that a token spells, its name being what stands before the first equals sign. -/
def classify? (t : Text) : Option ArgumentToken :=
  let word := t.takeWhile isBare
  match word, t.dropWhile isBare with
  | _ :: _, '=' :: value => (namedValue? value).map (named (String.ofList word))
  | _, _ => (positionalValue? t).map positional

example : classify? "size=h1".toList = some (named "size" (.number "h1")) := by decide

example : classify? "1st".toList = some (positional (.path ⟨["1st"]⟩)) := by decide

end ArgumentToken

/-- The arguments of a tag: positional values in order, then all named values together. -/
def Argument.ofTokens (tokens : List ArgumentToken) : List Argument :=
  let positional := tokens.filterMap fun
    | .positional value => some (.positional value)
    | .named _ _ => none
  let entries := tokens.filterMap fun
    | .positional _ => none
    | .named name value => some (name, value)
  match entries with
  | [] => positional
  | entries => positional ++ [.named ⟨entries⟩]

end TagTemplate

import Mathlib.Data.List.TakeWhile
import TagTemplate.Proofs.Argument.Spelling

/-!
# The grammar of tokens

What a token spells can be told by a grammar with ordered choice. The first alternative that
succeeds is taken, and a repetition takes as much as it can and gives nothing back. The grammar
parses exactly the texts that are classified, and makes the same of them.
-/

namespace TagTemplate

open Text

/-! ## Rules -/

/-- A rule reads something off the front of a text, or fails. -/
abbrev Rule (α : Type) := StateT Text Option α

namespace Rule

variable {α : Type}

def char (p : Char → Bool) : Rule Char
  | [] => none
  | c :: t => if p c then some (c, t) else none

def any : Rule Char := char fun _ => true

def atEnd : Rule Unit
  | [] => some ((), [])
  | _ :: _ => none

/-- Read nothing, and fail where the rule does not. -/
def notAhead (r : Rule α) : Rule Unit := fun t =>
  match r t with
  | some _ => none
  | none => some ((), t)

/-- Read as often as the rule does not fail, but no more than once where it takes nothing. -/
def many (r : Rule α) : Rule (List α) := fun t =>
  match r t with
  | none => some ([], t)
  | some (a, u) =>
      if u.length < t.length then (many r u).map fun (as, v) => (a :: as, v) else some ([a], u)
termination_by t => t.length

def manyOne (r : Rule α) : Rule (List α) := do
  let a ← r
  let as ← many r
  return a :: as

/-- Read up to the end of the text. -/
def whole (r : Rule α) : Rule α := do
  let a ← r
  atEnd
  return a

/-! ## Runs of a rule -/

section Runs

variable {β : Type} {r : Rule α} {f : α → Rule β} {a : α} {t u : Text}

theorem bind_of_some (h : r t = some (a, u)) : (r >>= f) t = f a u := by
  change (r t).bind (fun x => f x.1 x.2) = _
  rw [h, Option.bind_some]

theorem bind_of_none (h : r t = none) : (r >>= f) t = none := by
  change (r t).bind (fun x => f x.1 x.2) = _
  rw [h, Option.bind_none]

theorem orElse_apply (r s : Rule α) (t : Text) : (r <|> s) t = (r t).or (s t) := by
  change (r t).orElse (fun _ => s t) = _
  cases r t with
  | none => rfl
  | some x => rfl

theorem map_apply (g : α → β) (r : Rule α) (t : Text) :
    (g <$> r) t = (r t).map fun x => (g x.1, x.2) := by
  change (r t).bind (fun x => some (g x.1, x.2)) = _
  cases r t with
  | none => rfl
  | some x => rfl

theorem whole_of_none (h : r t = none) : whole r t = none := bind_of_none h

theorem whole_of_some (h : r t = some (a, u)) :
    whole r t = if u = [] then some (a, []) else none := by
  rw [whole, bind_of_some h]
  cases u with
  | nil => rfl
  | cons c u => rfl

theorem many_of_none (h : r t = none) : many r t = some ([], t) := by
  rw [many, h]

theorem many_of_some (h : r t = some (a, u)) (hlt : u.length < t.length) :
    many r t = (many r u).map fun (as, v) => (a :: as, v) := by
  rw [many, h]
  exact if_pos hlt

end Runs

/-! ## Classes -/

section Classes

variable {p q : Char → Bool} {c : Char} {t : Text}

theorem char_of_pos (h : p c = true) : char p (c :: t) = some (c, t) := if_pos h

theorem char_of_neg (h : p c = false) : char p (c :: t) = none := by
  rw [char, h]
  rfl

theorem char_of_stopsRun (h : StopsRun p t) : char p t = none := by
  cases t with
  | nil => rfl
  | cons c t => exact char_of_neg (h c rfl)

theorem char_orElse (p q : Char → Bool) : (char p <|> char q) = char fun c => p c || q c := by
  funext t
  rw [orElse_apply]
  cases t with
  | nil => rfl
  | cons c t => cases hp : p c <;> cases hq : q c <;> simp [char, hp, hq]

theorem notAhead_char_any (p : Char → Bool) :
    (do notAhead (char p); any) = char fun c => ! p c := by
  funext t
  cases t with
  | nil => rfl
  | cons c t =>
      cases hp : p c with
      | false =>
          have hahead : notAhead (char p) (c :: t) = some ((), c :: t) := by
            rw [notAhead, char_of_neg hp]
          rw [bind_of_some hahead, char_of_pos (by rw [hp]; rfl)]
          rfl
      | true =>
          have hahead : notAhead (char p) (c :: t) = none := by rw [notAhead, char_of_pos hp]
          rw [bind_of_none hahead, char_of_neg (by rw [hp]; rfl)]

theorem many_char (p : Char → Bool) (t : Text) :
    many (char p) t = some (t.takeWhile p, t.dropWhile p) := by
  induction t with
  | nil => exact many_of_none rfl
  | cons c t ih =>
      cases hp : p c with
      | false => rw [many_of_none (char_of_neg hp)]; simp [hp]
      | true =>
          rw [many_of_some (char_of_pos hp) (Nat.lt_succ_self _), ih]
          simp [hp]

theorem manyOne_char (p : Char → Bool) (t : Text) :
    manyOne (char p) t =
      if t.takeWhile p = [] then none else some (t.takeWhile p, t.dropWhile p) := by
  cases t with
  | nil => rfl
  | cons c t =>
      cases hp : p c with
      | false => rw [manyOne, bind_of_none (char_of_neg hp)]; simp [hp]
      | true =>
          rw [manyOne, bind_of_some (char_of_pos hp), bind_of_some (many_char p t)]
          simp [hp]
          rfl

end Classes

end Rule

namespace ArgumentToken.Grammar

open Rule

/-! ## The grammar -/

def quotedIn (quote : Char) : Rule Text := do
  let _ ← char (· == quote)
  let inner ← many do
    notAhead (char (· == quote))
    any
  let _ ← char (· == quote)
  return inner

def quoted : Rule Text := quotedIn '"' <|> quotedIn '\''

def bare : Rule Char := do
  notAhead (char (· == '=') <|> char (· == '"') <|> char (· == '\'') <|> char isSpace)
  any

def digitOrDot : Rule Char := char (·.isDigit) <|> char (· == '.')

def numeral : Rule Text := manyOne digitOrDot

def path : Rule Text := manyOne bare

/-- A character of a bare word, but not a digit or a dot at the end of the text. -/
def inner : Rule Char := do
  notAhead (whole digitOrDot)
  bare

def numeric : Rule Text := do
  let front ← many inner
  let last ← digitOrDot
  return front ++ [last]

/-- A value that ends the text, where `number` tells what a number is. -/
def valueIn (number : Rule Text) : Rule Value :=
  (fun inner => .quoted (String.ofList inner)) <$> whole quoted <|>
    (fun digits => .number (String.ofList digits)) <$> whole number <|>
    (fun word => .path (.ofText word)) <$> whole path

def pair : Rule ArgumentToken := do
  let name ← path
  let _ ← char (· == '=')
  let value ← valueIn numeric
  return named (String.ofList name) value

def argument : Rule ArgumentToken := pair <|> positional <$> valueIn numeral

/-! ## Literals -/

theorem quotedIn_of_head {quote : Char} {t : Text} (h : t.head? ≠ some quote) :
    quotedIn quote t = none := by
  refine bind_of_none (char_of_stopsRun fun c hc => ?_)
  simp only [beq_eq_false_iff_ne, ne_eq]
  rintro rfl
  exact h hc

/-- What is left of a text without a quote starts with the quote. -/
theorem eq_of_dropWhile {quote c : Char} {t rest : Text}
    (h : t.dropWhile (· != quote) = c :: rest) : c = quote := by
  simpa [h] using List.head?_dropWhile_not (· != quote) t

theorem quotedIn_cons (quote : Char) (t : Text) :
    quotedIn quote (quote :: t) =
      match t.dropWhile (· != quote) with
      | [] => none
      | _ :: rest => some (t.takeWhile (· != quote), rest) := by
  have hopen : char (· == quote) (quote :: t) = some (quote, t) :=
    char_of_pos (beq_self_eq_true quote)
  rw [quotedIn, bind_of_some hopen, notAhead_char_any,
    bind_of_some (many_char (fun c => ! c == quote) t)]
  change (char (· == quote) >>= fun _ => _) (t.dropWhile (· != quote)) = _
  cases hd : t.dropWhile (· != quote) with
  | nil => exact bind_of_none rfl
  | cons c rest => exact bind_of_some (char_of_pos (beq_iff_eq.mpr (eq_of_dropWhile hd)))

theorem quoted_cons (c : Char) (t : Text) :
    quoted (c :: t) = if isQuote c then quotedIn c (c :: t) else none := by
  have hother : ∀ quote, quote ≠ c → quotedIn quote (c :: t) = none :=
    fun quote hne => quotedIn_of_head fun h => hne (Option.some.inj h).symm
  rw [quoted, orElse_apply]
  by_cases hdouble : c = '"'
  · subst hdouble
    rw [hother '\'' (by decide), Option.or_none, if_pos (by decide)]
  · rw [hother '"' (Ne.symm hdouble), Option.none_or]
    by_cases hsingle : c = '\''
    · subst hsingle
      rw [if_pos (by decide)]
    · rw [hother '\'' (Ne.symm hsingle), if_neg (by simp [isQuote, hdouble, hsingle])]

theorem whole_quoted (t : Text) : whole quoted t = (unquoted? t).map (·, []) := by
  cases t with
  | nil => rfl
  | cons c t =>
      cases hc : isQuote c with
      | false =>
          rw [whole_of_none (by rw [quoted_cons, hc]; rfl), unquoted?, hc]
          rfl
      | true =>
          have hquoted : quoted (c :: t) = _ := (quoted_cons c t).trans (if_pos hc)
          rw [quotedIn_cons] at hquoted
          cases hd : t.dropWhile (· != c) with
          | nil =>
              rw [hd] at hquoted
              rw [whole_of_none hquoted, unquoted?, hd]
              simp
          | cons d rest =>
              rw [hd] at hquoted
              rw [whole_of_some hquoted, unquoted?, hd, hc, eq_of_dropWhile hd]
              cases rest with
              | nil => simp
              | cons e rest => simp

/-! ## Words -/

theorem bare_eq : bare = char isBare := by
  rw [bare, char_orElse, char_orElse, char_orElse, notAhead_char_any]
  congr 1
  funext c
  simp only [isBare, bne, Bool.not_or]
  grind

theorem digitOrDot_eq : digitOrDot = char isNumeric := char_orElse _ _

theorem isBare_of_isNumeric {c : Char} (h : isNumeric c = true) : isBare c = true := by
  simp only [isNumeric, Char.isDigit, Bool.or_eq_true, Bool.and_eq_true, decide_eq_true_eq,
    beq_iff_eq] at h
  rcases h with ⟨hlow, hhigh⟩ | rfl
  · have hlow : 48 ≤ c.toNat := hlow
    have hhigh : c.toNat ≤ 57 := hhigh
    have hne : ∀ d : Char, d.toNat < 48 ∨ 57 < d.toNat → c ≠ d := by
      rintro d hd rfl
      omega
    have hspace : isSpace c = false := by
      simp only [isSpace]
      grind
    simp [isBare, hspace, hne '"' (by decide), hne '\'' (by decide), hne '=' (by decide)]
  · decide

theorem whole_manyOne_char (p : Char → Bool) (t : Text) :
    whole (manyOne (char p)) t = if t ≠ [] ∧ t.all p = true then some (t, []) else none := by
  have happ := List.takeWhile_append_dropWhile (p := p) (l := t)
  by_cases hall : t.all p = true
  · have hdrop : t.dropWhile p = [] := List.dropWhile_eq_nil_iff.mpr (List.all_eq_true.mp hall)
    rw [hdrop, List.append_nil] at happ
    by_cases hnil : t = []
    · subst hnil
      rfl
    · rw [whole_of_some ((manyOne_char p t).trans (if_neg (by rwa [happ]))), if_pos hdrop, happ,
        if_pos ⟨hnil, hall⟩]
  · have hdrop : t.dropWhile p ≠ [] := fun h =>
      hall (List.all_eq_true.mpr (List.dropWhile_eq_nil_iff.mp h))
    rw [if_neg fun h => hall h.2]
    by_cases hrun : t.takeWhile p = []
    · exact whole_of_none ((manyOne_char p t).trans (if_pos hrun))
    · rw [whole_of_some ((manyOne_char p t).trans (if_neg hrun)), if_neg hdrop]

theorem whole_path (t : Text) : whole path t = if isWord t then some (t, []) else none := by
  rw [path, bare_eq, whole_manyOne_char]
  refine if_congr ?_ rfl rfl
  rw [isWord_iff_isBare, List.all_eq_true]

theorem whole_numeral (t : Text) :
    whole numeral t = if isWord t ∧ t.all isNumeric = true then some (t, []) else none := by
  rw [numeral, digitOrDot_eq, whole_manyOne_char]
  refine if_congr ?_ rfl rfl
  rw [isWord_iff_isBare]
  constructor
  · intro h
    exact ⟨⟨h.1, fun c hc => isBare_of_isNumeric (List.all_eq_true.mp h.2 c hc)⟩, h.2⟩
  · intro h
    exact ⟨h.1.1, h.2⟩

/-! ## Numbers of named values -/

theorem inner_last {c : Char} (h : isNumeric c = true) : inner [c] = none := by
  refine bind_of_none ?_
  rw [notAhead, digitOrDot_eq, whole_of_some (char_of_pos h)]
  rfl

theorem inner_cons {c : Char} {t : Text} (h : isNumeric c = true → t ≠ []) :
    inner (c :: t) = char isBare (c :: t) := by
  have hahead : notAhead (whole digitOrDot) (c :: t) = some ((), c :: t) := by
    cases hc : isNumeric c with
    | false => rw [notAhead, digitOrDot_eq, whole_of_none (char_of_neg hc)]
    | true => rw [notAhead, digitOrDot_eq, whole_of_some (char_of_pos hc), if_neg (h hc)]
  rw [inner, bind_of_some hahead, bare_eq]

/-- A number is read up to the last character of the text. -/
theorem many_inner_append {front : Text} {last : Char} (hfront : ∀ c ∈ front, isBare c = true)
    (hlast : isNumeric last = true) :
    many inner (front ++ [last]) = some (front, [last]) := by
  induction front with
  | nil => exact many_of_none (inner_last hlast)
  | cons c front ih =>
      obtain ⟨hc, hfront⟩ := List.forall_mem_cons.mp hfront
      have hinner : inner (c :: (front ++ [last])) = some (c, front ++ [last]) :=
        (inner_cons fun _ => by simp).trans (char_of_pos hc)
      rw [List.cons_append, many_of_some hinner (Nat.lt_succ_self _), ih hfront]
      rfl

/-- A text that is no number is read as a word is. -/
theorem many_inner_eq {t : Text} (h : t.all isBare = true → t.getLast?.any isNumeric = false) :
    many inner t = some (t.takeWhile isBare, t.dropWhile isBare) := by
  induction t with
  | nil => exact many_of_none rfl
  | cons c t ih =>
      have hcons : isNumeric c = true → t ≠ [] := by
        rintro hc rfl
        have := h (by simp [isBare_of_isNumeric hc])
        simp [hc] at this
      cases hc : isBare c with
      | false =>
          rw [many_of_none ((inner_cons hcons).trans (char_of_neg hc))]
          simp [hc]
      | true =>
          have htail : t.all isBare = true → t.getLast?.any isNumeric = false := by
            intro hall
            cases t with
            | nil => rfl
            | cons d t => simpa [hc, hall] using h
          rw [many_of_some ((inner_cons hcons).trans (char_of_pos hc)) (Nat.lt_succ_self _),
            ih htail]
          simp [hc]

theorem whole_numeric (t : Text) :
    whole numeric t =
      if isWord t ∧ t.getLast?.any isNumeric = true then some (t, []) else none := by
  by_cases h : isWord t ∧ t.getLast?.any isNumeric = true
  · rw [if_pos h]
    obtain ⟨hword, hlast⟩ := h
    obtain ⟨hne, hbare⟩ := isWord_iff_isBare.mp hword
    obtain ⟨front, last, ht⟩ := (List.eq_nil_or_concat t).resolve_left hne
    rw [List.concat_eq_append] at ht
    subst ht
    have hnum : isNumeric last = true := by simpa using hlast
    have hfront : ∀ c ∈ front, isBare c = true := fun c hc => hbare c (List.mem_append_left _ hc)
    have hdigit : digitOrDot [last] = some (last, []) := by rw [digitOrDot_eq, char_of_pos hnum]
    have hnumeric : numeric (front ++ [last]) = some (front ++ [last], []) :=
      (bind_of_some (many_inner_append hfront hnum)).trans (bind_of_some hdigit)
    rw [whole_of_some hnumeric, if_pos rfl]
  · rw [if_neg h]
    have hmany : many inner t = some (t.takeWhile isBare, t.dropWhile isBare) := by
      refine many_inner_eq fun hall => Bool.eq_false_iff.mpr fun hlast => h ⟨?_, hlast⟩
      refine isWord_iff_isBare.mpr ⟨?_, List.all_eq_true.mp hall⟩
      rintro rfl
      cases hlast
    -- The run of the word takes every digit and every dot with it.
    have hstop : StopsRun isNumeric (t.dropWhile isBare) := fun c hc =>
      Bool.eq_false_iff.mpr fun hnum =>
        Bool.eq_false_iff.mp (stopsRun_dropWhile isBare t c hc) (isBare_of_isNumeric hnum)
    refine whole_of_none ((bind_of_some hmany).trans (bind_of_none ?_))
    rw [digitOrDot_eq, char_of_stopsRun hstop]

/-! ## Arguments -/

theorem valueIn_apply {number : Rule Text} (isNumeral : Text → Bool) {t : Text}
    (h : whole number t = if isWord t ∧ isNumeral t = true then some (t, []) else none) :
    valueIn number t = (valueOf? isNumeral t).map (·, []) := by
  rw [valueIn, orElse_apply, orElse_apply, map_apply, map_apply, map_apply, whole_quoted, h,
    whole_path, valueOf?]
  cases unquoted? t with
  | some inner => rfl
  | none =>
      cases hword : isWord t with
      | false => rfl
      | true =>
          cases hnum : isNumeral t with
          | false => rfl
          | true => rfl

theorem valueIn_numeral (t : Text) : valueIn numeral t = (positionalValue? t).map (·, []) :=
  valueIn_apply (·.all isNumeric) (whole_numeral t)

theorem valueIn_numeric (t : Text) : valueIn numeric t = (namedValue? t).map (·, []) :=
  valueIn_apply (·.getLast?.any isNumeric) (whole_numeric t)

theorem pair_of_name {name : Text} (h : isWord name = true) (rest : Text) :
    pair (name ++ '=' :: rest) =
      (namedValue? rest).map fun value => (named (String.ofList name) value, []) := by
  have hpath : path (name ++ '=' :: rest) = some (name, '=' :: rest) := by
    rw [path, bare_eq, manyOne_char, takeWhile_name h, dropWhile_name h,
      if_neg (isWord_iff_isBare.mp h).1]
  have hequals : char (· == '=') ('=' :: rest) = some ('=', rest) := char_of_pos rfl
  rw [pair, bind_of_some hpath, bind_of_some hequals]
  cases hvalue : namedValue? rest with
  | none => exact bind_of_none (by rw [valueIn_numeric, hvalue]; rfl)
  | some value => exact bind_of_some (by rw [valueIn_numeric, hvalue]; rfl)

theorem pair_of_not_isNamed {t : Text} (h : ¬ IsNamed t) : pair t = none := by
  have hpath : path t = _ := (congrFun (congrArg manyOne bare_eq) t).trans (manyOne_char isBare t)
  by_cases hne : t.takeWhile isBare = []
  · exact bind_of_none (hpath.trans (if_pos hne))
  · refine (bind_of_some (hpath.trans (if_neg hne))).trans (bind_of_none (char_of_stopsRun ?_))
    intro c hc
    simp only [beq_eq_false_iff_ne, ne_eq]
    rintro rfl
    obtain ⟨rest, hrest⟩ := List.head?_eq_some_iff.mp hc
    exact h (isNamed_iff.mpr ⟨hne, rest, hrest⟩)

/-- The grammar parses the texts that are classified. -/
theorem argument_apply (t : Text) : argument t = (classify? t).map (·, []) := by
  rw [argument, orElse_apply, map_apply, valueIn_numeral]
  by_cases h : IsNamed t
  · have hpositional : positionalValue? t = none :=
      Option.eq_none_iff_forall_ne_some.mpr fun value hvalue =>
        not_isNamed_of_positionalValue? hvalue h
    obtain ⟨name, rest, hname, rfl⟩ := h
    rw [hpositional, pair_of_name hname, classify?_of_name hname, Option.map_none, Option.map_none,
      Option.or_none, Option.map_map]
    rfl
  · rw [pair_of_not_isNamed h, classify?_of_not_isNamed h, Option.none_or, Option.map_map,
      Option.map_map]
    rfl

end ArgumentToken.Grammar

end TagTemplate

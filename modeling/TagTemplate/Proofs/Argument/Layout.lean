import TagTemplate.Proofs.Argument.Spelling
import TagTemplate.Proofs.Machine.Reading

/-!
# How the arguments of a tag are laid out

The text of a list of arguments is made of its tokens and the close, each with white space in front
of it or none. A list that is read has such a text, and it can be taken apart in one way only. A
list is refused at the place where neither a token nor the close starts, or where it goes on beyond
the number of looks.
-/

namespace TagTemplate.ArgumentToken

open Text Reader

/-! ## Layouts -/

/-- A token as it is written, with the white space in front of it. -/
@[ext]
structure Piece where
  gap : Text
  written : Text
  token : ArgumentToken
deriving DecidableEq, Repr

def laidOut (pieces : List Piece) : Text := pieces.flatMap fun p => p.gap ++ p.written

@[simp] theorem laidOut_cons (p : Piece) (pieces : List Piece) :
    laidOut (p :: pieces) = p.gap ++ (p.written ++ laidOut pieces) := by
  simp [laidOut]

/-- Here starts a token, and neither white space nor the close does. -/
structure StartsToken (stop close t written rest : Text) : Prop where
  no_space : StopsRun isSpace t
  no_close : ¬ close <+: t
  cut : cut? stop t = some (written, rest)

/-- Here starts neither a token nor white space nor the close. -/
structure StartsNothing (stop close t : Text) : Prop where
  no_space : StopsRun isSpace t
  no_close : ¬ close <+: t
  no_token : cut? stop t = none

/-- The text starts with the pieces, and the rest is behind them. -/
inductive IsLaidOut (stop close : Text) : Text → List Piece → Text → Prop where
  | nil (t : Text) : IsLaidOut stop close t [] t
  | cons {p : Piece} {pieces : List Piece} {after rest : Text} :
      (∀ c ∈ p.gap, isSpace c = true) →
      StartsToken stop close (p.written ++ after) p.written after → Spells p.written p.token →
      IsLaidOut stop close after pieces rest →
      IsLaidOut stop close (p.gap ++ (p.written ++ after)) (p :: pieces) rest

/-- The text starts with the pieces and the close, and the gap is in front of the close. -/
structure IsClosed (stop close t : Text) (pieces : List Piece) (gap rest : Text) : Prop where
  layout : IsLaidOut stop close t pieces (gap ++ (close ++ rest))
  space : ∀ c ∈ gap, isSpace c = true

/-- What stands before the place at which a text is known not to start with a list of less than
`limit` arguments and the close. -/
inductive Unclosed (stop close : Text) (limit : Nat) (t : Text) : Text → Prop where
  | stuck {pieces : List Piece} {gap rest : Text} : IsLaidOut stop close t pieces (gap ++ rest) →
      (∀ c ∈ gap, isSpace c = true) → StartsNothing stop close rest → pieces.length < limit →
      Unclosed stop close limit t (laidOut pieces ++ gap)
  | exhausted {pieces : List Piece} {rest : Text} : IsLaidOut stop close t pieces rest →
      pieces.length = limit → Unclosed stop close limit t (laidOut pieces)

section Layout

variable {stop close t u gap gap' rest rest' : Text} {p : Piece} {pieces pieces' : List Piece}

theorem IsLaidOut.append (h : IsLaidOut stop close t pieces rest) : t = laidOut pieces ++ rest := by
  induction h with
  | nil t => rfl
  | cons _ _ _ _ ih => rw [laidOut_cons, List.append_assoc, List.append_assoc, ← ih]

theorem gap_unique (hgap : ∀ c ∈ gap, isSpace c = true) (hgap' : ∀ c ∈ gap', isSpace c = true)
    (ht : StopsRun isSpace t) (hu : StopsRun isSpace u) (h : gap ++ t = gap' ++ u) :
    gap = gap' ∧ t = u := by
  have htake := congrArg (List.takeWhile isSpace) h
  have hdrop := congrArg (List.dropWhile isSpace) h
  rw [takeWhile_append_stop hgap ht, takeWhile_append_stop hgap' hu] at htake
  rw [dropWhile_append_stop hgap ht, dropWhile_append_stop hgap' hu] at hdrop
  exact ⟨htake, hdrop⟩

theorem spells_unique {token token' : ArgumentToken} (h : Spells t token) (h' : Spells t token') :
    token = token' :=
  Option.some.inj ((classify?_eq_some_iff.mpr h).symm.trans (classify?_eq_some_iff.mpr h'))

theorem stopsRun_close (hclose : Delimiters.isMarker close = true) (rest : Text) :
    StopsRun isSpace (close ++ rest) := by
  obtain ⟨hne, hspace⟩ := Delimiters.isMarker_iff.mp hclose
  obtain ⟨c, u, rfl⟩ := List.exists_cons_of_ne_nil hne
  exact stopsRun_cons (hspace c List.mem_cons_self)

/-- Only one piece can start a text. -/
theorem piece_unique {p' : Piece} (hspace : ∀ c ∈ p.gap, isSpace c = true)
    (hstart : StartsToken stop close (p.written ++ rest) p.written rest)
    (hspells : Spells p.written p.token) (hspace' : ∀ c ∈ p'.gap, isSpace c = true)
    (hstart' : StartsToken stop close (p'.written ++ rest') p'.written rest')
    (hspells' : Spells p'.written p'.token)
    (h : p.gap ++ (p.written ++ rest) = p'.gap ++ (p'.written ++ rest')) :
    p = p' ∧ rest = rest' := by
  obtain ⟨hgap, htext⟩ := gap_unique hspace hspace' hstart.no_space hstart'.no_space h
  have hcut := hstart.cut
  rw [htext, hstart'.cut] at hcut
  obtain ⟨hwritten, hrest⟩ := Prod.mk.inj (Option.some.inj hcut)
  rw [hwritten] at hspells'
  exact ⟨Piece.ext hgap hwritten.symm (spells_unique hspells hspells'), hrest.symm⟩

/-- A text can be taken apart in one way only. -/
theorem IsClosed.unique (hclose : Delimiters.isMarker close = true)
    (h : IsClosed stop close t pieces gap rest) (h' : IsClosed stop close t pieces' gap' rest') :
    pieces = pieces' ∧ gap = gap' ∧ rest = rest' := by
  obtain ⟨hlayout, hgap⟩ := h
  obtain ⟨hlayout', hgap'⟩ := h'
  have hstop := stopsRun_close hclose
  induction pieces generalizing t pieces' with
  | nil =>
      cases hlayout
      generalize hend : gap ++ (close ++ rest) = t at hlayout'
      cases hlayout' with
      | nil =>
          obtain ⟨hgaps, hrests⟩ := gap_unique hgap hgap' (hstop rest) (hstop rest') hend
          exact ⟨rfl, hgaps, List.append_cancel_left hrests⟩
      | cons hspace hstart _ _ =>
          obtain ⟨-, htext⟩ := gap_unique hgap hspace (hstop rest) hstart.no_space hend
          exact absurd ⟨rest, htext⟩ hstart.no_close
  | cons p pieces ih =>
      cases hlayout with
      | cons hspace hstart hspells hlayout =>
          generalize hall : p.gap ++ (p.written ++ _) = t at hlayout'
          cases hlayout' with
          | nil =>
              obtain ⟨-, htext⟩ := gap_unique hspace hgap' hstart.no_space (hstop rest') hall
              exact absurd ⟨rest', htext.symm⟩ hstart.no_close
          | cons hspace' hstart' hspells' hlayout' =>
              obtain ⟨rfl, rfl⟩ := piece_unique hspace hstart hspells hspace' hstart' hspells' hall
              obtain ⟨rfl, hrest⟩ := ih hlayout hlayout'
              exact ⟨rfl, hrest⟩

end Layout

/-! ## Reading a layout -/

def Piece.before (p : Piece) :
    Except Stop (Reading (List ArgumentToken)) → Except Stop (Reading (List ArgumentToken))
  | .ok x => .ok ⟨p.token :: x.value, p.gap ++ (p.written ++ x.read), x.rest⟩
  | .error s => .error ⟨s.fault, p.gap ++ (p.written ++ s.read)⟩

theorem foldr_before_ok (pieces : List Piece) (x : Reading (List ArgumentToken)) :
    pieces.foldr Piece.before (.ok x) =
      .ok ⟨pieces.map (·.token) ++ x.value, laidOut pieces ++ x.read, x.rest⟩ := by
  induction pieces with
  | nil => rfl
  | cons p pieces ih => rw [List.foldr_cons, ih]; simp [Piece.before]

theorem foldr_before_error (pieces : List Piece) (s : Stop) :
    pieces.foldr Piece.before (.error s) = .error ⟨s.fault, laidOut pieces ++ s.read⟩ := by
  induction pieces with
  | nil => rfl
  | cons p pieces ih => rw [List.foldr_cons, ih]; simp [Piece.before]

section Reading

variable {stop close t gap rest read : Text} {p : Piece} {pieces : List Piece} {limit : Nat}

theorem skip?_of_no_close (h : ¬ close <+: t) : skip? close t = .ok ⟨false, [], t⟩ :=
  reads_skip?_false close t h

theorem listReader_cons (scans : Nat) (hspace : ∀ c ∈ p.gap, isSpace c = true)
    (hstart : StartsToken stop close (p.written ++ rest) p.written rest)
    (hspells : Spells p.written p.token) :
    listReader stop close (scans + 1) (p.gap ++ (p.written ++ rest)) =
      p.before (listReader stop close scans rest) := by
  have hgap : spaces (p.gap ++ (p.written ++ rest)) = .ok ⟨p.gap, p.gap, p.written ++ rest⟩ :=
    reads_takeWhile hspace _ hstart.no_space
  have htoken : reader stop (p.written ++ rest) = .ok ⟨p.token, p.written, rest⟩ :=
    reads_reader (P := (· = rest)) (fun _ h => h ▸ hstart.cut) (classify?_eq_some_iff.mpr hspells)
      _ rfl
  simp only [listReader, Bind.bind, Reader.bind, hgap, skip?_of_no_close hstart.no_close, htoken,
    Bool.false_eq_true, if_false]
  cases listReader stop close scans rest with
  | ok x => simp [Piece.before, pure, Reader.pure]
  | error s => simp [Piece.before]

theorem listReader_of_isLaidOut (h : IsLaidOut stop close t pieces rest) (scans : Nat) :
    listReader stop close (scans + pieces.length) t =
      pieces.foldr Piece.before (listReader stop close scans rest) := by
  induction h with
  | nil t => rfl
  | cons hspace hstart hspells _ ih =>
      rw [List.length_cons, ← Nat.add_assoc, listReader_cons _ hspace hstart hspells, ih,
        List.foldr_cons]

theorem listReader_of_isClosed (hclose : Delimiters.isMarker close = true)
    (h : IsClosed stop close t pieces gap rest) (hlimit : pieces.length < limit) :
    listReader stop close limit t =
      .ok ⟨pieces.map (·.token), laidOut pieces ++ (gap ++ close), rest⟩ := by
  obtain ⟨scans, rfl⟩ := Nat.exists_eq_add_of_lt hlimit
  have hend : listReader stop close (scans + 1) (gap ++ (close ++ rest)) =
      .ok ⟨[], gap ++ close, rest⟩ := by
    rw [← List.append_assoc]
    exact reads_listReader_close (P := (· = rest)) stop scans h.space
      (fun _ _ => stopsRun_close hclose _) rest rfl
  rw [Nat.add_assoc, Nat.add_comm, listReader_of_isLaidOut h.layout, hend, foldr_before_ok,
    List.append_nil]

theorem listReader_of_startsNothing (scans : Nat) (hgap : ∀ c ∈ gap, isSpace c = true)
    (h : StartsNothing stop close rest) :
    listReader stop close (scans + 1) (gap ++ rest) = .error ⟨.unclosedTag, gap⟩ := by
  have hspaces : spaces (gap ++ rest) = .ok ⟨gap, gap, rest⟩ := reads_takeWhile hgap _ h.no_space
  have htoken : reader stop rest = .error ⟨.unclosedTag, []⟩ := by
    simp [reader, Bind.bind, Reader.bind, cutting, h.no_token]
  simp [listReader, Bind.bind, Reader.bind, hspaces, skip?_of_no_close h.no_close, htoken]

theorem listReader_of_unclosed (h : Unclosed stop close limit t read) :
    listReader stop close limit t = .error ⟨.unclosedTag, read⟩ := by
  cases h with
  | @stuck pieces gap rest hlayout hgap hnothing hlimit =>
      obtain ⟨scans, rfl⟩ := Nat.exists_eq_add_of_lt hlimit
      rw [Nat.add_assoc, Nat.add_comm, listReader_of_isLaidOut hlayout,
        listReader_of_startsNothing scans hgap hnothing, foldr_before_error]
  | @exhausted pieces rest hlayout hlimit =>
      rw [← hlimit, ← Nat.zero_add pieces.length, listReader_of_isLaidOut hlayout, listReader]
      simp [fail, foldr_before_error]

/-- Every text starts with a list and its close, or there is a place at which it is known not to. -/
theorem isClosed_or_unclosed (stop close : Text) (limit : Nat) (t : Text) :
    (∃ pieces gap rest, IsClosed stop close t pieces gap rest ∧ pieces.length < limit) ∨
      ∃ read, Unclosed stop close limit t read := by
  induction limit generalizing t with
  | zero => exact .inr ⟨_, .exhausted (.nil t) rfl⟩
  | succ limit ih =>
      have happ := List.takeWhile_append_dropWhile (p := isSpace) (l := t)
      have hgap : ∀ c ∈ t.takeWhile isSpace, isSpace c = true := fun _ => List.mem_takeWhile_imp
      have hstop := stopsRun_dropWhile isSpace t
      generalize t.takeWhile isSpace = gap at happ hgap
      generalize t.dropWhile isSpace = ahead at happ hstop
      subst happ
      by_cases hclosed : close <+: ahead
      · obtain ⟨rest, rfl⟩ := hclosed
        exact .inl ⟨[], gap, rest, ⟨.nil _, hgap⟩, Nat.succ_pos limit⟩
      · cases hcut : cut? stop ahead with
        | none =>
            have hlayout : IsLaidOut stop close (gap ++ ahead) [] (gap ++ ahead) := .nil _
            exact .inr ⟨_, .stuck hlayout hgap ⟨hstop, hclosed, hcut⟩ (Nat.succ_pos limit)⟩
        | some parts =>
            obtain ⟨written, after⟩ := parts
            obtain ⟨token, htoken⟩ := Option.isSome_iff_exists.mp (isSome_classify?_of_cut? hcut)
            obtain rfl := cut?_append hcut
            have hcons : ∀ {pieces rest}, IsLaidOut stop close after pieces rest →
                IsLaidOut stop close (gap ++ (written ++ after)) (⟨gap, written, token⟩ :: pieces)
                  rest := fun h =>
              IsLaidOut.cons (p := ⟨gap, written, token⟩) hgap ⟨hstop, hclosed, hcut⟩
                (classify?_eq_some_iff.mp htoken) h
            rcases ih after with ⟨pieces, gap, rest, hafter, hlimit⟩ | ⟨read, hafter⟩
            · exact .inl ⟨_, gap, rest, ⟨hcons hafter.layout, hafter.space⟩,
                Nat.succ_lt_succ hlimit⟩
            · cases hafter with
              | stuck hlayout hspace hnothing hlimit =>
                  exact .inr ⟨_, .stuck (hcons hlayout) hspace hnothing (Nat.succ_lt_succ hlimit)⟩
              | exhausted hlayout hlimit =>
                  exact .inr ⟨_, .exhausted (hcons hlayout) (congrArg Nat.succ hlimit)⟩

theorem listReader_eq_ok_iff (hclose : Delimiters.isMarker close = true)
    {x : Reading (List ArgumentToken)} :
    listReader stop close limit t = .ok x ↔
      ∃ pieces gap, IsClosed stop close t pieces gap x.rest ∧ pieces.length < limit ∧
        x.value = pieces.map (·.token) ∧ x.read = laidOut pieces ++ (gap ++ close) := by
  constructor
  · intro h
    rcases isClosed_or_unclosed stop close limit t with ⟨pieces, gap, rest, hclosed, hlimit⟩ | hopen
    · rw [listReader_of_isClosed hclose hclosed hlimit] at h
      cases h
      exact ⟨pieces, gap, hclosed, hlimit, rfl, rfl⟩
    · obtain ⟨read, hread⟩ := hopen
      rw [listReader_of_unclosed hread] at h
      cases h
  · rintro ⟨pieces, gap, hclosed, hlimit, hvalue, hread⟩
    rw [listReader_of_isClosed hclose hclosed hlimit, ← hvalue, ← hread]

theorem listReader_eq_error_iff (hclose : Delimiters.isMarker close = true) {s : Stop} :
    listReader stop close limit t = .error s ↔
      Unclosed stop close limit t s.read ∧ s.fault = .unclosedTag := by
  constructor
  · intro h
    rcases isClosed_or_unclosed stop close limit t with ⟨pieces, gap, rest, hclosed, hlimit⟩ | hopen
    · rw [listReader_of_isClosed hclose hclosed hlimit] at h
      cases h
    · obtain ⟨read, hread⟩ := hopen
      rw [listReader_of_unclosed hread] at h
      cases h
      exact ⟨hread, rfl⟩
  · rintro ⟨hread, hfault⟩
    rw [listReader_of_unclosed hread, ← hfault]

end Reading

/-! ## Values by name -/

theorem namedOf_append (tokens : List ArgumentToken) (args : List Argument) :
    Argument.namedOf (tokens.filterMap positional? ++ args) = Argument.namedOf args := by
  induction tokens with
  | nil => rfl
  | cons token tokens ih =>
      cases token with
      | positional value => exact ih
      | named name value => exact ih

theorem namedOf_ofTokens (tokens : List ArgumentToken) :
    Argument.namedOf (Argument.ofTokens tokens) = ⟨tokens.filterMap entry?⟩ := by
  rw [Argument.ofTokens_eq, namedOf_append]
  by_cases hentries : tokens.filterMap entry? = []
  · rw [if_pos hentries, hentries]
    rfl
  · rw [if_neg hentries]
    rfl

theorem get?_namedOf_ofTokens {tokens : List ArgumentToken} {name : String} {value : Value} :
    (Argument.namedOf (Argument.ofTokens tokens)).get? name = some value ↔
      ∃ front back, tokens = front ++ named name value :: back ∧ ∀ v, named name v ∉ front := by
  rw [namedOf_ofTokens, NamedArguments.get?, List.find?_filterMap, Option.map_eq_some_iff]
  constructor
  · rintro ⟨entry, hentry, rfl⟩
    obtain ⟨token, hfind, htoken⟩ := Option.bind_eq_some_iff.mp hentry
    obtain ⟨hname, front, back, rfl, hfront⟩ := List.find?_eq_some_iff_append.mp hfind
    cases token with
    | positional v => cases htoken
    | named n v =>
        cases htoken
        obtain rfl : n = name := by simpa [ entry?] using hname
        refine ⟨front, back, rfl, fun v hmem => ?_⟩
        simpa [ entry?] using hfront _ hmem
  · rintro ⟨front, back, rfl, hfront⟩
    refine ⟨(name, value), Option.bind_eq_some_iff.mpr ⟨named name value, ?_, rfl⟩, rfl⟩
    refine List.find?_eq_some_iff_append.mpr ⟨by simp [ entry?], front, back, rfl, ?_⟩
    intro token hmem
    cases token with
    | positional v => rfl
    | named n v =>
        have hne : n ≠ name := by
          rintro rfl
          exact hfront v hmem
        simpa [ entry?] using hne

end TagTemplate.ArgumentToken

namespace TagTemplate.Machine

open Text ArgumentToken

/-! ## At a cursor -/

section Cursor

variable {stop close before ahead : Text} {c moved : Cursor} {tokens : List ArgumentToken}
  {limit : Nat}

theorem scanArguments_eq_ok_iff (hclose : Delimiters.isMarker close = true)
    (hc : c.split = .ok (before, ahead)) :
    scanArguments stop close limit c = .ok (tokens, moved) ↔
      ∃ pieces gap rest, IsClosed stop close ahead pieces gap rest ∧ pieces.length < limit ∧
        tokens = pieces.map (·.token) ∧ moved = c.advance (laidOut pieces ++ (gap ++ close)) := by
  have hrefines := refines_scanArguments stop close limit
  constructor
  · intro h
    cases hread : listReader stop close limit ahead with
    | ok x =>
        rw [hrefines.ok hc hread] at h
        obtain ⟨rfl, rfl⟩ := Prod.mk.inj (Except.ok.inj h)
        obtain ⟨pieces, gap, hclosed, hlimit, hvalue, hpieces⟩ :=
          (listReader_eq_ok_iff hclose).mp hread
        exact ⟨pieces, gap, x.rest, hclosed, hlimit, hvalue, by rw [hpieces]⟩
    | error s =>
        rw [hrefines.error hc hread] at h
        cases h
  · rintro ⟨pieces, gap, rest, hclosed, hlimit, rfl, rfl⟩
    exact hrefines.ok hc (listReader_of_isClosed hclose hclosed hlimit)

theorem scanArguments_eq_error_iff (hclose : Delimiters.isMarker close = true)
    (hc : c.split = .ok (before, ahead)) {halt : Halt} :
    scanArguments stop close limit c = .error halt ↔
      ∃ read, Unclosed stop close limit ahead read ∧
        halt = .refused (SyntaxError.locate c.source (c.offset + size read) "Unclosed tag") := by
  have hrefines := refines_scanArguments stop close limit
  constructor
  · intro h
    cases hread : listReader stop close limit ahead with
    | ok x =>
        rw [hrefines.ok hc hread] at h
        cases h
    | error s =>
        rw [hrefines.error hc hread] at h
        obtain ⟨hunclosed, hfault⟩ := (listReader_eq_error_iff hclose).mp hread
        rw [hfault] at h
        exact ⟨s.read, hunclosed, (Except.error.inj h).symm⟩
  · rintro ⟨read, hunclosed, rfl⟩
    exact hrefines.error hc (listReader_of_unclosed hunclosed)

end Cursor

/-- Arguments are passed over exactly where they are laid out up to their close. -/
theorem scanArguments_exact {stop close : Text} (hclose : Delimiters.isMarker close = true)
    {c : Cursor} {before ahead : Text} (hc : c.split = .ok (before, ahead)) :
    (∀ tokens moved, scanArguments stop close scanLimit c = .ok (tokens, moved) ↔
      ∃ pieces gap rest, IsClosed stop close ahead pieces gap rest ∧ pieces.length ≤ 30 ∧
        ahead = laidOut pieces ++ (gap ++ (close ++ rest)) ∧
        moved = c.advance (laidOut pieces ++ (gap ++ close)) ∧
        tokens = pieces.map (·.token)) ∧
    (∀ pieces gap rest pieces' gap' rest', IsClosed stop close ahead pieces gap rest →
      IsClosed stop close ahead pieces' gap' rest' →
      pieces = pieces' ∧ gap = gap' ∧ rest = rest') ∧
    (∀ tokens, Argument.ofTokens tokens = tokens.filterMap positional? ++
      if tokens.filterMap entry? = [] then [] else [.named ⟨tokens.filterMap entry?⟩]) ∧
    (∀ tokens name value,
      (Argument.namedOf (Argument.ofTokens tokens)).get? name = some value ↔
        ∃ front back, tokens = front ++ .named name value :: back ∧ ∀ v, .named name v ∉ front) ∧
    (∀ halt, scanArguments stop close scanLimit c = .error halt ↔
      ∃ read, Unclosed stop close 31 ahead read ∧
        halt = .refused (SyntaxError.locate c.source (c.offset + size read) "Unclosed tag")) ∧
    scanArguments stop close scanLimit c =
      match listReader stop close scanLimit ahead with
      | .ok x => .ok (x.value, c.advance x.read)
      | .error s => .error (.refused
          (SyntaxError.locate c.source (c.offset + size s.read) s.fault.message)) := by
  refine ⟨fun tokens moved => ?_, fun _ _ _ _ _ _ h h' => h.unique hclose h',
    Argument.ofTokens_eq, fun _ _ _ => get?_namedOf_ofTokens,
    fun halt => scanArguments_eq_error_iff hclose hc, ?_⟩
  · rw [scanArguments_eq_ok_iff hclose hc]
    constructor
    · rintro ⟨pieces, gap, rest, hclosed, hlimit, htokens, hmoved⟩
      exact ⟨pieces, gap, rest, hclosed, Nat.le_of_lt_succ hlimit, hclosed.layout.append, hmoved,
        htokens⟩
    · rintro ⟨pieces, gap, rest, hclosed, hlimit, -, hmoved, htokens⟩
      exact ⟨pieces, gap, rest, hclosed, Nat.lt_succ_of_le hlimit, htokens, hmoved⟩
  · have hrefines := refines_scanArguments stop close scanLimit
    cases hread : listReader stop close scanLimit ahead with
    | ok x => exact hrefines.ok hc hread
    | error s => exact hrefines.error hc hread

/-- A literal, and right behind it a named number. -/
theorem scanArguments_two :
    scanArguments "%>".toList "%>".toList scanLimit ⟨"a 'b'k=1 %>", 1⟩ =
      .ok ([.positional (.quoted "b"), .named "k" (.number "1")], ⟨"a 'b'k=1 %>", 11⟩) := by
  have hsplit : Cursor.split ⟨"a 'b'k=1 %>", 1⟩ = .ok ("a".toList, " 'b'k=1 %>".toList) := rfl
  have hspace : ∀ c ∈ " ".toList, isSpace c = true := List.forall_mem_singleton.mpr rfl
  have hsecond : IsLaidOut "%>".toList "%>".toList "k=1 %>".toList
      [⟨[], "k=1".toList, .named "k" (.number "1")⟩] " %>".toList :=
    @IsLaidOut.cons _ _ ⟨[], "k=1".toList, .named "k" (.number "1")⟩ _ " %>".toList _
      (List.forall_mem_nil _)
      ⟨stopsRun_cons rfl, by decide, by decide⟩ (classify?_eq_some_iff.mp (by decide)) (.nil _)
  have hlayout : IsLaidOut "%>".toList "%>".toList " 'b'k=1 %>".toList
      [⟨" ".toList, "'b'".toList, .positional (.quoted "b")⟩,
        ⟨[], "k=1".toList, .named "k" (.number "1")⟩] " %>".toList :=
    @IsLaidOut.cons _ _ ⟨" ".toList, "'b'".toList, .positional (.quoted "b")⟩ _ "k=1 %>".toList _
      hspace ⟨stopsRun_cons rfl, by decide, by decide⟩ (classify?_eq_some_iff.mp (by decide))
      hsecond
  exact ((scanArguments_exact (by decide) hsplit).1 _ _).mpr
    ⟨_, " ".toList, [], ⟨hlayout, hspace⟩, by decide, by decide, by decide, rfl⟩

end TagTemplate.Machine

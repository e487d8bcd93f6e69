import TagTemplate.Lexeme.Boundary
import TagTemplate.Proofs.Text.Region
import TagTemplate.Proofs.Text.Trim

/-!
# Two characters for a line feed

Text may end its lines with a carriage return and a line feed instead of a line feed alone. A cut
that treats the two characters alike falls at the same place in both spellings, and never between
them. So each way of cutting commutes with spelling out the line ends.
-/

namespace TagTemplate.Text

variable {p : Char → Bool}

/-- The text with a carriage return in front of every line feed. -/
def crlf : Text → Text
  | [] => []
  | c :: t => if c = '\n' then '\r' :: '\n' :: crlf t else c :: crlf t

@[simp] theorem crlf_nil : crlf [] = [] := rfl

@[simp] theorem crlf_newline (t : Text) : crlf ('\n' :: t) = '\r' :: '\n' :: crlf t := rfl

theorem crlf_cons {c : Char} (h : c ≠ '\n') (t : Text) : crlf (c :: t) = c :: crlf t := by
  rw [crlf, if_neg h]

@[simp] theorem crlf_append (s t : Text) : crlf (s ++ t) = crlf s ++ crlf t := by
  fun_induction crlf s with
  | case1 => rfl
  | case2 s ih => simp [ih]
  | case3 c s hc ih => simp [crlf_cons hc, ih]

@[simp] theorem crlf_eq_nil_iff {t : Text} : crlf t = [] ↔ t = [] := by
  fun_cases crlf t with
  | case1 => simp
  | case2 t => simp
  | case3 c t hc => simp

@[simp] theorem isEmpty_crlf (t : Text) : (crlf t).isEmpty = t.isEmpty := by
  rw [Bool.eq_iff_iff, List.isEmpty_iff, List.isEmpty_iff, crlf_eq_nil_iff]

/-- A character that is not in the end of a line comes first in both spellings or in none. -/
theorem crlf_eq_cons_iff {c : Char} (hreturn : c ≠ '\r') (hfeed : c ≠ '\n') {t u : Text} :
    crlf t = c :: u ↔ ∃ v, t = c :: v ∧ u = crlf v := by
  fun_cases crlf t with
  | case1 => simp
  | case2 t => simp [Ne.symm hreturn, Ne.symm hfeed]
  | case3 e t he =>
      constructor
      · intro h
        obtain ⟨rfl, rfl⟩ := List.cons.inj h
        exact ⟨t, rfl, rfl⟩
      · intro h
        rcases h with ⟨v, hv, rfl⟩
        obtain ⟨rfl, rfl⟩ := List.cons.inj hv
        rfl

theorem crlf_of_notMem {t : Text} (h : '\n' ∉ t) : crlf t = t := by
  fun_induction crlf t with
  | case1 => rfl
  | case2 t ih => simp at h
  | case3 c t hc ih => rw [ih fun hmem => h (List.mem_cons_of_mem c hmem)]

theorem crlf_of_forall {t : Text} (hp : p '\n' = false) (h : ∀ c ∈ t, p c = true) : crlf t = t := by
  apply crlf_of_notMem
  intro hmem
  rw [h _ hmem] at hp
  cases hp

@[simp] theorem getLast?_crlf (t : Text) : (crlf t).getLast? = t.getLast? := by
  fun_induction crlf t with
  | case1 => rfl
  | case2 t ih => simp [List.getLast?_cons, ih]
  | case3 c t hc ih => simp [List.getLast?_cons, ih]

@[simp] theorem endsLine_crlf (t : Text) : endsLine (crlf t) = endsLine t := by
  simp [endsLine]

/-- The string with a carriage return in front of every line feed. -/
def crlfString (s : String) : String := String.ofList (crlf s.toList)

@[simp] theorem toList_crlfString (s : String) : (crlfString s).toList = crlf s.toList :=
  String.toList_ofList

@[simp] theorem crlfString_ofList (t : Text) :
    crlfString (String.ofList t) = String.ofList (crlf t) := by
  rw [crlfString, String.toList_ofList]

theorem crlfString_append (s t : String) :
    crlfString (s ++ t) = crlfString s ++ crlfString t := by
  rw [crlfString, String.toList_append, crlf_append, String.ofList_append, crlfString, crlfString]

/-! ## Classes of characters -/

theorem all_crlf (hp : p '\r' = p '\n') (t : Text) : (crlf t).all p = t.all p := by
  fun_induction crlf t with
  | case1 => rfl
  | case2 t ih => cases hn : p '\n' <;> simp [hp, hn, ih]
  | case3 c t hc ih => simp [ih]

theorem forall_mem_crlf {t : Text} (hp : p '\r' = p '\n') (h : ∀ c ∈ t, p c = true) :
    ∀ c ∈ crlf t, p c = true := by
  rw [← List.all_eq_true, all_crlf hp]
  exact List.all_eq_true.mpr h

theorem takeWhile_crlf (hp : p '\r' = p '\n') (t : Text) :
    (crlf t).takeWhile p = crlf (t.takeWhile p) := by
  fun_induction crlf t with
  | case1 => rfl
  | case2 t ih =>
      cases hn : p '\n' with
      | false => simp [hp, hn]
      | true => simp [hp, hn, ih]
  | case3 c t hc ih =>
      cases h : p c with
      | false => simp [h]
      | true => simp [h, ih, crlf_cons hc]

theorem dropWhile_crlf (hp : p '\r' = p '\n') (t : Text) :
    (crlf t).dropWhile p = crlf (t.dropWhile p) := by
  fun_induction crlf t with
  | case1 => rfl
  | case2 t ih =>
      cases hn : p '\n' with
      | false => simp [hp, hn]
      | true => simp [hp, hn, ih]
  | case3 c t hc ih =>
      cases h : p c with
      | false => simp [h, crlf_cons hc]
      | true => simp [h, ih]

/-- A run of characters that ends before a line feed is the same run in both spellings. -/
theorem takeWhile_crlf_eq (hp : p '\r' = p '\n') (hn : p '\n' = false) (t : Text) :
    (crlf t).takeWhile p = t.takeWhile p := by
  rw [takeWhile_crlf hp, crlf_of_forall hn fun _ => List.mem_takeWhile_imp]

theorem stopsRun_reverse_crlf {t : Text} (h : StopsRun p t.reverse) :
    StopsRun p (crlf t).reverse := by
  intro c hc
  rw [List.head?_reverse, getLast?_crlf] at hc
  exact h c (by rwa [List.head?_reverse])

theorem splitEndWhile_crlf (hp : p '\r' = p '\n') (t : Text) :
    splitEndWhile p (crlf t) = ((splitEndWhile p t).1.crlf, (splitEndWhile p t).2.crlf) := by
  generalize hsplit : splitEndWhile p t = parts
  obtain ⟨before, after⟩ := parts
  obtain ⟨rfl, hafter, hstop⟩ := splitEndWhile_eq_iff.mp hsplit
  exact splitEndWhile_eq_iff.mpr
    ⟨crlf_append before after, forall_mem_crlf hp hafter, stopsRun_reverse_crlf hstop⟩

theorem isSpace_return : isSpace '\r' = isSpace '\n' := by decide

theorem trimStart_crlf (t : Text) : trimStart (crlf t) = crlf (trimStart t) :=
  dropWhile_crlf isSpace_return t

theorem trim_crlf (t : Text) : trim (crlf t) = crlf (trim t) := by
  have hend : ∀ u : Text, trimEnd (crlf u) = crlf (trimEnd u) := fun u =>
    congrArg Prod.fst (splitEndWhile_crlf isSpace_return u)
  rw [trim, trimStart_crlf, hend, trim]

/-! ## Pieces -/

/-- Neither of the characters that end lines stands in the piece. -/
def IsInline (piece : Text) : Prop := '\r' ∉ piece ∧ '\n' ∉ piece

theorem isInline_of_forall {piece : Text} (hr : p '\r' = false) (hn : p '\n' = false)
    (h : ∀ c ∈ piece, p c = true) : IsInline piece := by
  constructor
  · intro hmem
    rw [h _ hmem] at hr
    cases hr
  · intro hmem
    rw [h _ hmem] at hn
    cases hn

theorem IsInline.crlf_eq {piece : Text} (h : IsInline piece) : crlf piece = piece :=
  crlf_of_notMem h.2

theorem prefix_crlf_iff {piece t : Text} (h : IsInline piece) : piece <+: crlf t ↔ piece <+: t := by
  induction piece generalizing t with
  | nil => simp
  | cons c piece ih =>
      obtain ⟨hreturn, hfeed⟩ := h
      simp only [List.mem_cons, not_or] at hreturn hfeed
      have hpiece : IsInline piece := ⟨hreturn.2, hfeed.2⟩
      fun_cases crlf t with
      | case1 => rfl
      | case2 t => simp [Ne.symm hreturn.1, Ne.symm hfeed.1]
      | case3 e t he => rw [List.cons_prefix_cons, List.cons_prefix_cons, ih hpiece]

theorem isPrefixOf_crlf {piece : Text} (h : IsInline piece) (t : Text) :
    piece.isPrefixOf (crlf t) = piece.isPrefixOf t := by
  rw [Bool.eq_iff_iff, List.isPrefixOf_iff_prefix, List.isPrefixOf_iff_prefix, prefix_crlf_iff h]

theorem drop_crlf {piece t : Text} (h : IsInline piece) (ht : piece <+: t) :
    (crlf t).drop piece.length = crlf (t.drop piece.length) := by
  obtain ⟨rest, rfl⟩ := ht
  rw [crlf_append, h.crlf_eq, List.drop_left, List.drop_left]

/-- The first place of a kind is the same in both spellings if the kind shows in both and no line
break is of it. -/
theorem splitAtFirst?_crlf {q : Text → Bool} (hq : ∀ t, q (crlf t) = q t)
    (hline : ∀ t, q ('\n' :: t) = false) (t : Text) :
    splitAtFirst? q (crlf t) =
      (splitAtFirst? q t).map fun parts => (crlf parts.1, crlf parts.2) := by
  have hgo : ∀ t seen : Text, splitAtFirst?.go q (crlf t) (crlf seen.reverse).reverse =
      (splitAtFirst?.go q t seen).map fun parts => (crlf parts.1, crlf parts.2) := by
    intro t
    fun_induction crlf t with
    | case1 =>
        intro seen
        simp only [splitAtFirst?.go]
        split
        · simp
        · rfl
    | case2 t ih =>
        intro seen
        have hreturn : q ('\r' :: '\n' :: crlf t) = false := by
          rw [← crlf_newline, hq, hline]
        have hseen : '\n' :: '\r' :: (crlf seen.reverse).reverse =
            (crlf ('\n' :: seen).reverse).reverse := by simp
        simp only [splitAtFirst?.go, hreturn, hline, Bool.false_eq_true, if_false, hseen]
        exact ih ('\n' :: seen)
    | case3 c t hc ih =>
        intro seen
        have hsame : q (c :: crlf t) = q (c :: t) := by rw [← crlf_cons hc, hq]
        have hseen : c :: (crlf seen.reverse).reverse = (crlf (c :: seen).reverse).reverse := by
          simp [crlf_cons hc]
        simp only [splitAtFirst?.go, hsame]
        split
        · simp [crlf_cons hc]
        · rw [hseen]
          exact ih (c :: seen)
  exact hgo t []

end TagTemplate.Text

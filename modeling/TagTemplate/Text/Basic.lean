/-!
# Text being read

A template is read as a list of characters. A piece cut off the front and the text that
follows it always concatenate to the text before the cut; the `_append` lemmas below say so
for each way of cutting. Sizes and offsets are counted in bytes of UTF-8.
-/

namespace TagTemplate

/-- Characters still to be read, or a piece that was cut off them. -/
abbrev Text := List Char

/-! ## Classes of characters -/

/-- White space as Unicode's `White_Space` property has it. -/
def isSpace (c : Char) : Bool :=
  let n := c.toNat
  (9 ≤ n && n ≤ 13) || n == 0x20 || n == 0x85 || n == 0xa0 || n == 0x1680 ||
    (0x2000 ≤ n && n ≤ 0x200a) || n == 0x2028 || n == 0x2029 || n == 0x202f || n == 0x205f ||
    n == 0x3000

def isIndent (c : Char) : Bool := c == ' ' || c == '\t'

theorem isSpace_of_isIndent {c : Char} (h : isIndent c = true) : isSpace c = true := by
  simp only [isIndent, Bool.or_eq_true, beq_iff_eq] at h
  rcases h with rfl | rfl <;> decide

namespace Text

/-! ## Sizes -/

def size (t : Text) : Nat := t.foldr (fun c n => c.utf8Size + n) 0

@[simp] theorem size_nil : size [] = 0 := rfl

@[simp] theorem size_cons (c : Char) (t : Text) : size (c :: t) = c.utf8Size + size t := rfl

@[simp] theorem size_append (s t : Text) : size (s ++ t) = size s + size t := by
  induction s with
  | nil => simp
  | cons c s ih => simp [ih, Nat.add_assoc]

theorem utf8ByteSize_ofList (t : Text) : (String.ofList t).utf8ByteSize = size t := by
  induction t with
  | nil => rfl
  | cons c t ih =>
      rw [← List.singleton_append, String.ofList_append, String.utf8ByteSize_append, ih,
        size_append]
      congr 1
      exact String.utf8ByteSize_singleton

theorem size_toList (s : String) : size s.toList = s.utf8ByteSize := by
  rw [← utf8ByteSize_ofList, String.ofList_toList]

theorem size_eq_zero_iff {t : Text} : size t = 0 ↔ t = [] := by
  cases t with
  | nil => simp
  | cons c t =>
      have := c.utf8Size_pos
      simp only [size_cons, reduceCtorEq, iff_false]
      omega

/-- Split after exactly `n` bytes; `none` inside a character and beyond the end. -/
def splitAtSize? (n : Nat) (t : Text) : Option (Text × Text) := go n t []
where
  /-- `seen` holds the characters before the split, last one first. -/
  go : Nat → Text → Text → Option (Text × Text)
    | 0, t, seen => some (seen.reverse, t)
    | _ + 1, [], _ => none
    | n + 1, c :: t, seen =>
        if c.utf8Size ≤ n + 1 then go (n + 1 - c.utf8Size) t (c :: seen) else none

theorem splitAtSize?_go_eq_some_iff {n : Nat} {t seen before after : Text} :
    splitAtSize?.go n t seen = some (before, after) ↔
      ∃ piece, before = seen.reverse ++ piece ∧ t = piece ++ after ∧ size piece = n := by
  fun_induction splitAtSize?.go n t seen with
  | case1 t seen =>
      simp only [Option.some.injEq, Prod.mk.injEq, size_eq_zero_iff]
      constructor
      · intro h
        rcases h with ⟨rfl, rfl⟩
        exact ⟨[], by simp⟩
      · intro h
        rcases h with ⟨piece, rfl, rfl, rfl⟩
        simp
  | case2 n seen =>
      simp only [reduceCtorEq, false_iff, not_exists]
      intro piece h
      rcases h with ⟨_, h, hn⟩
      have : piece = [] := (List.append_eq_nil_iff.mp h.symm).1
      simp [this] at hn
  | case3 n c t seen hc ih =>
      rw [ih]
      constructor
      · intro h
        rcases h with ⟨piece, rfl, rfl, hn⟩
        clear ih
        exact ⟨c :: piece, by simp, by simp, by rw [size_cons]; omega⟩
      · intro h
        rcases h with ⟨piece, rfl, ht, hn⟩
        cases piece with
        | nil => simp at hn
        | cons d piece =>
            obtain ⟨rfl, rfl⟩ : c = d ∧ t = piece ++ after := by simpa using ht
            exact ⟨piece, by simp, rfl, by simp only [size_cons] at hn; omega⟩
  | case4 n c t seen hc =>
      simp only [reduceCtorEq, false_iff, not_exists]
      intro piece h
      rcases h with ⟨_, ht, hn⟩
      cases piece with
      | nil => simp at hn
      | cons d piece =>
          obtain ⟨rfl, rfl⟩ : c = d ∧ t = piece ++ after := by simpa using ht
          simp only [size_cons] at hn
          omega

/-- A split after `n` bytes loses nothing, and its first part has exactly that size. -/
theorem splitAtSize?_eq_some_iff {n : Nat} {t before after : Text} :
    splitAtSize? n t = some (before, after) ↔ t = before ++ after ∧ size before = n := by
  simp [splitAtSize?, splitAtSize?_go_eq_some_iff]

/-! ## Cutting -/

theorem append_drop_of_isPrefixOf {piece t : Text} (h : piece.isPrefixOf t = true) :
    piece ++ t.drop piece.length = t :=
  List.prefix_iff_eq_append.mp (List.isPrefixOf_iff_prefix.mp h)

/-- Split at the first place where `p` holds of everything that follows. -/
def splitAtFirst? (p : Text → Bool) (t : Text) : Option (Text × Text) := go t []
where
  /-- `seen` holds the characters passed over, last one first. -/
  go : Text → Text → Option (Text × Text)
    | [], seen => if p [] then some (seen.reverse, []) else none
    | c :: t, seen => if p (c :: t) then some (seen.reverse, c :: t) else go t (c :: seen)

theorem splitAtFirst?_go_append {p : Text → Bool} {t seen before after : Text}
    (h : splitAtFirst?.go p t seen = some (before, after)) :
    before ++ after = seen.reverse ++ t ∧ p after = true := by
  fun_induction splitAtFirst?.go p t seen with
  | case1 seen hp =>
      simp only [Option.some.injEq, Prod.mk.injEq] at h
      obtain ⟨rfl, rfl⟩ := h
      exact ⟨rfl, hp⟩
  | case2 => simp at h
  | case3 seen c t hp =>
      simp only [Option.some.injEq, Prod.mk.injEq] at h
      obtain ⟨rfl, rfl⟩ := h
      exact ⟨rfl, hp⟩
  | case4 seen c t hp ih => simpa using ih h

theorem splitAtFirst?_append {p : Text → Bool} {t before after : Text}
    (h : splitAtFirst? p t = some (before, after)) : before ++ after = t := by
  simpa using (splitAtFirst?_go_append h).1

/-! ## Trimming -/

/-- Split off the longest run of `p` characters at the end. -/
def splitEndWhile (p : Char → Bool) (t : Text) : Text × Text :=
  ((t.reverse.dropWhile p).reverse, (t.reverse.takeWhile p).reverse)

@[simp] theorem splitEndWhile_append (p : Char → Bool) (t : Text) :
    (splitEndWhile p t).1 ++ (splitEndWhile p t).2 = t := by
  simp only [splitEndWhile, ← List.reverse_append, List.takeWhile_append_dropWhile,
    List.reverse_reverse]

def trimStart (t : Text) : Text := t.dropWhile isSpace

def trimEnd (t : Text) : Text := (splitEndWhile isSpace t).1

def trim (t : Text) : Text := trimEnd (trimStart t)

end Text

end TagTemplate

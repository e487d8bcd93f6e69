import TagTemplate.Fault
import TagTemplate.Text.Basic

/-!
# Readers

A reader takes some text off the front of what lies ahead and says what it makes of it, or it
stops with a fault. Either way it reports the text that it took, so that no reader has to know
where in the template it stands. `Faithful` says that the report is true; every reader below
is faithful, and `bind` keeps it.
-/

namespace TagTemplate

/-- What a reader made of the text ahead: a value, the text taken for it, and what follows. -/
structure Reading (α : Type) where
  value : α
  read : Text
  rest : Text
deriving Repr

/-- A fault, and the text taken before the place where it was found. -/
structure Stop where
  fault : Fault
  read : Text
deriving DecidableEq, Repr

def Reader (α : Type) : Type := Text → Except Stop (Reading α)

namespace Reader

variable {α β : Type}

protected def pure (value : α) : Reader α := fun t => .ok ⟨value, [], t⟩

/-- Read on with a reader that may depend on what was read first. -/
protected def bind (first : Reader α) (next : α → Reader β) : Reader β := fun t =>
  match first t with
  | .error stop => .error stop
  | .ok a =>
      match next a.value a.rest with
      | .error stop => .error { stop with read := a.read ++ stop.read }
      | .ok b => .ok { b with read := a.read ++ b.read }

instance : Monad Reader where
  pure := Reader.pure
  bind := Reader.bind

def fail (fault : Fault) : Reader α := fun _ => .error ⟨fault, []⟩

/-- The longest run of `p` characters, perhaps an empty one. -/
def takeWhile (p : Char → Bool) : Reader Text := fun t =>
  let run := t.takeWhile p
  .ok ⟨run, run, t.dropWhile p⟩

def spaces : Reader Text := takeWhile isSpace

/-- Take `piece` if it comes next, and tell whether it did. -/
def skip? (piece : Text) : Reader Bool := fun t =>
  if piece.isPrefixOf t then .ok ⟨true, piece, t.drop piece.length⟩ else .ok ⟨false, [], t⟩

def expect (piece : Text) (fault : Fault) : Reader Unit := do
  if ! (← skip? piece) then fail fault

def cutting (cut : Text → Option (Text × Text)) (fault : Fault) : Reader Text := fun t =>
  match cut t with
  | some (piece, rest) => .ok ⟨piece, piece, rest⟩
  | none => .error ⟨fault, []⟩

/-! ## Faithfulness -/

/-- The text that a reader reports is the text that it takes off the front. -/
structure Faithful (r : Reader α) : Prop where
  append : ∀ {t x}, r t = .ok x → x.read ++ x.rest = t
  isPrefix : ∀ {t stop}, r t = .error stop → stop.read <+: t

theorem faithful_pure (value : α) : Faithful (pure value : Reader α) where
  append h := by
    cases h
    rfl
  isPrefix h := nomatch h

theorem faithful_fail (fault : Fault) : Faithful (fail fault : Reader α) where
  append h := nomatch h
  isPrefix h := by
    cases h
    exact List.nil_prefix

theorem bind_eq_ok_iff {first : Reader α} {next : α → Reader β} {t : Text} {x : Reading β} :
    (first >>= next) t = .ok x ↔ ∃ a b, first t = .ok a ∧ next a.value a.rest = .ok b ∧
      x = { b with read := a.read ++ b.read } := by
  change Reader.bind first next t = _ ↔ _
  unfold Reader.bind
  cases first t with
  | error stop => simp
  | ok a =>
      cases hb : next a.value a.rest with
      | error stop => simp [hb]
      | ok b => simp [hb, eq_comm]

theorem bind_eq_error_iff {first : Reader α} {next : α → Reader β} {t : Text} {stop : Stop} :
    (first >>= next) t = .error stop ↔ first t = .error stop ∨
      ∃ a s, first t = .ok a ∧ next a.value a.rest = .error s ∧
        stop = { s with read := a.read ++ s.read } := by
  change Reader.bind first next t = _ ↔ _
  unfold Reader.bind
  cases first t with
  | error s => simp
  | ok a =>
      cases hb : next a.value a.rest with
      | error s => simp [hb, eq_comm]
      | ok b => simp [hb]

theorem Faithful.bind {first : Reader α} {next : α → Reader β} (hf : Faithful first)
    (hn : ∀ a, Faithful (next a)) : Faithful (first >>= next) where
  append h := by
    obtain ⟨a, b, ha, hb, rfl⟩ := bind_eq_ok_iff.mp h
    rw [List.append_assoc, (hn a.value).append hb, hf.append ha]
  isPrefix h := by
    rcases bind_eq_error_iff.mp h with h | ⟨a, s, ha, hs, rfl⟩
    · exact hf.isPrefix h
    · rw [← hf.append ha]
      exact List.prefix_append_right_inj _ |>.mpr ((hn a.value).isPrefix hs)

theorem faithful_takeWhile (p : Char → Bool) : Faithful (takeWhile p) where
  append h := by
    cases h
    exact List.takeWhile_append_dropWhile
  isPrefix h := nomatch h

theorem faithful_skip? (piece : Text) : Faithful (skip? piece) where
  append {t x} h := by
    unfold skip? at h
    split at h <;> cases h
    · rename_i hpiece
      exact Text.append_drop_of_isPrefixOf hpiece
    · rfl
  isPrefix {t stop} h := by
    unfold skip? at h
    split at h <;> cases h

theorem faithful_ite {c : Prop} [Decidable c] {r s : Reader α} (hr : Faithful r)
    (hs : Faithful s) : Faithful (if c then r else s) := by
  split
  · exact hr
  · exact hs

theorem faithful_expect (piece : Text) (fault : Fault) : Faithful (expect piece fault) :=
  (faithful_skip? piece).bind fun _ => faithful_ite (faithful_fail fault) (faithful_pure ())

theorem faithful_cutting {cut : Text → Option (Text × Text)} {fault : Fault}
    (hc : ∀ {t piece rest}, cut t = some (piece, rest) → piece ++ rest = t) :
    Faithful (cutting cut fault) where
  append {t x} h := by
    unfold cutting at h
    cases hd : cut t with
    | none => simp [hd] at h
    | some pair =>
        simp only [hd, Except.ok.injEq] at h
        subst h
        exact hc hd
  isPrefix {t stop} h := by
    unfold cutting at h
    cases hd : cut t with
    | none =>
        simp only [hd, Except.error.injEq] at h
        subst h
        exact List.nil_prefix
    | some pair => simp [hd] at h

end Reader

end TagTemplate

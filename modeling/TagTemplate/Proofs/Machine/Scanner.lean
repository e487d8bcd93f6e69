import TagTemplate.Proofs.Machine.Basic
import TagTemplate.Proofs.Pattern.Match

/-!
# Scanners and readers

A scanner finds by offsets what a reader finds on the text ahead. Between two characters of the
template none of its operations panics, and it moves the cursor to such a place again or halts with
the error for the place of the reader's fault.
-/

namespace TagTemplate.Machine

open Text

variable {α β : Type}

/-! ## Sequences -/

@[simp] theorem ok_bind (a : α) (f : α → Checked β) : (Except.ok a >>= f : Checked β) = f a := rfl

@[simp] theorem error_bind (halt : Halt) (f : α → Checked β) :
    ((Except.error halt : Checked α) >>= f) = .error halt := rfl

@[simp] theorem pure_eq_ok (a : α) : (pure a : Checked α) = .ok a := rfl

theorem bind_apply (x : Scanner α) (f : α → Scanner β) (c : Cursor) :
    (x >>= f) c = x c >>= fun scanned => f scanned.1 scanned.2 := rfl

theorem pure_apply (a : α) (c : Cursor) : (pure a : Scanner α) c = .ok (a, c) := rfl

theorem get_apply (c : Cursor) : (get : Scanner Cursor) c = .ok (c, c) := rfl

/-! ## Texts between offsets -/

theorem slice_append (before piece after : Text) :
    slice (before ++ piece ++ after) (size before) (size before + size piece) = .ok piece := by
  have hstop : splitAtSize? (size before + size piece) (before ++ piece ++ after) =
      some (before ++ piece, after) := splitAtSize?_eq_some_iff.mpr ⟨rfl, size_append _ _⟩
  have hstart : splitAtSize? (size before) (before ++ piece) = some (before, piece) :=
    splitAtSize?_eq_some_iff.mpr ⟨rfl, rfl⟩
  simp only [slice, hstop, hstart]

example : slice "née".toList 1 3 = .ok "é".toList := rfl

example : slice "née".toList 0 2 = .error (.panic .slice) := rfl

theorem slice_zero_append (before after : Text) :
    slice (before ++ after) 0 (size before) = .ok before := by
  simpa using slice_append [] before after

theorem slice_size_append (before after : Text) :
    slice (before ++ after) (size before) (size (before ++ after)) = .ok after := by
  simpa using slice_append before after []

theorem difference_add_left (m n : Nat) : difference (m + n) m = .ok n := by
  simp [difference]

theorem difference_add_right (m n : Nat) : difference (m + n) n = .ok m := by
  simp [difference]

/-- An error can be located at every offset between two characters. -/
theorem locate_eq {source : String} {offset : Nat} {before after : Text}
    (hsource : source.toList = before ++ after) (hoffset : size before = offset)
    (message : String) :
    locate source offset message = .ok (SyntaxError.locate source offset message) := by
  have hsplit : splitAtSize? offset (before ++ after) = some (before, after) :=
    splitAtSize?_eq_some_iff.mpr ⟨rfl, hoffset⟩
  have hmin : min offset (size (before ++ after)) = size before := by
    rw [hoffset, size_append]
    omega
  obtain ⟨lines, hlines⟩ : ∃ lines, before.rdropWhile (· ≠ '\n') = lines := ⟨_, rfl⟩
  obtain ⟨line, hline⟩ : ∃ line, (before.reverse.takeWhile (· ≠ '\n')).reverse = line := ⟨_, rfl⟩
  have hbefore : before = lines ++ line := by
    rw [← hlines, ← hline]
    exact List.rdropWhile_append_rtakeWhile.symm
  have htext : before ++ after =
      lines ++ (line ++ after.takeWhile (· ≠ '\n')) ++ after.dropWhile (· ≠ '\n') := by
    rw [hbefore, ← List.append_assoc lines, List.append_assoc (lines ++ line),
      List.takeWhile_append_dropWhile]
  have hcolumn : difference (size before) (size lines) = .ok (size line) := by
    rw [hbefore, size_append]
    exact difference_add_left _ _
  have hcut : slice (before ++ after) (size lines)
      (size before + size (after.takeWhile (· ≠ '\n'))) =
        .ok (line ++ after.takeWhile (· ≠ '\n')) := by
    have hstop : size before + size (after.takeWhile (· ≠ '\n')) =
        size lines + size (line ++ after.takeWhile (· ≠ '\n')) := by
      rw [hbefore, size_append, size_append, Nat.add_assoc]
    rw [hstop, htext]
    exact slice_append _ _ _
  simp only [locate, SyntaxError.locate, hsource, hsplit, hmin, slice_zero_append,
    slice_size_append, ok_bind, pure_eq_ok, Option.getD_some, hlines, hline, hcolumn, hcut,
    fst_splitEndWhile]

theorem refuse_eq {source : String} {offset : Nat} {before after : Text}
    (hsource : source.toList = before ++ after) (hoffset : size before = offset)
    (fault : Fault) : (refuse source offset fault : Checked α) =
      .error (.refused (SyntaxError.locate source offset fault.message)) := by
  rw [refuse, locate_eq hsource hoffset]
  rfl

/-! ## Operations of the cursor -/

section Operations

variable {c : Cursor} {before ahead : Text}

theorem advance_append (c : Cursor) (s t : Text) :
    (c.advance s).advance t = c.advance (s ++ t) := by
  simp [Cursor.advance, Nat.add_assoc]

theorem advance_nil (c : Cursor) : c.advance [] = c := rfl

theorem onBoundary_of_split (h : c.split = .ok (before, ahead)) : onBoundary c = true := by
  obtain ⟨hs, hn⟩ := Cursor.split_eq_ok_iff.mp h
  rw [onBoundary, splitAtSize?_eq_some_iff.mpr ⟨hs, hn⟩]
  rfl

theorem perform_of_advance {op : Cursor.Op} {answer : Cursor.Answer} {piece rest : Text}
    (hc : c.split = .ok (before, ahead)) (happ : piece ++ rest = ahead)
    (h : c.perform op = .ok (answer, c.advance piece)) :
    perform op c = .ok (answer, c.advance piece) := by
  rw [← happ] at hc
  simp only [perform, h, onBoundary_of_split (Cursor.split_advance hc), if_true]

theorem perform_of_stay {op : Cursor.Op} {answer : Cursor.Answer}
    (hc : c.split = .ok (before, ahead)) (h : c.perform op = .ok (answer, c)) :
    perform op c = .ok (answer, c) := by
  simp only [perform, h, onBoundary_of_split hc, if_true]

theorem perform_rest (hc : c.split = .ok (before, ahead)) :
    perform .rest c = .ok (.text (String.ofList ahead), c) := by
  refine perform_of_stay hc ?_
  simp only [Cursor.perform, Cursor.rest, hc, bind, Except.bind, pure, Except.pure]

theorem perform_terminate (hc : c.split = .ok (before, ahead)) :
    perform .terminate c = .ok (.nothing, c.advance ahead) := by
  obtain ⟨hs, hn⟩ := Cursor.split_eq_ok_iff.mp hc
  have hend : c.terminate = c.advance ahead := by
    rw [Cursor.terminate, Cursor.advance, Cursor.size, hs, size_append, hn]
  refine perform_of_advance hc (List.append_nil ahead) ?_
  rw [Cursor.perform, hend]

theorem perform_reset (hc : c.split = .ok (before, ahead)) :
    perform (.reset c.offset) c = .ok (.nothing, c) := by
  obtain ⟨hs, hn⟩ := Cursor.split_eq_ok_iff.mp hc
  have hmin : min c.offset c.size = c.offset := by
    rw [Cursor.size, hs, size_append, hn]
    omega
  refine perform_of_stay hc ?_
  rw [Cursor.perform, Cursor.reset, hmin]

/-! ### Matching -/

theorem matchRest?_of_match? {q : Pattern} {piece rest : Text} {way : Pattern.Way}
    (hc : c.split = .ok (before, ahead)) (happ : piece ++ rest = ahead)
    (h : q.match? (Place.start ahead) = some way) (hrest : way.stop.ahead = rest) :
    c.matchRest? q = .ok (some (piece, way)) := by
  have htext : Pattern.Span.text ⟨Place.start ahead, way.stop⟩ = piece := by
    have hspan := @Pattern.Span.text_append ⟨Place.start ahead, way.stop⟩
      (Pattern.reaches_of_match? h)
    rw [hrest] at hspan
    exact List.append_cancel_right (hspan.trans happ.symm)
  simp only [Cursor.matchRest?, Cursor.rest, hc, bind, Except.bind, pure, Except.pure, h,
    Option.map_some, htext]

theorem matchRest?_eq_none {q : Pattern} (hc : c.split = .ok (before, ahead))
    (h : q.match? (Place.start ahead) = none) : c.matchRest? q = .ok none := by
  simp only [Cursor.matchRest?, Cursor.rest, hc, bind, Except.bind, pure, Except.pure, h,
    Option.map_none]

theorem scan_of_leaves {q : Pattern} {piece rest : Text} (hc : c.split = .ok (before, ahead))
    (happ : piece ++ rest = ahead) (h : q.Leaves ahead rest) :
    scan q c = .ok (some piece, c.advance piece) := by
  obtain ⟨way, hway, hrest⟩ := h
  have hop : c.perform (.scan q) = .ok (.text (String.ofList piece), c.advance piece) := by
    simp only [Cursor.perform, Cursor.scan, matchRest?_of_match? hc happ hway hrest, bind,
      Except.bind, pure, Except.pure]
  simp only [scan, bind_apply, perform_of_advance hc happ hop, ok_bind, pure_apply, textOf?,
    String.toList_ofList]

theorem scan_eq_none {q : Pattern} (hc : c.split = .ok (before, ahead))
    (h : q.match? (Place.start ahead) = none) : scan q c = .ok (none, c) := by
  have hop : c.perform (.scan q) = .ok (.nothing, c) := by
    simp only [Cursor.perform, Cursor.scan, matchRest?_eq_none hc h, bind, Except.bind, pure,
      Except.pure]
  simp only [scan, bind_apply, perform_of_stay hc hop, ok_bind, pure_apply, textOf?]

theorem skip_of_leaves {q : Pattern} {piece rest : Text} (hc : c.split = .ok (before, ahead))
    (happ : piece ++ rest = ahead) (h : q.Leaves ahead rest) :
    skip q c = .ok (true, c.advance piece) := by
  obtain ⟨way, hway, hrest⟩ := h
  have hop : c.perform (.skip q) = .ok (.flag true, c.advance piece) := by
    simp only [Cursor.perform, Cursor.skip, matchRest?_of_match? hc happ hway hrest, bind,
      Except.bind, pure, Except.pure]
  simp only [skip, bind_apply, perform_of_advance hc happ hop, ok_bind, pure_apply, flagOf]

theorem skip_eq_false {q : Pattern} (hc : c.split = .ok (before, ahead))
    (h : q.match? (Place.start ahead) = none) : skip q c = .ok (false, c) := by
  have hop : c.perform (.skip q) = .ok (.flag false, c) := by
    simp only [Cursor.perform, Cursor.skip, matchRest?_eq_none hc h, bind, Except.bind, pure,
      Except.pure]
  simp only [skip, bind_apply, perform_of_stay hc hop, ok_bind, pure_apply, flagOf]

theorem skipText_of_append {piece rest : Text} (hc : c.split = .ok (before, ahead))
    (happ : piece ++ rest = ahead) : skipText piece c = .ok (true, c.advance piece) := by
  have hop : c.perform (.skipText (String.ofList piece)) = .ok (.flag true, c.advance piece) := by
    simp [Cursor.perform, Cursor.skipText, Cursor.rest, hc, ← happ, bind, Except.bind, pure,
      Except.pure]
  simp only [skipText, bind_apply, perform_of_advance hc happ hop, ok_bind, pure_apply, flagOf]

theorem skipText_eq_false {piece : Text} (hc : c.split = .ok (before, ahead))
    (h : ¬ piece <+: ahead) : skipText piece c = .ok (false, c) := by
  have hop : c.perform (.skipText (String.ofList piece)) = .ok (.flag false, c) := by
    simp [Cursor.perform, Cursor.skipText, Cursor.rest, hc, bind, Except.bind, pure, Except.pure, h]
  simp only [skipText, bind_apply, perform_of_stay hc hop, ok_bind, pure_apply, flagOf]

/-! ### Searching -/

theorem seekPlace?_eq (hc : c.split = .ok (before, ahead)) :
    c.seekPlace? = some ⟨before.getLast?, ahead⟩ := by
  obtain ⟨hs, hn⟩ := Cursor.split_eq_ok_iff.mp hc
  have hsplit : splitAtSize? (c.offset + 0) c.source.toList = some (before, ahead) :=
    splitAtSize?_eq_some_iff.mpr ⟨hs, hn⟩
  rw [Cursor.seekPlace?, List.range_succ_eq_map, List.findSome?_cons, hsplit]
  rfl

theorem scanUntil_of_find? {q : Pattern} {piece : Text} {stop : Place}
    (hc : c.split = .ok (before, ahead))
    (h : q.find? ⟨before.getLast?, ahead⟩ = some (piece, stop)) :
    scanUntil q c = .ok (some piece, c.advance piece) := by
  have happ : piece ++ stop.ahead = ahead := by
    rw [Pattern.find?_eq_seek?] at h
    exact (Place.seek?_append h).1
  have hop : c.perform (.scanUntil q) = .ok (.text (String.ofList piece), c.advance piece) := by
    simp only [Cursor.perform, Cursor.scanUntil, seekPlace?_eq hc, Option.bind_some, h, hc, bind,
      Except.bind, pure, Except.pure]
  simp only [scanUntil, bind_apply, perform_of_advance hc happ hop, ok_bind, pure_apply, textOf?,
    String.toList_ofList]

theorem scanUntil_eq_none {q : Pattern} (hc : c.split = .ok (before, ahead))
    (h : q.find? ⟨before.getLast?, ahead⟩ = none) : scanUntil q c = .ok (none, c) := by
  have hop : c.perform (.scanUntil q) = .ok (.nothing, c) := by
    simp only [Cursor.perform, Cursor.scanUntil, seekPlace?_eq hc, Option.bind_some, h, pure,
      Except.pure]
  simp only [scanUntil, bind_apply, perform_of_stay hc hop, ok_bind, pure_apply, textOf?]

end Operations

/-! ## Refinement of readers -/

/-- The scanner does what the reader does with the text ahead: it moves the cursor past the text
taken and gives what `f` makes of the value, or halts with the error for the place of the fault. -/
structure Refines (f : β → α) (x : Scanner α) (r : Reader β) : Prop where
  faithful : r.Faithful
  ok : ∀ {c : Cursor} {before ahead : Text} {reading : Reading β}, c.split = .ok (before, ahead) →
    r ahead = .ok reading → x c = .ok (f reading.value, c.advance reading.read)
  error : ∀ {c : Cursor} {before ahead : Text} {stop : Stop}, c.split = .ok (before, ahead) →
    r ahead = .error stop → x c = .error (.refused
      (SyntaxError.locate c.source (c.offset + size stop.read) stop.fault.message))

namespace Refines

variable {γ δ : Type}

theorem bind {f : β → α} {x : Scanner α} {r : Reader β} {g : δ → γ} {y : α → Scanner γ}
    {s : β → Reader δ} (hx : Refines f x r) (hy : ∀ b, Refines g (y (f b)) (s b)) :
    Refines g (x >>= y) (r >>= s) where
  faithful := hx.faithful.bind fun b => (hy b).faithful
  ok {c before ahead reading} hc h := by
    obtain ⟨a, b, ha, hb, rfl⟩ := Reader.bind_eq_ok_iff.mp h
    rw [← hx.faithful.append ha] at hc ha
    rw [bind_apply, hx.ok hc ha, ok_bind, (hy a.value).ok (Cursor.split_advance hc) hb,
      advance_append]
  error {c before ahead stop} hc h := by
    rcases Reader.bind_eq_error_iff.mp h with h | ⟨a, s, ha, hs, rfl⟩
    · rw [bind_apply, hx.error hc h, error_bind]
    · rw [← hx.faithful.append ha] at hc ha
      rw [bind_apply, hx.ok hc ha, ok_bind, (hy a.value).error (Cursor.split_advance hc) hs]
      simp only [Cursor.advance, size_append, Nat.add_assoc]

theorem pure (f : β → α) (value : β) :
    Refines f (pure (f value) : Scanner α) (pure value : Reader β) where
  faithful := Reader.faithful_pure value
  ok _ h := by
    cases h
    rfl
  error _ h := nomatch h

theorem failHere (f : β → α) (fault : Fault) :
    Refines f (failHere fault : Scanner α) (Reader.fail fault : Reader β) where
  faithful := Reader.faithful_fail fault
  ok _ h := nomatch h
  error hc h := by
    cases h
    obtain ⟨hs, hn⟩ := Cursor.split_eq_ok_iff.mp hc
    exact refuse_eq hs hn fault

theorem ite {f : β → α} {p : Prop} [Decidable p] {x y : Scanner α} {r s : Reader β}
    (hx : Refines f x r) (hy : Refines f y s) :
    Refines f (if p then x else y) (if p then r else s) := by
  split
  · exact hx
  · exact hy

end Refines

end TagTemplate.Machine

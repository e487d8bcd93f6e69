import TagTemplate.Proofs.Cursor.Engine

/-!
# Runs of a cursor over an engine

Over a lawful engine a cursor stays between two characters: from there every operation succeeds,
does exactly what it reports and leads to such a place again. So no operation can fail in a run,
as long as the cursor is reset to places where it has been before, and if it never jumps, what it
passes over adds up to the text before it.
-/

namespace TagTemplate

open Text Machine

/-! ## Boundaries -/

theorem Text.IsBoundary.le_size {t : Text} {offset : Nat} (h : IsBoundary t offset) :
    offset ≤ size t := by
  obtain ⟨before, after, rfl, rfl⟩ := h
  rw [size_append]
  exact Nat.le_add_right _ _

theorem Text.slice_append_slice {t : Text} {m n : Nat} (hm : IsBoundary t m) (hn : IsBoundary t n)
    (hle : m ≤ n) : Text.slice 0 m t ++ Text.slice m n t = Text.slice 0 n t := by
  obtain ⟨before, ahead, happ, rfl⟩ := hm
  obtain ⟨front, after, rfl, rfl⟩ := hn
  obtain ⟨piece, rfl⟩ := exists_append_of_size_le happ.symm hle
  rw [Text.slice_zero_append, size_append, Text.slice_append, List.append_assoc,
    Text.slice_zero_append]

namespace Engine

variable {Q : Type} {E : Engine Q} {Matches : Q → Text → Nat → Nat → Prop}

theorem PassesMatch.imp {q : Q} {source : Text} {start stop : Nat} {failed passed passed' : Prop}
    (h : PassesMatch Matches q source start stop failed passed) (hpassed : passed → passed') :
    PassesMatch Matches q source start stop failed passed' :=
  h.imp_right fun ⟨h, hrest⟩ => ⟨hpassed h, hrest⟩

/-! ## Operations -/

/-- The operation succeeds, leads to a place between two characters and does what it reports. -/
def Serves (E : Engine Q) (Matches : Q → Text → Nat → Nat → Prop) (c : Cursor) (op : Op Q) : Prop :=
  ∃ answer moved, E.perform c op = .ok (answer, moved) ∧ moved.source = c.source ∧
    IsBoundary c.source.toList moved.offset ∧
    Step.Exact Matches c.source.toList ⟨op, c.offset, answer, moved.offset⟩

section Operations

variable {c : Cursor} {op : Op Q} {answer : Cursor.Answer} {before ahead piece after : Text}

theorem isBoundary_of_split (hc : c.split = .ok (before, ahead)) :
    IsBoundary c.source.toList c.offset :=
  ⟨before, ahead, Cursor.split_eq_ok_iff.mp hc⟩

theorem rest_eq (hc : c.split = .ok (before, ahead)) : rest c = .ok ahead := by
  obtain ⟨hs, hn⟩ := Cursor.split_eq_ok_iff.mp hc
  rw [rest, Cursor.size, hs, ← hn, Machine.slice_size_append]

theorem slice_ahead (hc : c.split = .ok (before, ahead)) :
    Text.slice c.offset (size c.source.toList) c.source.toList = ahead := by
  obtain ⟨hs, hn⟩ := Cursor.split_eq_ok_iff.mp hc
  rw [hs, ← hn, Text.slice_size_append]

theorem slice_before (hc : c.split = .ok (before, ahead)) :
    Text.slice 0 c.offset c.source.toList = before := by
  obtain ⟨hs, hn⟩ := Cursor.split_eq_ok_iff.mp hc
  rw [hs, ← hn, Text.slice_zero_append]

theorem slice_passed (hc : c.split = .ok (before, piece ++ after)) :
    Text.slice c.offset (c.offset + size piece) c.source.toList = piece := by
  obtain ⟨hs, hn⟩ := Cursor.split_eq_ok_iff.mp hc
  rw [hs, ← hn, ← List.append_assoc, Text.slice_append]

theorem serves_of_stay (hc : c.split = .ok (before, ahead)) (h : E.perform c op = .ok (answer, c))
    (hexact : Step.Exact Matches c.source.toList ⟨op, c.offset, answer, c.offset⟩) :
    E.Serves Matches c op :=
  ⟨answer, c, h, rfl, isBoundary_of_split hc, hexact⟩

theorem serves_of_advance (hc : c.split = .ok (before, piece ++ after))
    (h : E.perform c op = .ok (answer, c.advance piece))
    (hexact : Step.Exact Matches c.source.toList ⟨op, c.offset, answer, c.offset + size piece⟩) :
    E.Serves Matches c op :=
  ⟨answer, c.advance piece, h, rfl, isBoundary_of_split (Cursor.split_advance hc), hexact⟩

/-! ### Matching -/

variable {q : Q}

/-- Either the pattern does not match here, or a match of it is cut off the text ahead. -/
theorem matchHere?_cases (hE : E.Lawful Matches) (hc : c.split = .ok (before, ahead)) :
    E.matchHere? q c = .ok none ∧ (∀ n, ¬ Matches q ahead 0 n) ∨
      ∃ piece after m, ahead = piece ++ after ∧ m.stop = size piece ∧
        Matches q ahead 0 (size piece) ∧ E.matchHere? q c = .ok (some (piece, m)) := by
  have hzero : IsBoundary ahead 0 := ⟨[], ahead, rfl, rfl⟩
  simp only [matchHere?, rest_eq hc, ok_bind, pure_eq_ok]
  cases hm : E.search q ahead 0 with
  | none => exact .inl ⟨rfl, fun n => hE.missing hzero hm (Nat.zero_le 0)⟩
  | some m =>
      by_cases hstart : m.start = 0
      · obtain ⟨-, -, -, ⟨piece, after, rfl, hstop⟩, hmatch⟩ := hE.found hzero hm
        rw [hstart, ← hstop] at hmatch
        refine .inr ⟨piece, after, m, rfl, hstop.symm, hmatch, ?_⟩
        simp only [if_pos hstart, ← hstop, Machine.slice_zero_append, ok_bind]
      · refine .inl ⟨by simp only [if_neg hstart], fun n => ?_⟩
        exact hE.leftmost hzero hm (Nat.zero_le 0) (Nat.pos_of_ne_zero hstart)

/-- An operation that passes over a match here. -/
theorem serves_of_passMatch {failed : Cursor.Answer} {passed : Text → Finding → Cursor.Answer}
    (hE : E.Lawful Matches) (hc : c.split = .ok (before, ahead))
    (hop : E.perform c op = E.passMatch q c failed passed)
    (hexact : ∀ answer stop,
      PassesMatch Matches q c.source.toList c.offset stop (answer = failed)
        (∃ m, answer = passed (Text.slice c.offset stop c.source.toList) m) →
      Step.Exact Matches c.source.toList ⟨op, c.offset, answer, stop⟩) :
    E.Serves Matches c op := by
  rw [passMatch] at hop
  rcases matchHere?_cases (q := q) hE hc with
    ⟨hnone, hno⟩ | ⟨piece, after, m, rfl, hstop, hmatch, hsome⟩
  · rw [hnone, ok_bind] at hop
    refine serves_of_stay hc hop (hexact _ _ (.inl ⟨rfl, rfl, ?_⟩))
    rwa [slice_ahead hc]
  · rw [hsome, ok_bind] at hop
    have hmoved : E.perform c op = .ok (passed piece m, c.advance piece) := by
      rw [hop, Cursor.advance, ← hstop]
      rfl
    refine serves_of_advance hc hmoved (hexact _ _ (.inr ⟨⟨m, ?_⟩, Nat.le_add_right _ _, ?_⟩))
    · rw [slice_passed hc]
    · rwa [slice_ahead hc, Nat.add_sub_cancel_left]

/-- What lies on the way to a match is passed over. -/
theorem serves_scanUntil (hE : E.Lawful Matches) (hc : c.split = .ok (before, ahead)) :
    E.Serves Matches c (.scanUntil q) := by
  obtain ⟨hs, hn⟩ := Cursor.split_eq_ok_iff.mp hc
  have hboundary := isBoundary_of_split hc
  have hle : ¬ c.size < c.offset := by
    rw [Cursor.size, hs, size_append]
    omega
  cases hm : E.search q c.source.toList c.offset with
  | none =>
      have hop : E.perform c (.scanUntil q) = .ok (.nothing, c) := by
        simp only [perform, if_neg hle, hm]
      exact serves_of_stay hc hop (.inl ⟨rfl, rfl, fun _ _ => hE.missing hboundary hm⟩)
  | some m =>
      obtain ⟨hfrom, -, ⟨front, after, happ, hfront⟩, -, hmatch⟩ := hE.found hboundary hm
      obtain ⟨piece, rfl⟩ : ∃ piece, front = before ++ piece :=
        exists_append_of_size_le (hs.symm.trans happ) (by omega)
      rw [happ, List.append_assoc, List.append_cancel_left_eq] at hs
      subst hs
      have hstart : m.start = c.offset + size piece := by rw [← hfront, size_append, hn]
      have hop : E.perform c (.scanUntil q) =
          .ok (.text (String.ofList piece), c.advance piece) := by
        have hcut : Machine.slice c.source.toList c.offset m.start = .ok piece := by
          rw [happ, hstart, ← hn, Machine.slice_append]
        simp only [perform, if_neg hle, hm, hcut, ok_bind, pure_eq_ok]
        rw [hstart, Cursor.advance]
      refine serves_of_advance hc hop (.inr ⟨?_, Nat.le_add_right _ _, ⟨m.stop, ?_⟩, ?_⟩)
      · rw [Step.consumed, slice_passed hc]
      · rwa [← hstart]
      · intro place n hplace hlt
        exact hE.leftmost hboundary hm hplace (hstart ▸ hlt)

theorem serves_skipText (hc : c.split = .ok (before, ahead)) (literal : String) :
    E.Serves Matches c (.skipText literal) := by
  by_cases hprefix : literal.toList <+: ahead
  · obtain ⟨after, rfl⟩ := hprefix
    have hop : E.perform c (.skipText literal) = .ok (.flag true, c.advance literal.toList) := by
      simp [perform, rest_eq hc, Cursor.advance, size_toList]
    refine serves_of_advance hc hop (.inr ⟨rfl, Nat.le_add_right _ _, ?_⟩)
    rw [Step.consumed, slice_passed hc, String.ofList_toList]
  · have hop : E.perform c (.skipText literal) = .ok (.flag false, c) := by
      simp [perform, rest_eq hc, hprefix]
    refine serves_of_stay hc hop (.inl ⟨rfl, rfl, ?_⟩)
    rwa [slice_ahead hc]

/-! ### All operations -/

theorem atLineStart_eq (hc : c.split = .ok (before, ahead)) :
    c.atLineStart = (c.offset == 0 || before.getLast? == some '\n') := by
  obtain ⟨-, hn⟩ := Cursor.split_eq_ok_iff.mp hc
  rw [Cursor.atLineStart, hc, ← hn]
  rcases List.eq_nil_or_concat before with rfl | ⟨front, char, rfl⟩
  · rfl
  · have hpos := char.utf8Size_pos
    simp
    omega

/-- An operation that goes nowhere but to a boundary serves at a boundary. -/
theorem serves (hE : E.Lawful Matches) (h : IsBoundary c.source.toList c.offset) (op : Op Q)
    (hop : ∀ offset, op = .reset offset → IsBoundary c.source.toList offset) :
    E.Serves Matches c op := by
  obtain ⟨before, ahead, hsplit⟩ := h
  have hc : c.split = .ok (before, ahead) := Cursor.split_eq_ok_iff.mpr hsplit
  cases op with
  | scan q => exact serves_of_passMatch hE hc rfl fun _ _ h => h.imp fun ⟨_, hpassed⟩ => hpassed
  | skip q => exact serves_of_passMatch hE hc rfl fun _ _ h => h.imp fun ⟨_, hpassed⟩ => hpassed
  | captures q =>
      exact serves_of_passMatch hE hc rfl fun _ _ h => h.imp fun ⟨m, hpassed⟩ => ⟨m.groups, hpassed⟩
  | scanUntil q => exact serves_scanUntil hE hc
  | skipText literal => exact serves_skipText hc literal
  | reset offset =>
      have hboundary := hop offset rfl
      have hmin : min offset c.size = offset := Nat.min_eq_left hboundary.le_size
      exact ⟨.nothing, ⟨c.source, min offset c.size⟩, rfl, rfl, hmin.symm ▸ hboundary, rfl, hmin⟩
  | terminate =>
      exact ⟨.nothing, c.terminate, rfl, rfl, ⟨_, [], (List.append_nil _).symm, rfl⟩, rfl, rfl⟩
  | rest =>
      have hrest : E.perform c .rest = .ok (.text (String.ofList ahead), c) := by
        simp only [perform, rest_eq hc, ok_bind, pure_eq_ok]
      exact serves_of_stay hc hrest ⟨by rw [slice_ahead hc], rfl⟩
  | source =>
      exact serves_of_stay hc rfl ⟨by rw [String.ofList_toList], rfl⟩
  | atEnd =>
      have hle : c.offset ≤ c.size := (isBoundary_of_split hc).le_size
      have hend : decide (c.size ≤ c.offset) = (c.offset == c.size) := by
        rw [Bool.eq_iff_iff, decide_eq_true_iff, beq_iff_eq]
        omega
      exact serves_of_stay hc rfl ⟨congrArg Cursor.Answer.flag hend, rfl⟩
  | atLineStart =>
      have hle : c.offset ≤ c.size := (isBoundary_of_split hc).le_size
      have hline : E.perform c .atLineStart = .ok (.flag c.atLineStart, c) := if_pos hle
      exact serves_of_stay hc hline ⟨by rw [atLineStart_eq hc, slice_before hc], rfl⟩

end Operations

/-! ## Runs -/

/-- A reset goes to a place that was visited. -/
def Op.Allowed (visited : List Nat) : Op Q → Prop
  | .reset offset => offset ∈ visited
  | _ => True

instance (places : List Nat) : (op : Op Q) → Decidable (op.Allowed places)
  | .reset offset => inferInstanceAs (Decidable (offset ∈ places))
  | .scan _ | .skip _ | .captures _ | .scanUntil _ | .skipText _ | .terminate | .rest | .source
  | .atEnd | .atLineStart => .isTrue trivial

def Op.jumps : Op Q → Bool
  | .reset _ | .terminate => true
  | _ => false

/-- Where a cursor has been in the steps up to now, and where it is. -/
def visited (history : List (Step Q)) (c : Cursor) : List Nat := c.offset :: history.map Step.start

theorem mem_visited_append_iff {history : List (Step Q)} {c moved : Cursor} {op : Op Q}
    {answer : Cursor.Answer} {offset : Nat} :
    offset ∈ visited (history ++ [⟨op, c.offset, answer, moved.offset⟩]) moved ↔
      offset = moved.offset ∨ offset ∈ visited history c := by
  simp only [visited, List.mem_cons, List.map_append, List.map_singleton, List.mem_append,
    List.not_mem_nil, or_false]
  exact or_congr_right or_comm

/-- The steps of a run from the start of a source, and the cursor to which they lead. -/
inductive Runs (E : Engine Q) (source : String) : List (Step Q) → Cursor → Prop
  | start : Runs E source [] ⟨source, 0⟩
  | step {history : List (Step Q)} {c moved : Cursor} {op : Op Q} {answer : Cursor.Answer}
      (h : Runs E source history c) (hop : op.Allowed (visited history c))
      (hperform : E.perform c op = .ok (answer, moved)) :
      Runs E source (history ++ [⟨op, c.offset, answer, moved.offset⟩]) moved

/-- What a run comes to. -/
structure RunsExactly (E : Engine Q) (Matches : Q → Text → Nat → Nat → Prop) (source : String)
    (history : List (Step Q)) (c : Cursor) : Prop where
  source_eq : c.source = source
  /-- The cursor stands between two characters or at an end, and so it did before. -/
  boundary : ∀ offset ∈ visited history c, IsBoundary source.toList offset
  inside : c.offset ≤ source.utf8ByteSize
  /-- No operation panics. -/
  proceeds : ∀ op : Op Q, op.Allowed (visited history c) →
    ∃ answer moved, E.perform c op = .ok (answer, moved)
  exact : ∀ step ∈ history, step.Exact Matches source.toList
  /-- If the cursor never jumped, it passed over all the text before it. -/
  consumed : (∀ step ∈ history, step.op.jumps = false) →
    history.flatMap (Step.consumed source.toList) = Text.slice 0 c.offset source.toList

/-! ### One step -/

theorem Op.Allowed.isBoundary {t : Text} {places : List Nat} {op : Op Q} (h : op.Allowed places)
    (hplaces : ∀ offset ∈ places, IsBoundary t offset) (offset : Nat) (hop : op = .reset offset) :
    IsBoundary t offset := by
  subst hop
  exact hplaces offset h

theorem Serves.of_perform {c moved : Cursor} {op : Op Q} {answer : Cursor.Answer}
    (h : E.Serves Matches c op) (hperform : E.perform c op = .ok (answer, moved)) :
    moved.source = c.source ∧ IsBoundary c.source.toList moved.offset ∧
      Step.Exact Matches c.source.toList ⟨op, c.offset, answer, moved.offset⟩ := by
  obtain ⟨answer', moved', hperform', hfacts⟩ := h
  cases hperform.symm.trans hperform'
  exact hfacts

theorem Step.Exact.start_le_stop {source : Text} {step : Step Q} (h : step.Exact Matches source)
    (hop : step.op.jumps = false) : step.start ≤ step.stop := by
  obtain ⟨op, start, answer, stop⟩ := step
  cases op with
  | scan | skip | captures | scanUntil | skipText =>
      rcases h with ⟨-, hstay, -⟩ | ⟨-, hle, -⟩
      · exact Nat.le_of_eq hstay.symm
      · exact hle
  | reset | terminate => cases hop
  | rest | source | atEnd | atLineStart => exact Nat.le_of_eq h.2.symm

/-! ### All steps -/

section Run

variable {source : String} {history : List (Step Q)} {c : Cursor}

theorem Runs.boundary (hE : E.Lawful Matches) (h : E.Runs source history c) :
    c.source = source ∧ ∀ offset ∈ visited history c, IsBoundary source.toList offset := by
  induction h with
  | start => exact ⟨rfl, List.forall_mem_singleton.mpr ⟨[], source.toList, rfl, rfl⟩⟩
  | @step history c moved op answer h hop hperform ih =>
      obtain ⟨rfl, hvisited⟩ := ih
      have hserves := serves hE (hvisited c.offset List.mem_cons_self) op (hop.isBoundary hvisited)
      obtain ⟨hsource, hboundary, -⟩ := hserves.of_perform hperform
      refine ⟨hsource, fun offset hmem => ?_⟩
      rcases mem_visited_append_iff.mp hmem with rfl | hmem
      · exact hboundary
      · exact hvisited offset hmem

/-- Whatever is allowed at the end of a run is performed there. -/
theorem Runs.serves (hE : E.Lawful Matches) (h : E.Runs source history c) {op : Op Q}
    (hop : op.Allowed (visited history c)) : E.Serves Matches c op := by
  obtain ⟨rfl, hvisited⟩ := h.boundary hE
  exact Engine.serves hE (hvisited c.offset List.mem_cons_self) op (hop.isBoundary hvisited)

theorem Runs.exact (hE : E.Lawful Matches) (h : E.Runs source history c) :
    ∀ step ∈ history, step.Exact Matches source.toList := by
  induction h with
  | start => exact nofun
  | step h hop hperform ih =>
      obtain ⟨rfl, -⟩ := h.boundary hE
      rw [List.forall_mem_append]
      exact ⟨ih, List.forall_mem_singleton.mpr ((h.serves hE hop).of_perform hperform).2.2⟩

theorem Runs.consumed (hE : E.Lawful Matches) (h : E.Runs source history c)
    (hjumps : ∀ step ∈ history, step.op.jumps = false) :
    history.flatMap (Step.consumed source.toList) = Text.slice 0 c.offset source.toList := by
  induction h with
  | start => exact (Text.slice_zero_append [] source.toList).symm
  | step h hop hperform ih =>
      obtain ⟨rfl, hvisited⟩ := h.boundary hE
      obtain ⟨-, hboundary, hexact⟩ := (h.serves hE hop).of_perform hperform
      obtain ⟨hbefore, hlast⟩ := List.forall_mem_append.mp hjumps
      have hle := hexact.start_le_stop (hlast _ List.mem_cons_self)
      rw [List.flatMap_append, ih hbefore, List.flatMap_singleton]
      exact Text.slice_append_slice (hvisited _ List.mem_cons_self) hboundary hle

theorem Runs.runsExactly (hE : E.Lawful Matches) (h : E.Runs source history c) :
    E.RunsExactly Matches source history c where
  source_eq := (h.boundary hE).1
  boundary := (h.boundary hE).2
  inside := by
    rw [← size_toList]
    exact ((h.boundary hE).2 c.offset List.mem_cons_self).le_size
  proceeds _ hop := by
    obtain ⟨answer, moved, hperform, -⟩ := h.serves hE hop
    exact ⟨answer, moved, hperform⟩
  exact := h.exact hE
  consumed := h.consumed hE

end Run

end Engine

end TagTemplate

import TagTemplate.Assembly.Basic

/-!
# Assemblies further on

How an assembly goes on depends on where it stands and on which sections are open, but not on what
was put together before. The same lexemes, added to an assembly that stands further on, succeed or
fail in the same way, and a failure is reported as much further on.
-/

namespace TagTemplate

variable {k : Nat}

/-! ## Answers that agree -/

/-- Two answers are related values, or the same fault in places that lie `k` bytes apart. -/
inductive Agree {α : Type} (k : Nat) (R : α → α → Prop) :
    Except Failure α → Except Failure α → Prop where
  | ok {x y : α} : R x y → Agree k R (.ok x) (.ok y)
  | error {f g : Failure} : f.fault = g.fault → f.offset = g.offset + k →
      Agree k R (.error f) (.error g)

theorem Agree.eq_or_eq {α : Type} {R : α → α → Prop} {x y : Except Failure α}
    (h : Agree k R x y) : (∃ a b, x = .ok a ∧ y = .ok b) ∨
      ∃ f g, x = .error f ∧ y = .error g ∧ f.fault = g.fault ∧ f.offset = g.offset + k := by
  cases h with
  | ok _ => exact .inl ⟨_, _, rfl, rfl⟩
  | error hfault hoffset => exact .inr ⟨_, _, rfl, rfl, hfault, hoffset⟩

theorem Agree.bind {α β : Type} {R : α → α → Prop} {S : β → β → Prop} {x y : Except Failure α}
    {f g : α → Except Failure β} (h : Agree k R x y)
    (hfg : ∀ a b, R a b → Agree k S (f a) (g b)) : Agree k S (x >>= f) (y >>= g) := by
  cases h with
  | ok hr => exact hfg _ _ hr
  | error hfault hoffset => exact .error hfault hoffset

namespace Assembly

/-- The first assembly stands `k` bytes further on, with the same sections open as much further
on. -/
structure Shifted (k : Nat) (a b : Assembly) : Prop where
  offset_eq : a.offset = b.offset + k
  openBlocks_eq : a.openBlocks.map (fun x => (x.name, x.openedAt)) =
    b.openBlocks.map (fun x => (x.name, x.openedAt + k))

variable {a b : Assembly}

theorem Shifted.openBlocks_cases (h : Shifted k a b) :
    a.openBlocks = [] ∧ b.openBlocks = [] ∨ ∃ x y xs ys, a.openBlocks = x :: xs ∧
      b.openBlocks = y :: ys ∧ x.name = y.name ∧ x.openedAt = y.openedAt + k ∧
      xs.map (fun x => (x.name, x.openedAt)) = ys.map (fun x => (x.name, x.openedAt + k)) := by
  have heq := h.openBlocks_eq
  cases ha : a.openBlocks with
  | nil =>
      rw [ha] at heq
      exact .inl ⟨rfl, List.map_eq_nil_iff.mp heq.symm⟩
  | cons x xs =>
      cases hb : b.openBlocks with
      | nil =>
          rw [ha, hb] at heq
          cases heq
      | cons y ys =>
          rw [ha, hb, List.map_cons, List.map_cons] at heq
          obtain ⟨hhead, htail⟩ := List.cons.inj heq
          obtain ⟨hname, hat⟩ := Prod.mk.inj hhead
          exact .inr ⟨x, y, xs, ys, rfl, rfl, hname, hat, htail⟩

theorem Shifted.logTag (h : Shifted k a b) (kind : TagKind) (content indent : Text) :
    Shifted k (a.logTag kind content indent) (b.logTag kind content indent) :=
  ⟨h.offset_eq, h.openBlocks_eq⟩

theorem Shifted.closeFault?_eq (h : Shifted k a b) (kind : TagKind) (content : Text) {m n : Nat}
    (hmn : m = n + k) : a.closeFault? kind content m =
      (b.closeFault? kind content n).map fun p => (p.1, p.2 + k) := by
  subst hmn
  unfold closeFault?
  by_cases hkind : kind = .closeBlock
  · rw [if_pos hkind, if_pos hkind]
    rcases h.openBlocks_cases with ⟨ha, hb⟩ | ⟨x, y, xs, ys, ha, hb, hname, hat, -⟩
    · rw [ha, hb]
      rfl
    · rw [ha, hb]
      dsimp only
      rw [hname, hat]
      split
      · rfl
      · rfl
  · rw [if_neg hkind, if_neg hkind]
    rfl

theorem Shifted.place (h : Shifted k a b) (tag : Tag) : Shifted k (a.place tag) (b.place tag) := by
  have hoffset := h.offset_eq
  refine ⟨?_, ?_⟩
  · simp only [Assembly.place]
    omega
  · have heq := h.openBlocks_eq
    simp only [Assembly.place, perform]
    cases tag.directive with
    | interpolation | comment | setDelimiters | partialRef => exact heq
    | openBlock inverted name =>
        simp only [List.map_cons, heq, hoffset]
        congr 2
        omega
    | closeBlock name =>
        rcases h.openBlocks_cases with ⟨ha, hb⟩ | ⟨x, y, xs, ys, ha, hb, -, -, htail⟩
        · simp [ha, hb]
        · simp [ha, hb, htail]

theorem Shifted.add (h : Shifted k a b) (lexeme : Lexeme) :
    Agree k (Shifted k) (a.add lexeme) (b.add lexeme) := by
  cases lexeme with
  | text t =>
      have hoffset := h.offset_eq
      refine .ok ⟨?_, h.openBlocks_eq⟩
      simp only [addText]
      omega
  | tag tag =>
      have hlog := h.logTag tag.directive.kind tag.directive.content tag.indent
      unfold Assembly.add addTag
      dsimp only
      generalize a.logTag tag.directive.kind tag.directive.content tag.indent = a at hlog
      generalize b.logTag tag.directive.kind tag.directive.content tag.indent = b at hlog
      have hplace : a.offset + Text.size tag.indent + Text.size tag.front =
          b.offset + Text.size tag.indent + Text.size tag.front + k := by
        rw [hlog.offset_eq]
        omega
      rw [hlog.closeFault?_eq _ _ hplace]
      cases b.closeFault? tag.directive.kind tag.directive.content
          (b.offset + Text.size tag.indent + Text.size tag.front) with
      | none => exact .ok (hlog.place tag)
      | some found => exact .error rfl rfl

theorem Shifted.foldlM_add (h : Shifted k a b) (lexemes : List Lexeme) :
    Agree k (Shifted k) (lexemes.foldlM Assembly.add a) (lexemes.foldlM Assembly.add b) := by
  induction lexemes generalizing a b with
  | nil => exact .ok h
  | cons lexeme lexemes ih =>
      rw [List.foldlM_cons, List.foldlM_cons]
      exact (h.add lexeme).bind fun a b hab => ih hab

theorem Shifted.addBroken {α : Type} (R : α → α → Prop) (h : Shifted k a b) (tag : BrokenTag) :
    Agree k R (a.addBroken tag) (b.addBroken tag) := by
  have hoffset := h.offset_eq
  unfold Assembly.addBroken
  cases tag.head? with
  | none => exact .error rfl (by simp only; omega)
  | some head =>
      have hlog := h.logTag head.kind head.content tag.indent
      dsimp only
      rw [hlog.closeFault?_eq head.kind head.content
        (n := b.offset + Text.size tag.indent + Text.size tag.front) (by omega)]
      cases (b.logTag head.kind head.content tag.indent).closeFault? head.kind head.content
          (b.offset + Text.size tag.indent + Text.size tag.front) with
      | none => exact .error rfl (by simp only; omega)
      | some found => exact .error rfl rfl

/-- Assemblies that agree before a broken tag, or the end, agree after it. -/
theorem Agree.ofLexemes {lexemes lexemes' : Lexemes}
    (h : Agree k (Shifted k) (lexemes.lexemes.foldlM Assembly.add a)
      (lexemes'.lexemes.foldlM Assembly.add b))
    (hbroken : lexemes.broken? = lexemes'.broken?) :
    Agree k (Shifted k) (a.ofLexemes lexemes) (b.ofLexemes lexemes') := by
  unfold Assembly.ofLexemes
  rw [hbroken]
  generalize lexemes.lexemes.foldlM Assembly.add a = x at h
  generalize lexemes'.lexemes.foldlM Assembly.add b = y at h
  cases h with
  | error hfault hplace => exact .error hfault hplace
  | ok hshifted =>
      cases lexemes'.broken? with
      | none => exact .ok hshifted
      | some tag => exact hshifted.addBroken _ tag

theorem Shifted.finish (h : Shifted k a b) :
    Agree k (fun _ _ => True) a.finish b.finish := by
  unfold Assembly.finish
  rcases h.openBlocks_cases with ⟨ha, hb⟩ | ⟨x, y, xs, ys, ha, hb, hname, hat, -⟩
  · rw [ha, hb]
    exact .ok trivial
  · rw [ha, hb]
    exact .error (by simp [hname]) hat

end Assembly

end TagTemplate

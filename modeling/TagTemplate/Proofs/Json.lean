import TagTemplate.Json

/-!
# The same JSON value

The members of an object may come in any order and still make the same value. A reader that looks
members up by their names does not notice the order: it gives back what was written from every
value that is the same.
-/

namespace TagTemplate.Json

/-- What holds of a value whenever it holds of its items and members holds of every value. -/
theorem induction {motive : Json → Prop} (string : ∀ text, motive (string text))
    (number : ∀ n, motive (number n))
    (array : ∀ items, (∀ x ∈ items, motive x) → motive (array items))
    (object : ∀ members, (∀ member ∈ members, motive member.2) → motive (object members))
    (x : Json) : motive x :=
  @Json.rec motive (fun items => ∀ x ∈ items, motive x)
    (fun members => ∀ member ∈ members, motive member.2) (fun member => motive member.2)
    string number array object nofun
    (fun _ _ hx hitems _ h => (List.mem_cons.mp h).elim (fun h => h ▸ hx) (hitems _)) nofun
    (fun _ _ hx hmembers _ h => (List.mem_cons.mp h).elim (fun h => h ▸ hx) (hmembers _))
    (fun _ _ hx => hx) x

/-- The same value: items are compared one by one, members by their names. -/
inductive Same : Json → Json → Prop
  | string (text : String) : Same (string text) (string text)
  | number (n : Nat) : Same (number n) (number n)
  | array {xs ys : List Json} (hlength : xs.length = ys.length)
      (hitems : ∀ (i : Nat) x y, xs[i]? = some x → ys[i]? = some y → Same x y) :
      Same (array xs) (array ys)
  | object {xs ys : List (String × Json)} (hnames : (xs.map Prod.fst).Perm (ys.map Prod.fst))
      (hvalues : ∀ name x y, xs.lookup name = some x → ys.lookup name = some y → Same x y) :
      Same (object xs) (object ys)

theorem mem_of_lookup {members : List (String × Json)} {name : String} {x : Json}
    (h : members.lookup name = some x) : (name, x) ∈ members := by
  obtain ⟨before, after, rfl, -⟩ := List.lookup_eq_some_iff.mp h
  simp

theorem isSome_lookup_iff {members : List (String × Json)} {name : String} :
    (members.lookup name).isSome = true ↔ name ∈ members.map Prod.fst := by
  simp [List.lookup_isSome_iff]

namespace Same

@[simp] theorem refl (x : Json) : Same x x := by
  induction x using Json.induction with
  | string text => exact .string text
  | number n => exact .number n
  | array items ih =>
      refine .array rfl fun i x y hx hy => ?_
      cases hx.symm.trans hy
      exact ih x (List.mem_of_getElem? hx)
  | object members ih =>
      refine .object (.refl _) fun name x y hx hy => ?_
      cases hx.symm.trans hy
      exact ih _ (mem_of_lookup hx)

theorem tagged {x y : Json} (h : Same x y) (tag : String) :
    Same (Json.tagged tag x) (Json.tagged tag y) := by
  refine .object (.refl _) fun name x' y' hx hy => ?_
  rw [List.lookup_cons] at hx hy
  cases hname : name == tag with
  | true =>
      rw [hname] at hx hy
      cases hx
      cases hy
      exact h
  | false =>
      rw [hname] at hx
      cases hx

/-- The order of the members does not matter if no two have the same name. -/
theorem of_perm {xs ys : List (String × Json)} (h : xs.Perm ys)
    (hnames : (xs.map Prod.fst).Nodup) : Same (Json.object xs) (Json.object ys) := by
  refine .object (h.map _) fun name x y hx hy => ?_
  obtain ⟨before, after, rfl, hbefore⟩ := List.lookup_eq_some_iff.mp hx
  have hy : (name, y) ∈ before ++ (name, x) :: after := h.mem_iff.mpr (mem_of_lookup hy)
  have hother : ∀ z, (name, z) ∉ before ∧ (name, z) ∉ after := by
    simp only [List.map_append, List.map_cons, List.nodup_append, List.nodup_cons,
      List.mem_map, List.mem_cons] at hnames
    grind
  obtain rfl : y = x := by simpa [hother y] using hy
  exact refl y

/-! ## Inversion -/

variable {x : Json}

theorem eq_string {text : String} (h : Same x (Json.string text)) : x = Json.string text := by
  cases h
  rfl

theorem exists_items {ys : List Json} (h : Same x (Json.array ys)) :
    ∃ xs, x = Json.array xs ∧ List.length xs = ys.length ∧
      ∀ (i : Nat) x y, xs[i]? = some x → ys[i]? = some y → Same x y := by
  cases h with
  | array hlength hitems => exact ⟨_, rfl, hlength, hitems⟩

/-- A value that is the same as a record has a member for each of its members. -/
theorem exists_members {ys : List (String × Json)} (h : Same x (Json.object ys)) :
    ∃ xs, x = Json.object xs ∧ ∀ name y, ys.lookup name = some y →
      ∃ z, xs.lookup name = some z ∧ Same z y := by
  cases h with
  | object hnames hvalues =>
      refine ⟨_, rfl, fun name y hy => ?_⟩
      have hmem : name ∈ ys.map Prod.fst := List.mem_map.mpr ⟨_, mem_of_lookup hy, rfl⟩
      obtain ⟨z, hz⟩ :=
        Option.isSome_iff_exists.mp (isSome_lookup_iff.mpr (hnames.mem_iff.mpr hmem))
      exact ⟨z, hz, hvalues name z y hz hy⟩

theorem exists_tagged {tag : String} {y : Json} (h : Same x (Json.tagged tag y)) :
    ∃ z, x = Json.tagged tag z ∧ Same z y := by
  cases h with
  | @object xs _ hnames hvalues =>
      obtain ⟨⟨name, z⟩, rfl⟩ : ∃ member, xs = [member] := by
        simpa [List.length_eq_one_iff] using hnames.length_eq
      obtain rfl : name = tag := by simpa using hnames
      exact ⟨z, rfl, hvalues name z y (by simp) (by simp)⟩

end Same

/-! ## Readers -/

def text? : Json → Option String
  | string text => some text
  | _ => none

def itemsOf? {α : Type} (read : Json → Option α) : Json → Option (List α)
  | array items => items.mapM read
  | _ => none

/-- The reader gives the value back from its form, whatever the order of the members in it. -/
def Recovers {α : Type} (read : Json → Option α) (form : Json) (value : α) : Prop :=
  ∀ x, Same x form → read x = some value

section

variable {α : Type} {read : Json → Option α}

theorem recovers_text (text : String) : Recovers text? (string text) text := by
  intro x hx
  rw [hx.eq_string, text?]

theorem recovers_items {form : α → Json} {values : List α}
    (h : ∀ value ∈ values, Recovers read (form value) value) :
    Recovers (itemsOf? read) (array (values.map form)) values := by
  intro x hx
  obtain ⟨xs, rfl, hlength, hitems⟩ := hx.exists_items
  clear hx
  rw [itemsOf?]
  induction values generalizing xs with
  | nil =>
      obtain rfl := List.length_eq_zero_iff.mp hlength
      rfl
  | cons value values ih =>
      obtain ⟨x, xs, rfl⟩ := List.exists_cons_of_length_eq_add_one hlength
      have hfirst : read x = some value :=
        h value List.mem_cons_self x (hitems 0 x (form value) rfl rfl)
      have hrest := ih (fun v hv => h v (List.mem_cons_of_mem _ hv)) xs (by simpa using hlength)
        fun i => hitems (i + 1)
      rw [List.mapM_cons, hfirst, hrest]
      rfl

theorem Recovers.member {form : Json} {value : α} {xs ys : List (String × Json)}
    (h : Recovers read form value) (name : String)
    (hmembers : ∀ name y, ys.lookup name = some y → ∃ z, xs.lookup name = some z ∧ Same z y)
    (hform : ys.lookup name = some form) : (xs.lookup name).bind read = some value := by
  obtain ⟨z, hz, hsame⟩ := hmembers name form hform
  rw [hz]
  exact h z hsame

end

end TagTemplate.Json

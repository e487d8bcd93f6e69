import TagTemplate.Node.Json
import TagTemplate.Proofs.Json

/-!
# Trees read back from JSON

A tree is read back from its JSON form one alternative at a time: the one member of an object says
which alternative it is, and the members of a record are looked up by their names. Nothing of a tree
is lost on the way, so two trees with the same form are the same tree.
-/

namespace TagTemplate

open Json

/-! ## Readers -/

def Path.ofJson? (x : Json) : Option Path := (x.itemsOf? text?).map Path.mk

def Value.ofJson? : Json → Option Value
  | .object [("static", content)] => content.text?.map quoted
  | .object [("number", content)] => content.text?.map number
  | .object [("fetch", content)] => (Path.ofJson? content).map path
  | _ => none

def NamedArguments.pairOfJson? : Json → Option (String × Value)
  | .array [.string name, value] => (Value.ofJson? value).map (name, ·)
  | _ => none

def NamedArguments.ofJson? (x : Json) : Option NamedArguments :=
  (x.itemsOf? pairOfJson?).map NamedArguments.mk

def Argument.ofJson? : Json → Option Argument
  | .object [("hash", content)] => (NamedArguments.ofJson? content).map named
  | x => (Value.ofJson? x).map positional

def Escape.ofJson? : Json → Option Escape
  | .string "escaped" => some escaped
  | .string "unescaped" => some unescaped
  | _ => none

def Delimiters.ofJson? : Json → Option Delimiters
  | .object fields => do
      let opener ← (fields.lookup "open").bind text?
      let closer ← (fields.lookup "close").bind text?
      return ⟨opener, closer⟩
  | _ => none

namespace Node

def interpolationOf? (fields : List (String × Json)) : Option Node := do
  let escape ← (fields.lookup "escape").bind Escape.ofJson?
  let callee ← (fields.lookup "callee").bind Path.ofJson?
  let args ← (fields.lookup "args").bind (itemsOf? Argument.ofJson?)
  return interpolation escape callee args

def blockOf? (inverted : Bool) (fields : List (String × Json)) (body : List Node) :
    Option Node := do
  let callee ← (fields.lookup "callee").bind Path.ofJson?
  let raw ← (fields.lookup "raw").bind text?
  let delimiters ← (fields.lookup "delimiters").bind Delimiters.ofJson?
  return block inverted callee body raw delimiters

def partialOf? (fields : List (String × Json)) : Option Node := do
  let name ← (fields.lookup "name").bind text?
  let padding ← (fields.lookup "padding").bind text?
  return partialRef name padding

mutual

def ofJson? : Json → Option Node
  | .object [(tag, content)] => ofTagged? tag content
  | _ => none

/-- The node that the member with the tag holds. -/
def ofTagged? (tag : String) (content : Json) : Option Node :=
  match tag, content with
  | "multi", .array items => (ofItems? items).map multi
  | "static", .string text => some (static text)
  | "interpolation", .object fields => interpolationOf? fields
  | "section", .object fields => bodyOf? fields >>= blockOf? false fields
  | "inverted_section", .object fields => bodyOf? fields >>= blockOf? true fields
  | "partial", .object fields => partialOf? fields
  | _, _ => none
termination_by structural content

def bodyOf? : List (String × Json) → Option (List Node)
  | [] => none
  | (name, content) :: fields => if "body" == name then nodesOf? content else bodyOf? fields

def nodesOf? : Json → Option (List Node)
  | .array items => ofItems? items
  | _ => none

def ofItems? : List Json → Option (List Node)
  | [] => some []
  | x :: items => do
      let node ← ofJson? x
      let nodes ← ofItems? items
      return node :: nodes

end

theorem bodyOf?_eq_bind (fields : List (String × Json)) :
    bodyOf? fields = (fields.lookup "body").bind nodesOf? := by
  induction fields with
  | nil => rfl
  | cons field fields ih =>
      obtain ⟨name, content⟩ := field
      cases h : "body" == name with
      | true => simp [bodyOf?, List.lookup_cons, h]
      | false => simp [bodyOf?, List.lookup_cons, h, ih]

theorem ofItems?_eq_mapM (items : List Json) : ofItems? items = items.mapM ofJson? := by
  induction items with
  | nil => rfl
  | cons x items ih => rw [ofItems?, List.mapM_cons, ih]

theorem nodesOf?_eq_itemsOf? (x : Json) : nodesOf? x = itemsOf? ofJson? x := by
  cases x with
  | array items => exact ofItems?_eq_mapM items
  | string | number | object => rfl

end Node

/-! ## What they recover -/

theorem Path.recovers (p : Path) : Recovers Path.ofJson? p.toJson p := by
  intro x hx
  rw [Path.ofJson?, recovers_items (fun text _ => recovers_text text) x hx, Option.map_some]

theorem Value.recovers (value : Value) : Recovers Value.ofJson? value.toJson value := by
  intro x hx
  cases value with
  | quoted text =>
      obtain ⟨content, rfl, hcontent⟩ := hx.exists_tagged
      simp [tagged, Value.ofJson?, recovers_text text content hcontent]
  | number numeral =>
      obtain ⟨content, rfl, hcontent⟩ := hx.exists_tagged
      simp [tagged, Value.ofJson?, recovers_text numeral content hcontent]
  | path p =>
      obtain ⟨content, rfl, hcontent⟩ := hx.exists_tagged
      simp [tagged, Value.ofJson?, p.recovers content hcontent]

theorem NamedArguments.recovers (args : NamedArguments) :
    Recovers NamedArguments.ofJson? args.toJson args := by
  intro x hx
  have hpairs : ∀ pair ∈ args.entries, Recovers pairOfJson?
      (.array [.string pair.1, pair.2.toJson]) pair := by
    intro pair _ x hx
    obtain ⟨xs, rfl, hlength, hitems⟩ := hx.exists_items
    obtain ⟨name, rest, rfl⟩ := List.exists_cons_of_length_eq_add_one hlength
    obtain ⟨content, rfl⟩ := List.length_eq_one_iff.mp (Nat.succ.inj hlength)
    obtain rfl := (hitems 0 name _ rfl rfl).eq_string
    have hvalue := pair.2.recovers content (hitems 1 content _ rfl rfl)
    simp [pairOfJson?, hvalue]
  rw [NamedArguments.ofJson?, recovers_items hpairs x hx, Option.map_some]

theorem Argument.recovers (arg : Argument) : Recovers Argument.ofJson? arg.toJson arg := by
  intro x hx
  cases arg with
  | positional value =>
      have hvalue := value.recovers x hx
      cases value with
      | quoted | number | path =>
          obtain ⟨content, rfl, -⟩ := hx.exists_tagged
          rw [tagged] at hvalue
          simp [tagged, Argument.ofJson?, hvalue]
  | named args =>
      obtain ⟨content, rfl, hcontent⟩ := hx.exists_tagged
      simp [tagged, Argument.ofJson?, args.recovers content hcontent]

theorem Escape.recovers (escape : Escape) : Recovers Escape.ofJson? escape.toJson escape := by
  intro x hx
  cases escape with
  | escaped | unescaped =>
      obtain rfl := hx.eq_string
      rfl

theorem Delimiters.recovers (d : Delimiters) : Recovers Delimiters.ofJson? d.toJson d := by
  intro x hx
  obtain ⟨fields, rfl, hfields⟩ := hx.exists_members
  have hopener := (recovers_text d.opener).member "open" hfields rfl
  have hcloser := (recovers_text d.closer).member "close" hfields rfl
  simp [Delimiters.ofJson?, hopener, hcloser]

namespace Node

theorem recovers (node : Node) : Recovers ofJson? node.toJson node := by
  induction node with
  | multi nodes ih =>
      intro x hx
      obtain ⟨content, rfl, hcontent⟩ := hx.exists_tagged
      obtain ⟨items, rfl, -⟩ := hcontent.exists_items
      rw [toJsonList_eq_map] at hcontent
      have hnodes := recovers_items ih _ hcontent
      rw [← nodesOf?_eq_itemsOf?, nodesOf?] at hnodes
      simp [tagged, ofJson?, ofTagged?, hnodes]
  | static text =>
      intro x hx
      obtain ⟨content, rfl, hcontent⟩ := hx.exists_tagged
      obtain rfl := hcontent.eq_string
      rfl
  | interpolation escape callee args =>
      intro x hx
      obtain ⟨content, rfl, hcontent⟩ := hx.exists_tagged
      obtain ⟨fields, rfl, hfields⟩ := hcontent.exists_members
      have hescape := escape.recovers.member "escape" hfields rfl
      have hcallee := callee.recovers.member "callee" hfields rfl
      have hargs := (recovers_items fun arg _ => arg.recovers).member "args" hfields rfl
      simp [tagged, ofJson?, ofTagged?, interpolationOf?, hescape, hcallee, hargs]
  | block inverted callee body raw delimiters ih =>
      intro x hx
      obtain ⟨content, rfl, hcontent⟩ := hx.exists_tagged
      obtain ⟨fields, rfl, hfields⟩ := hcontent.exists_members
      have hcallee := callee.recovers.member "callee" hfields rfl
      rw [toJsonList_eq_map] at hfields
      have hbody := (recovers_items ih).member "body" hfields rfl
      have hraw := (recovers_text raw).member "raw" hfields rfl
      have hdelimiters := delimiters.recovers.member "delimiters" hfields rfl
      have hread : (bodyOf? fields >>= blockOf? inverted fields) =
          some (block inverted callee body raw delimiters) := by
        rw [bodyOf?_eq_bind, funext nodesOf?_eq_itemsOf?, hbody]
        simp [blockOf?, hcallee, hraw, hdelimiters]
      cases inverted with
      | false => simpa [tagged, ofJson?, ofTagged?] using hread
      | true => simpa [tagged, ofJson?, ofTagged?] using hread
  | partialRef name padding =>
      intro x hx
      obtain ⟨content, rfl, hcontent⟩ := hx.exists_tagged
      obtain ⟨fields, rfl, hfields⟩ := hcontent.exists_members
      have hname := (recovers_text name).member "name" hfields rfl
      have hpadding := (recovers_text padding).member "padding" hfields rfl
      simp [tagged, ofJson?, ofTagged?, partialOf?, hname, hpadding]

/-- Nothing of a tree is lost in its JSON form: the tree is read back from every value that is the
same as the form, so trees with the same form are the same. -/
theorem toJson_lossless :
    (∀ m n : Node, (m.toJson = n.toJson → m = n) ∧ (m.toJson.Same n.toJson ↔ m = n)) ∧
      ∀ (n : Node) (x : Json), x.Same n.toJson → ofJson? x = some n := by
  have hsame : ∀ m n : Node, m.toJson.Same n.toJson → m = n := by
    intro m n h
    have hread := n.recovers m.toJson h
    rw [m.recovers m.toJson (.refl _)] at hread
    exact Option.some.inj hread
  refine ⟨fun m n => ⟨fun h => hsame m n (h ▸ .refl _), hsame m n, ?_⟩, recovers⟩
  rintro rfl
  exact .refl _

/-- The members of a record in another order than the one they are written in. -/
theorem toJson_lossless_reordered :
    Same (tagged "partial" (.object [("padding", .string "  "), ("name", .string "a")]))
        (partialRef "a" "  ").toJson ∧
      ofJson? (tagged "partial" (.object [("padding", .string "  "), ("name", .string "a")])) =
        some (partialRef "a" "  ") := by
  have hsame : Same (tagged "partial" (.object [("padding", .string "  "), ("name", .string "a")]))
      (partialRef "a" "  ").toJson := .tagged (.of_perm (.swap _ _ []) (by decide)) "partial"
  exact ⟨hsame, toJson_lossless.2 _ _ hsame⟩

end Node

end TagTemplate

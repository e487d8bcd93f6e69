import TagTemplate.Assembly.Progress
import TagTemplate.Proofs.Assembly.Grammar
import TagTemplate.Proofs.Machine.Scanner

/-!
# Assemblies as states of the machine

The machine keeps in one list of sections what an assembly keeps in its layers. Every assembly has
an image among the states, and what the machine does to a depth of the image is told from the blocks
and the nodes it was made from.
-/

namespace TagTemplate.Machine

open Text

/-! ## Images -/

/-- The text in front of the body of the innermost of some open sections. -/
def outerText (blocks : List OpenBlock) : Text := blocks.reverse.flatMap (·.outer.raw.toList)

theorem outerText_cons (block : OpenBlock) (blocks : List OpenBlock) :
    outerText (block :: blocks) = outerText blocks ++ block.outer.raw.toList := by
  simp [outerText]

theorem read_eq_outerText (a : Assembly) :
    a.read = outerText a.openBlocks ++ a.layer.raw.toList := rfl

/-- The open sections as the machine keeps them, with the nodes in the innermost one. -/
def frames : List OpenBlock → List Node → List Frame
  | [], _ => []
  | block :: blocks, nodes =>
      frames blocks block.outer.nodes.reverse ++
        [⟨block.name, block.inverted, .ofText block.name, block.openedAt,
          some (size (outerText (block :: blocks))), nodes⟩]

def rootNodes : List OpenBlock → List Node → List Node
  | [], nodes => nodes
  | block :: blocks, _ => rootNodes blocks block.outer.nodes.reverse

/-- A state with the open sections and the nodes in the innermost one, and perhaps a section that is
about to be entered. -/
def stacked (c : Cursor) (d : Delimiters) (blocks : List OpenBlock) (nodes : List Node)
    (entering : List Frame) : State where
  cursor := c
  delimiters := d
  root := rootNodes blocks nodes
  sections := frames blocks nodes ++ entering

/-- The state of the machine that has read as much of the template as the assembly. -/
def image (d : Delimiters) (template : String) (a : Assembly) : State :=
  stacked ⟨template, a.offset⟩ d a.openBlocks a.layer.nodes.reverse []

/-! ## Buffers -/

section Buffers

variable {c : Cursor} {d : Delimiters} {blocks : List OpenBlock} {nodes : List Node}
  {entering : List Frame}

@[simp] theorem cursor_stacked : (stacked c d blocks nodes entering).cursor = c := rfl

@[simp] theorem delimiters_stacked : (stacked c d blocks nodes entering).delimiters = d := rfl

@[simp] theorem withCursor_stacked (moved : Cursor) :
    (stacked c d blocks nodes entering).withCursor moved = stacked moved d blocks nodes entering :=
  rfl

theorem length_frames (blocks : List OpenBlock) (nodes : List Node) :
    (frames blocks nodes).length = blocks.length := by
  induction blocks generalizing nodes with
  | nil => rfl
  | cons block blocks ih => simp [frames, ih]

theorem length_sections_stacked :
    (stacked c d blocks nodes []).sections.length = blocks.length := by
  simp [stacked, length_frames]

theorem modify_length_append {α : Type} (xs ys : List α) (x : α) (f : α → α) :
    (xs ++ x :: ys).modify xs.length f = xs ++ f x :: ys := by
  induction xs with
  | nil => rfl
  | cons y xs ih => simp [ih]

theorem insertIdx_length_append {α : Type} (xs ys : List α) (x : α) :
    (xs ++ ys).insertIdx xs.length x = xs ++ x :: ys := by
  induction xs with
  | nil => rfl
  | cons y xs ih => simp [ih]

theorem buffer_stacked :
    (stacked c d blocks nodes entering).buffer blocks.length = .ok nodes := by
  cases blocks with
  | nil => rfl
  | cons block blocks =>
      have hlength := length_frames blocks block.outer.nodes.reverse
      simp [State.buffer, stacked, frames, ← hlength]

theorem setBuffer_stacked (nodes' : List Node) :
    (stacked c d blocks nodes entering).setBuffer blocks.length nodes' =
      stacked c d blocks nodes' entering := by
  cases blocks with
  | nil => rfl
  | cons block blocks =>
      have hlength := length_frames blocks block.outer.nodes.reverse
      simp [State.setBuffer, stacked, frames, rootNodes, ← hlength, modify_length_append]

theorem insert_stacked (shown : List Node) (node : Node) :
    (stacked c d blocks (nodes ++ shown) entering).insert blocks.length nodes.length node =
      .ok (stacked c d blocks (nodes ++ node :: shown) entering) := by
  have hle : nodes.length ≤ (nodes ++ shown).length := by simp
  simp only [State.insert, buffer_stacked, ok_bind, if_pos hle, setBuffer_stacked,
    insertIdx_length_append, pure_eq_ok]

theorem push_stacked (node : Node) :
    (stacked c d blocks nodes []).push node = .ok (stacked c d blocks (nodes ++ [node]) []) := by
  simp only [State.push, length_sections_stacked, buffer_stacked, ok_bind, setBuffer_stacked,
    pure_eq_ok]

theorem pushText_stacked (t : Text) :
    (stacked c d blocks nodes []).pushText t =
      .ok (stacked c d blocks (nodes ++ staticNodes t) []) := by
  unfold State.pushText staticNodes
  split
  · rw [List.append_nil]
  · exact push_stacked _

section Image

variable {template : String} {a : Assembly}

theorem delimiters_image : (image d template a).delimiters = d := rfl

theorem length_sections_image : (image d template a).sections.length = a.openBlocks.length :=
  length_sections_stacked

theorem buffer_image :
    (image d template a).buffer a.openBlocks.length = .ok a.layer.nodes.reverse := buffer_stacked

theorem withCursor_image (moved : Cursor) : (image d template a).withCursor moved =
    stacked moved d a.openBlocks a.layer.nodes.reverse [] := rfl

end Image

end Buffers

/-! ## Sections -/

section Sections

variable {c : Cursor} {d : Delimiters} {block : OpenBlock} {blocks : List OpenBlock}
  {nodes : List Node}

theorem getLast?_sections_stacked :
    (stacked c d (block :: blocks) nodes []).sections.getLast? =
      some ⟨block.name, block.inverted, .ofText block.name, block.openedAt,
        some (size (outerText (block :: blocks))), nodes⟩ := by
  simp [stacked, frames]

theorem closeSection_stacked {body after : Text}
    (hsource : c.source.toList = outerText (block :: blocks) ++ body ++ after) :
    (stacked c d (block :: blocks) nodes []).closeSection
        (size (outerText (block :: blocks)) + size body) =
      .ok (stacked c d blocks (block.outer.nodes.reverse ++
        [.block block.inverted (.ofText block.name) nodes (String.ofList body) d]) []) := by
  have hdrop : (stacked c d (block :: blocks) nodes []).sections.dropLast =
      frames blocks block.outer.nodes.reverse ++ [] := by
    simp [stacked, frames]
  have hmin : min (size (outerText (block :: blocks)))
      (size (outerText (block :: blocks)) + size body) = size (outerText (block :: blocks)) := by
    omega
  have hsame : (stacked c d (block :: blocks) nodes []).cursor.source = c.source := rfl
  simp only [State.closeSection, getLast?_sections_stacked, Option.getD_some, hmin, hsame, hsource,
    slice_append, ok_bind, hdrop]
  exact push_stacked _

/-- Where the bodies of all open sections start is known. -/
theorem enterBody_stacked (blocks : List OpenBlock) :
    (stacked c d blocks nodes []).enterBody = stacked c d blocks nodes [] := by
  cases blocks with
  | nil => rfl
  | cons block blocks =>
      simp [State.enterBody, stacked, frames, modify_length_append]

theorem enterBody_entering (blocks : List OpenBlock) (frame : Frame)
    (h : frame.bodyStart = none) :
    (stacked c d blocks nodes [frame]).enterBody =
      stacked c d blocks nodes [{ frame with bodyStart := some c.offset }] := by
  simp [State.enterBody, stacked, modify_length_append, h]

end Sections

/-! ## What has been read -/

/-- The assembly holds the template up to `rest`. Each section was opened at a place in front of its
body. -/
structure Aligned (template : String) (a : Assembly) (rest : Text) : Prop where
  source : template.toList = a.read ++ rest
  offset : size a.read = a.offset
  opened : ∀ block blocks, block :: blocks <:+ a.openBlocks →
    ∃ before after, outerText (block :: blocks) = before ++ after ∧ size before = block.openedAt

def refusal (template : String) (failure : Failure) : Halt :=
  .refused (SyntaxError.locate template failure.offset failure.fault.message)

section Reading

variable {template : String} {a : Assembly} {t : Text}

theorem Aligned.split (h : Aligned template a t) :
    (⟨template, a.offset⟩ : Cursor).split = .ok (a.read, t) :=
  Cursor.split_eq_ok_iff.mpr ⟨h.source, h.offset⟩

/-- What has been read begins with the text in front of each open section. -/
theorem exists_read_eq {blocks : List OpenBlock} (hblocks : blocks <:+ a.openBlocks) :
    ∃ body, a.read = outerText blocks ++ body := by
  obtain ⟨inner, hinner⟩ := hblocks
  rw [read_eq_outerText, ← hinner]
  refine ⟨inner.reverse.flatMap (·.outer.raw.toList) ++ a.layer.raw.toList, ?_⟩
  simp [outerText]

/-- A section is opened between two characters of the template. -/
theorem Aligned.split_openedAt (h : Aligned template a t) {block : OpenBlock}
    {blocks : List OpenBlock} (hblock : block :: blocks <:+ a.openBlocks) :
    ∃ before after, template.toList = before ++ after ∧ size before = block.openedAt := by
  obtain ⟨before, after, houter, hsize⟩ := h.opened block blocks hblock
  obtain ⟨body, hbody⟩ := exists_read_eq hblock
  refine ⟨before, after ++ body ++ t, ?_, hsize⟩
  rw [h.source, hbody, houter]
  simp

end Reading

end TagTemplate.Machine

import TagTemplate.Assembly.Basic

/-!
# Progress of an assembly

The layers of an assembly hold among them the text that was read. Every lexeme adds its source to
that text and moves the offset on by its size.
-/

namespace TagTemplate.Assembly

/-- The text read so far. The layers hold it among them, outermost first. -/
def read (a : Assembly) : Text :=
  a.openBlocks.reverse.flatMap (·.outer.raw.toList) ++ a.layer.raw.toList

@[simp] theorem offset_addText (a : Assembly) (t : Text) :
    (a.addText t).offset = a.offset + Text.size t := rfl

@[simp] theorem offset_place (a : Assembly) (tag : Tag) :
    (a.place tag).offset = a.offset + Text.size tag.source := by
  unfold place perform
  split
  · rfl
  · rfl
  · rfl
  · rfl
  · rfl
  · split
    · rfl
    · rfl

@[simp] theorem read_addText (a : Assembly) (t : Text) : (a.addText t).read = a.read ++ t := by
  unfold addText read Layer.note Layer.pushText
  split <;> simp [Layer.push]

@[simp] theorem read_place (a : Assembly) (tag : Tag) :
    (a.place tag).read = a.read ++ tag.source := by
  unfold place perform read
  split
  · simp [Layer.note, Layer.push, Layer.raw_pushText]
  · simp [Layer.note, Layer.raw_pushText]
  · simp [Layer.note, Layer.raw_pushText]
  · simp [Layer.note, Layer.push, Layer.raw_pushText]
  · simp [Layer.note, Layer.raw_pushText]
  · split
    · rename_i h
      simp only at h
      simp [Layer.note, Layer.raw_pushText, h]
    · rename_i block blocks h
      simp only at h
      simp [Layer.note, Layer.push, Layer.raw_pushText, h, Tag.source, Tag.written]

theorem read_add {a b : Assembly} {lexeme : Lexeme} (h : a.add lexeme = .ok b) :
    b.read = a.read ++ lexeme.source := by
  cases lexeme with
  | text t =>
      cases h
      exact read_addText a t
  | tag tag =>
      simp only [add, addTag] at h
      split at h
      · cases h
      · cases h
        rw [read_place]
        rfl

theorem offset_add {a b : Assembly} {lexeme : Lexeme} (h : a.add lexeme = .ok b) :
    b.offset = a.offset + Text.size lexeme.source := by
  cases lexeme with
  | text t =>
      cases h
      rfl
  | tag tag =>
      simp only [add, addTag] at h
      split at h
      · cases h
      · cases h
        rw [offset_place]
        rfl

end TagTemplate.Assembly

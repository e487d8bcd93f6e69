import TagTemplate.Argument.Token
import TagTemplate.Reader

/-!
# Reading arguments

Arguments are tokens with white space before and between them, up to a closing text. Tokens
that need none may also abut.
-/

namespace TagTemplate.ArgumentToken

/-- How often a tag's arguments are looked at, counting the look that finds the close. -/
def scanLimit : Nat := 31

def reader (stop : Text) : Reader ArgumentToken := do
  let token ← Reader.cutting (cut? stop) .unclosedTag
  match classify? token with
  | some argument => return argument
  | none => Reader.fail .unclosedTag

theorem reader_faithful (stop : Text) : (reader stop).Faithful :=
  (Reader.faithful_cutting fun h => cut?_append h).bind fun token => by
    cases classify? token with
    | some argument => exact Reader.faithful_pure argument
    | none => exact Reader.faithful_fail _

/-- Take tokens up to and including `close`, in at most `scans` looks. -/
def listReader (stop close : Text) : (scans : Nat) → Reader (List ArgumentToken)
  | 0 => Reader.fail .unclosedTag
  | scans + 1 => do
      let _ ← Reader.spaces
      if ← Reader.skip? close then return []
      else
        let token ← reader stop
        let tokens ← listReader stop close scans
        return token :: tokens

theorem listReader_faithful (stop close : Text) (scans : Nat) :
    (listReader stop close scans).Faithful := by
  induction scans with
  | zero => exact Reader.faithful_fail _
  | succ scans ih =>
      exact (Reader.faithful_takeWhile _).bind fun _ =>
        (Reader.faithful_skip? close).bind fun _ =>
          Reader.faithful_ite (Reader.faithful_pure []) <|
            (reader_faithful stop).bind fun token =>
              ih.bind fun tokens => Reader.faithful_pure (token :: tokens)

end TagTemplate.ArgumentToken

import FourBit.Json
import FourBit.Json.Token

/-! Reading JSON token by token.
Containers that are not closed yet are kept in a list, the innermost first. When the text turns out
to be no document, the values that were complete by then are handed over in their order. -/
namespace FourBit.Json
variable {τ : Type}

/-- A container that is not closed, with what it holds so far, the latest first. -/
inductive Frame (τ : Type := String) where
  | array (items : List (Json τ))
  | object (members : List (τ × Json τ)) (name : τ)

/-- What has been read, and what may come next. -/
inductive Cursor (τ : Type := String) where
  | value (frames : List (Frame τ))
  /-- The first item of an array, or its end. -/
  | item (frames : List (Frame τ))
  /-- The name of a member; `first` tells that the object may also end. -/
  | name (members : List (τ × Json τ)) (frames : List (Frame τ)) (first : Bool)
  | colon (members : List (τ × Json τ)) (name : τ) (frames : List (Frame τ))
  | after (j : Json τ) (frames : List (Frame τ))

inductive Cause where
  | malformed
  | overlong
  deriving DecidableEq, Repr

/-- Why a text is no document, and the values that were complete. -/
structure Failure (τ : Type := String) where
  cause : Cause
  complete : List (Json τ)

namespace Frame

def complete : Frame τ → List (Json τ)
  | array items => items.reverse
  | object members _ => (members.map (·.2)).reverse

end Frame

namespace Cursor

def completeIn (frames : List (Frame τ)) : List (Json τ) := frames.reverse.flatMap Frame.complete

def complete : Cursor τ → List (Json τ)
  | value frames | item frames => completeIn frames
  | name members frames _ | colon members _ frames =>
    completeIn frames ++ (members.map (·.2)).reverse
  | after j frames => completeIn frames ++ [j]

def fail (c : Cursor τ) (cause : Cause) : Except (Failure τ) (Cursor τ) :=
  .error ⟨cause, c.complete⟩

def begin (frames : List (Frame τ)) (token : Token τ) : Except (Failure τ) (Cursor τ) :=
  match token with
  | .null => .ok (after .null frames)
  | .bool b => .ok (after (.bool b) frames)
  | .int i => .ok (after (.int i) frames)
  | .float x => .ok (after (.float x) frames)
  | .str s => .ok (after (.str s) frames)
  | .openArray => .ok (item frames)
  | .openObject => .ok (name [] frames true)
  | .overlong => fail (value frames) .overlong
  | _ => fail (value frames) .malformed

def step (c : Cursor τ) (token : Token τ) : Except (Failure τ) (Cursor τ) :=
  match c, token with
  | value frames, token => begin frames token
  | item frames, .closeArray => .ok (after (.array []) frames)
  | item frames, token => begin (.array [] :: frames) token
  | name members frames _, .str s => .ok (colon members s frames)
  | name _ frames true, .closeObject => .ok (after (.object []) frames)
  | colon members s frames, .colon => .ok (value (.object members s :: frames))
  | after j (.array items :: frames), .comma => .ok (value (.array (j :: items) :: frames))
  | after j (.array items :: frames), .closeArray =>
    .ok (after (.array (j :: items).reverse) frames)
  | after j (.object members s :: frames), .comma => .ok (name ((s, j) :: members) frames false)
  | after j (.object members s :: frames), .closeObject =>
    .ok (after (.object ((s, j) :: members).reverse) frames)
  | c, _ => fail c .malformed

end Cursor

def readFrom (c : Cursor τ) : List (Token τ) → Except (Failure τ) (Json τ)
  | [] =>
    match c with
    | .after j [] => .ok j
    | c => .error ⟨.malformed, c.complete⟩
  | token :: rest =>
    match c.step token with
    | .ok c => readFrom c rest
    | .error e => .error e

def read [CodeText τ] (text : String) : Except (Failure τ) (Json τ) :=
  readFrom (.value []) (Token.tokens text.toList)

end FourBit.Json

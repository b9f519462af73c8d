import RespClient.Reader.Line

/-!
# Decoding

From the lines of a finished reply to its value.  The lines are taken one after the
other; arrays that still lack elements wait on a stack, innermost first.  A value that is
complete becomes an element of the innermost open array, and an array that has all its
elements is itself a complete value.

Decoding stops at the first line it cannot read, and then says which lines it has not
taken.
-/

namespace RespClient

/-- What decoding came to, and the lines it has not taken. -/
structure Decoded (α : Type) where
  result : Except Fault α
  rest : List Line

namespace Decoded

def map {α β : Type} (f : α → β) (d : Decoded α) : Decoded β := ⟨d.result.map f, d.rest⟩

end Decoded

/-! ## §1  Open arrays -/

structure OpenArray where
  /-- Elements still missing after that one. -/
  missing : Nat
  /-- The elements already there, last first. -/
  elements : List Data

namespace OpenArray

/-- A complete value goes to the innermost open array: either all arrays are complete and
one value is left, or some still wait. -/
def plug (value : Data) : List OpenArray → Data ⊕ List OpenArray
  | [] => .inl value
  | ⟨0, elements⟩ :: outer => plug (.array (value :: elements).reverse) outer
  | ⟨missing + 1, elements⟩ :: outer => .inr (⟨missing, value :: elements⟩ :: outer)

/-- The value when no line is left: every missing element is a null. -/
def pad (value : Data) : List OpenArray → Data
  | [] => value
  | ⟨missing, elements⟩ :: outer =>
    pad (.array ((value :: elements).reverse ++ List.replicate missing .nil)) outer

end OpenArray

/-! ## §2  Values -/

/-- The value of lines, to be plugged into the open arrays. -/
def decodeLines : List OpenArray → List Line → Decoded Data
  | stack, [] => ⟨.ok (OpenArray.pad .nil stack), []⟩
  | stack, line :: rest =>
    let complete (value : Data) : Decoded Data :=
      match OpenArray.plug value stack with
      | .inl whole => ⟨.ok whole, rest⟩
      | .inr stack => decodeLines stack rest
    match line.marker?.bind Shape.ofMarker? with
    | some .array =>
      match line.integer with
      | .error fault => ⟨.error fault, rest⟩
      | .ok count =>
        if count < 0 then complete .nil
        else match count.toInt.toNat with
          | 0 => complete (.array [])
          | missing + 1 => decodeLines (⟨missing, []⟩ :: stack) rest
    | some .bulk =>
      match rest with
      | [] =>
        match line.integer with
        | .error fault => ⟨.error fault, []⟩
        | .ok length =>
          if length < 0 then complete .nil else ⟨.ok (OpenArray.pad .nil stack), []⟩
      | payload :: after =>
        match line.integer with
        | .error fault => ⟨.error fault, payload :: after⟩
        | .ok length =>
          if length < 0 then complete .nil
          else
            match OpenArray.plug (.text payload.text) stack with
            | .inl whole => ⟨.ok whole, after⟩
            | .inr stack => decodeLines stack after
    | some .integer =>
      match line.integer with
      | .error fault => ⟨.error fault, rest⟩
      | .ok i => complete (.integer i)
    | _ => complete (.text line.text)

/-! ## §3  Replies -/

def noLine (kind : Kind) : Reply :=
  .error ("Unable to find completed line for command: " ++ kind.wireName) none

/-- The reply of a command from the lines of its value.  An error line and the null of a
bulk answer any command; all else has to begin with the marker of the command's shape. -/
def decodeReply (kind : Kind) (lines : List Line) : Decoded Reply :=
  match lines with
  | [] => ⟨.ok (noLine kind), []⟩
  | line :: rest =>
    match line.marker? with
    | none => ⟨.error .emptyLine, rest⟩
    | some marker =>
      let byShape : Decoded Reply :=
        if marker = kind.shape.marker then (decodeLines [] (line :: rest)).map .success
        else ⟨.error (.mismatch kind marker), rest⟩
      if marker = Shape.error.marker then ⟨.ok (.fail (.text line.text)), rest⟩
      else if marker = Shape.bulk.marker then
        match line.integer with
        | .error fault => ⟨.error fault, rest⟩
        | .ok length => if length < 0 then ⟨.ok (.success .nil), rest⟩ else byShape
      else byShape

/-- The reply to a command inside a transaction, where the server only acknowledges: the
text of the first line, whatever the command. -/
def acknowledgement (kind : Kind) (lines : List Line) : Reply :=
  match lines with
  | [] => noLine kind
  | line :: _ =>
    if line.marker? = some Shape.error.marker then .fail (.text line.text)
    else .success (.text line.text)

end RespClient

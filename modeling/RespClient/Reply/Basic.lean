/-!
# Replies

What a caller gets back for a command.  A reply is a value of the server
(`success`), an error of the server (`fail`), or the client's own report that no reply
could be had (`error`).
-/

namespace RespClient

inductive Data
  /-- The null of a bulk or an array. -/
  | nil
  /-- Text of a status line, an error line or a bulk. -/
  | text (text : String)
  | integer (value : Int64)
  | array (elements : List Data)
  deriving Repr, Inhabited

mutual
def Data.decEq : (a b : Data) → Decidable (a = b)
  | .nil, .nil => isTrue rfl
  | .text s, .text t =>
    if h : s = t then isTrue (by rw [h]) else isFalse (fun e => h (Data.text.inj e))
  | .integer i, .integer j =>
    if h : i = j then isTrue (by rw [h]) else isFalse (fun e => h (Data.integer.inj e))
  | .array xs, .array ys =>
    match Data.decEqList xs ys with
    | isTrue h => isTrue (by rw [h])
    | isFalse h => isFalse (fun e => h (Data.array.inj e))
  | .nil, .text _ | .nil, .integer _ | .nil, .array _ | .text _, .nil | .text _, .integer _
  | .text _, .array _ | .integer _, .nil | .integer _, .text _ | .integer _, .array _
  | .array _, .nil | .array _, .text _ | .array _, .integer _ => isFalse (by simp)

def Data.decEqList : (xs ys : List Data) → Decidable (xs = ys)
  | [], [] => isTrue rfl
  | [], _ :: _ | _ :: _, [] => isFalse (by simp)
  | x :: xs, y :: ys =>
    match Data.decEq x y, Data.decEqList xs ys with
    | isTrue h, isTrue hs => isTrue (by rw [h, hs])
    | isFalse h, _ => isFalse (fun e => h (List.cons.inj e).1)
    | _, isFalse hs => isFalse (fun e => hs (List.cons.inj e).2)
end

instance : DecidableEq Data := Data.decEq

namespace Data

def isNil : Data → Bool
  | .nil => true
  | _ => false

def text? : Data → Option String
  | .text s => some s
  | _ => none

def integer? : Data → Option Int64
  | .integer i => some i
  | _ => none

def elements? : Data → Option (List Data)
  | .array elements => some elements
  | _ => none

end Data

inductive Reply
  /-- The server answered in the shape the command expects. -/
  | success (data : Data)
  /-- The server answered with an error line. -/
  | fail (data : Data)
  /-- The client could not obtain a reply. -/
  | error (message : String) (code : Option Nat)
  deriving DecidableEq, Repr, Inhabited

namespace Reply

inductive Status
  | success
  | fail
  | error
  deriving DecidableEq, Repr

def status : Reply → Status
  | .success _ => .success
  | .fail _ => .fail
  | .error .. => .error

/-- Did the server answer in the expected shape? -/
def isSuccess (r : Reply) : Bool := r.status = .success

def data? : Reply → Option Data
  | .success data | .fail data => some data
  | .error .. => none

/-- Every command still waiting when its connection goes away gets this. -/
def socketClosed : Reply := .error "Socket closed unexpectedly" none

/-- The element of an array reply at `index` with the reply's own status; the whole reply
where there is no such element. -/
def element : Reply → Nat → Reply
  | .success (.array elements), index =>
    match elements[index]? with
    | some d => .success d
    | none => .success (.array elements)
  | .fail (.array elements), index =>
    match elements[index]? with
    | some d => .fail d
    | none => .fail (.array elements)
  | r, _ => r

end Reply

end RespClient

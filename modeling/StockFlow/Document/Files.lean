import StockFlow.Failure
import StockFlow.Text.Quoted
/-!
# Files

What is given for identifiers: a finite table of replies. A reply is the outcome of a call, which
raises or returns something. What it returns is a content, or else something to wait for, and waiting for
that has an outcome of its own: it gives a content or raises. Those who do not wait find no document
there (`Returned.now`), those who wait find what is given in the end (`Returned.awaited`).
-/

namespace StockFlow

/-- What stands for a document. -/
inductive Content where
  | text (s : Text)
  | absent
  | bytes (bs : List UInt8)
deriving DecidableEq

/-- What is raised in place of a content, with its message: a failure of loading, which is passed on, or
anything else. -/
inductive Raised where
  | load (message : Text)
  | other (message : Text)
deriving DecidableEq

/-- What a call returns: a content, or something to wait for, with the outcome of waiting. -/
inductive Returned where
  | content (given : Content)
  | awaitable (outcome : Except Raised Content)

/-- The outcome of a call. -/
inductive Reply where
  | raises (reason : Raised)
  | returns (returned : Returned)

/-- The reply that returns a text. -/
def Reply.text (s : Text) : Reply := .returns (.content (.text s))

/-- The replies by identifier. An identifier that is not listed has no document; in a strict table,
asking for it fails. -/
structure Files where
  entries : List (Text × Reply)
  strict : Bool := false

/-- Whether those who load wait for what is returned. -/
inductive Mode where
  | blocking
  | awaiting
deriving DecidableEq

/-- The text that a content is. -/
def Content.document (identifier : Text) : Content → Except Failure Text
  | .text s => .ok s
  | .absent => .error (.load (.notFound identifier))
  | .bytes bs =>
    match String.fromUTF8? ⟨bs.toArray⟩ with
    | some s => .ok s
    | none => .error .notUtf8

/-- Why there is no document for an identifier if something is raised for it. -/
def Raised.failure (identifier : Text) : Raised → Failure
  | .load message => .load (.raised message)
  | .other message => .load (.unreadable identifier message)

namespace Returned

/-- The document that has been returned, for those who do not wait. -/
def now (identifier : Text) : Returned → Except Failure Text
  | .content given => given.document identifier
  | .awaitable _ => .error (.load (.deferred identifier))

/-- The document that has been returned, for those who wait. -/
def awaited (identifier : Text) : Returned → Except Failure Text
  | .content given => given.document identifier
  | .awaitable outcome => do
    let given ← outcome.mapError (Raised.failure identifier)
    given.document identifier

end Returned

/-- The reply that gives at once what waiting for a reply gives, and raises at once what waiting for it
raises. -/
def Reply.settled : Reply → Reply
  | .returns (.awaitable (.ok given)) => .returns (.content given)
  | .returns (.awaitable (.error reason)) => .raises reason
  | reply => reply

namespace Files

/-- The reply for an identifier. -/
def reply (files : Files) (identifier : Text) : Reply :=
  match files.entries.lookup identifier with
  | some reply => reply
  | none => if files.strict then .raises (.other (quoted identifier)) else .returns (.content .absent)

/-- The call for an identifier. -/
def call (files : Files) (identifier : Text) : Except Failure Returned :=
  match files.reply identifier with
  | .raises reason => .error (reason.failure identifier)
  | .returns returned => .ok returned

/-- The table in which there is nothing to wait for. -/
def settled (files : Files) : Files :=
  { files with entries := files.entries.map fun (identifier, reply) => (identifier, reply.settled) }

end Files

end StockFlow

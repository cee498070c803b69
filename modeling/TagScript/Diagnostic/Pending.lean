import TagScript.Diagnostic.Error
import TagScript.Diagnostic.Paint

/-!
# The Pending Error

A host keeps at most one pending error: the first one wins until it is cleared. The pending error
may be a runtime error, an error of the host's own, or a runtime error with a remark in front. A
report shows the runtime error inside, whatever stands around it.
-/

namespace TagScript

/-- An error in the hands of a host. -/
inductive Failure where
  | runtime (e : RuntimeError)
  | plain (text : Bytes)
  /-- An error with a remark in front of it. -/
  | remarked (remark : String) (inner : Failure)

namespace Failure

/-- The runtime error inside. -/
def runtime? : Failure → Option RuntimeError
  | .runtime e => some e
  | .plain _ => none
  | .remarked _ inner => inner.runtime?

/-- The text of an error. -/
def text : Failure → Bytes
  | .runtime e => e.text
  | .plain text => text
  | .remarked remark inner => Bytes.ofString (remark ++ ": ") ++ inner.text

/-- Whether there is a runtime error of the given kind inside. -/
def isKind (f : Failure) (kind : ErrorKind) : Bool :=
  match f.runtime? with
  | some e => e.cause.kind = kind
  | none => false

/-- The report about an error: the headline and the details of a runtime error, and the whole text
of any other. -/
def report (painter : Painter) (f : Failure) : Bytes :=
  match f.runtime? with
  | none => painter.line .alarm f.text
  | some e =>
    painter.line .alarm (Bytes.ofString e.headline) ++
      (if e.detail = [] then [] else painter.inside .detail e.detail)

end Failure

/-- The place for the pending error. -/
structure Pending where
  /-- The error, if one is pending. -/
  failure : Option Failure

namespace Pending

/-- No pending error. -/
def none : Pending := ⟨Option.none⟩

/-- Makes an error pending unless one is pending already. -/
def set (p : Pending) (f : Failure) : Pending :=
  ⟨p.failure.or (some f)⟩

/-- The report about the pending error; nothing if there is none. -/
def report (painter : Painter) (p : Pending) : Bytes :=
  match p.failure with
  | some f => f.report painter
  | Option.none => []

end Pending

end TagScript

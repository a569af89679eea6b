import MpegTs.Error

/-!
# Diagnostics

A run collects what it finds in two ordered lists. Hard errors go to `errors`, soft
conditions and free-form remarks go to `warnings`; the first hard error decides the status.
Its code is kept beside the lists in `firstError`, set once and never overwritten, and the
status and cleanliness are read off that field. The structure carries the proof that the
field is the code at the head of `errors`.

* `Diagnostics.record` files an error by its softness, `Diagnostics.warn` adds a remark.
* `Diagnostics.status` is the code of the first hard error, or `0` when there is none.
* `Diagnostics.status_eq_head`, `Diagnostics.isClean_eq`: the status and cleanliness as the
  error list shows them.
-/

namespace MpegTs

/-- One entry of a diagnostics list: a numeric code and a text. Remarks have code `0`. -/
structure Issue where
  code : Nat
  message : String
  deriving Repr, DecidableEq, Inhabited

/-- The issue that stands for an error in a diagnostics list. -/
def Error.toIssue (e : Error) : Issue := ⟨e.code, e.message⟩

/-- No error list has no first code. -/
theorem Issue.head?_code_nil : (none : Option Nat) = ([] : List Issue).head?.map Issue.code :=
  rfl

/-- Errors and warnings of one run, each list in recording order, and the code of the first
error, which is the code at the head of the errors. -/
structure Diagnostics where
  errors : List Issue := []
  warnings : List Issue := []
  firstError : Option Nat := none
  firstError_eq : firstError = errors.head?.map Issue.code := by exact MpegTs.Issue.head?_code_nil
  deriving Repr, DecidableEq, Inhabited

namespace Diagnostics

/-- An error appended to the list is the first one exactly when the field is still unset. -/
theorem firstError_append (d : Diagnostics) (i : Issue) :
    (if d.firstError.isNone then some i.code else d.firstError) =
      (d.errors ++ [i]).head?.map Issue.code := by
  rw [d.firstError_eq]
  cases d.errors <;> rfl

/-- Files a soft error as a warning and any other error as an error; the first error's code
is set only when none was recorded before. -/
def record (d : Diagnostics) (e : Error) : Diagnostics :=
  if e.isSoft then { d with warnings := d.warnings ++ [e.toIssue] }
  else
    { d with
      errors := d.errors ++ [e.toIssue]
      firstError := if d.firstError.isNone then some e.code else d.firstError
      firstError_eq := d.firstError_append e.toIssue }

/-- Adds a free-form remark, with code `0`, to the warnings. -/
def warn (d : Diagnostics) (message : String) : Diagnostics :=
  { d with warnings := d.warnings ++ [⟨0, message⟩] }

/-- No hard error has been recorded. -/
def isClean (d : Diagnostics) : Bool := d.firstError.isNone

/-- The code of the first hard error, or `0` for a clean run. -/
def status (d : Diagnostics) : Nat := d.firstError.getD 0

/-- The status is the code at the head of the errors, or `0` when there are none. -/
theorem status_eq_head (d : Diagnostics) : d.status = (d.errors.head?.map Issue.code).getD 0 := by
  rw [status, d.firstError_eq]

/-- A run is clean exactly when its error list is empty. -/
theorem isClean_eq (d : Diagnostics) : d.isClean = d.errors.isEmpty := by
  rw [isClean, d.firstError_eq]
  cases d.errors <;> rfl

end Diagnostics

/-- What a step of a stateful component leaves: its new state, the diagnostics, and the
outcome. -/
structure Stepped (σ α : Type) where
  state : σ
  diagnostics : Diagnostics
  result : Except Error α

end MpegTs

import VisualBasic.Limits
import VisualBasic.Toml.Document

/-!
# Limits from a configuration

A configuration is a TOML document in which the table `limits` gives some of the limits by name. The
others have their defaults. Whatever else the document holds does not matter.

Main results:

* `Limits.isReasonable_of_ofToml` — the limits of a configuration that is accepted are reasonable.
-/

namespace VisualBasic

/-- Why a text gives no limits. -/
inductive ConfigurationError where
  /-- The text is no TOML document, or its limits are not natural numbers under the names of
  limits. -/
  | malformed
  | refused (reason : LimitError)
  deriving DecidableEq, Repr

namespace Limits

/-- The limits with one of them given by its name. -/
def setByName (l : Limits) (name : String) (value : Toml.Value) : Option Limits := do
  let name ← LimitName.ofText? name
  match value with
  | .integer (.ofNat n) => return l.set n name
  | _ => none

/-- The limits that a value gives: a table by their names, an array in their order. -/
def ofValue? : Toml.Value → Option Limits
  | .table _ entries => entries.foldlM (fun l (name, value) => l.setByName name value) {}
  | .array items =>
    if items.length < LimitName.all.length then none
    else (LimitName.all.zip items).foldlM (fun l (name, value) => l.setByName name.toText value) {}
  | _ => none

/-- The limits that a document gives. -/
def ofDocument? (document : Toml.Table) : Option Limits :=
  match document.lookup "limits" with
  | some value => ofValue? value
  | none => some {}

/-- The limits of a configuration, which must be reasonable. -/
def ofToml (text : List Char) : Except ConfigurationError Limits :=
  match (Toml.document? text).bind ofDocument? with
  | none => .error .malformed
  | some l =>
    match l.validate with
    | .error reason => .error (.refused reason)
    | .ok () => .ok l

theorem isReasonable_of_ofToml {text : List Char} {l : Limits} (h : ofToml text = .ok l)
    (name : LimitName) : l.isReasonable name = true := by
  unfold ofToml at h
  split at h
  · simp at h
  · next given _ =>
    split at h
    · simp at h
    · next accepted =>
      obtain rfl : given = l := by simpa using h
      exact validate_eq_ok_iff.1 accepted name

end Limits

end VisualBasic

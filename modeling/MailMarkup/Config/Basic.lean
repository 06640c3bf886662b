import MailMarkup.Attribute.Defaults
import MailMarkup.Problem

/-!
# Settings

The settings of a compilation. Diagnostics are collected or left out of the output; either way they
do not stop it. The defaults of the settings lie below those of a document's head.
-/
namespace MailMarkup

inductive Validation where
  | soft | skip
  deriving DecidableEq

def Validation.name : Validation → String
  | .soft => "soft"
  | .skip => "skip"

def Validation.ofName? (name : String) : Option Validation :=
  [.soft, .skip].find? (·.name == name)

structure Config where
  containerWidth : Float := 600
  validation : Validation := .soft
  defaults : Defaults := .empty

/-- Settings from a file must give a width that is finite and positive. -/
def Config.checked (c : Config) : Except Problem Config :=
  if c.containerWidth.isFinite ∧ 0 < c.containerWidth then .ok c
  else .error (.impossibleWidth c.containerWidth)

end MailMarkup

/-
Settings of the reader: how much text a failure quotes, and how deep calls and trees may
nest.

The reader itself works with any limits.  Only values that are sensible to ask for make
settings; every other choice is refused with its cause.
-/

namespace Formula

/-- The least number of characters that a failure quotes, unless told otherwise. -/
def standardWindow : Nat := 10

/-- The number of calls that may nest, unless told otherwise. -/
def standardCallDepth : Nat := 64

/-- The greatest number of calls that may be allowed to nest. -/
def greatestCallDepth : Nat := 1000

/-- The number of levels that a tree may have below its root, unless told otherwise. -/
def standardTreeDepth : Nat := 256

/-- The greatest number of levels that may be allowed below the root of a tree. -/
def greatestTreeDepth : Nat := 4096

/-- What the reader keeps to. -/
structure Limits where
  /-- The least number of characters that a failure quotes. -/
  window : Nat
  /-- The number of calls that may nest. -/
  callDepth : Nat
  /-- The number of levels that a tree may have below its root. -/
  treeDepth : Nat
  deriving DecidableEq

/-- Limits that may be asked for. -/
structure Settings extends Limits where
  window_pos : 0 < window
  callDepth_pos : 0 < callDepth
  callDepth_le : callDepth ≤ greatestCallDepth
  treeDepth_pos : 0 < treeDepth
  treeDepth_le : treeDepth ≤ greatestTreeDepth
  deriving DecidableEq

instance : Coe Settings Limits := ⟨Settings.toLimits⟩

/-- Why settings are refused, with the value that was asked for. -/
inductive SettingsError where
  | window (value : Nat)
  | callDepth (value : Nat)
  | treeDepth (value : Nat)
  deriving DecidableEq

/-- The text that says why settings are refused. -/
def SettingsError.message : SettingsError → String
  | window value => "context_window must be positive: " ++ toString value
  | callDepth value =>
    "max_call_depth must be between 1 and " ++ toString greatestCallDepth ++ ": " ++ toString value
  | treeDepth value =>
    "max_depth must be between 1 and " ++ toString greatestTreeDepth ++ ": " ++ toString value

namespace Settings

/-- The settings that hold unless told otherwise. -/
def standard : Settings where
  window := standardWindow
  callDepth := standardCallDepth
  treeDepth := standardTreeDepth
  window_pos := by decide
  callDepth_pos := by decide
  callDepth_le := by decide
  treeDepth_pos := by decide
  treeDepth_le := by decide

/-- Settings with a given window and call depth, and the standard tree depth.  The window is
checked first. -/
def make (window callDepth : Nat) : Except SettingsError Settings :=
  if hw : 0 < window then
    if hc : 0 < callDepth ∧ callDepth ≤ greatestCallDepth then
      .ok { standard with
        window, callDepth, window_pos := hw, callDepth_pos := hc.1, callDepth_le := hc.2 }
    else .error (.callDepth callDepth)
  else .error (.window window)

/-- The same settings with another tree depth. -/
def withTreeDepth (s : Settings) (treeDepth : Nat) : Except SettingsError Settings :=
  if ht : 0 < treeDepth ∧ treeDepth ≤ greatestTreeDepth then
    .ok { s with treeDepth, treeDepth_pos := ht.1, treeDepth_le := ht.2 }
  else .error (.treeDepth treeDepth)

end Settings

end Formula

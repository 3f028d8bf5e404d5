import Ai00.Basic.Checks

/-! # The states of an installation

`plugin_platform/lifecycle.py`: the states an installed plugin goes through and the moves between
them. An upgrade stages a new version and keeps the one it replaces, a rollback swaps the two.
-/

namespace Ai00.Plugin

inductive State where
  | disabled
  | enabled
  | upgrading
  | failed
  | rolledBack
  | revoked
  | uninstalled
  deriving DecidableEq

def State.text : State → Str
  | .disabled => "disabled".toList
  | .enabled => "enabled".toList
  | .upgrading => "upgrading".toList
  | .failed => "failed".toList
  | .rolledBack => "rolled_back".toList
  | .revoked => "revoked".toList
  | .uninstalled => "uninstalled".toList

/-- What the lifecycle calls raise: the class of the error, its code where it has one, and its
message. -/
inductive Error where
  | lifecycle (message : Str)
  | pluginLifecycle (code message : Str)
  | value (message : Str)
  | compatibility (message : Str)
  | signature (message : Str)
  | manifest (message : Str)
  | mountSession (message : Str)
  | duplicateKey
  deriving DecidableEq

def TRANSITIONS : State → List State
  | .disabled => [.enabled, .upgrading, .uninstalled, .revoked]
  | .enabled => [.disabled, .upgrading, .uninstalled, .revoked]
  | .upgrading => [.enabled, .failed, .rolledBack, .revoked]
  | .failed => [.disabled, .rolledBack, .uninstalled, .revoked]
  | .rolledBack => [.enabled, .disabled, .upgrading, .uninstalled, .revoked]
  | .revoked => [.uninstalled]
  | .uninstalled => []

def requireTransition (current target : State) : Except Error Unit :=
  require (target ∈ TRANSITIONS current)
    (.lifecycle ("invalid plugin transition: ".toList ++ current.text ++ " -> ".toList ++ target.text))

structure UpgradeResult where
  currentVersion : Str
  previousVersion : Str
  state : State
  deriving DecidableEq

def beginUpgrade (currentVersion targetVersion : Str) : Except Error UpgradeResult := do
  require (currentVersion ≠ targetVersion) (.lifecycle "target version is already installed".toList)
  .ok ⟨targetVersion, currentVersion, .upgrading⟩

/-- An empty version counts as none. -/
def rollback (currentVersion : Str) (previousVersion : Option Str) : Except Error UpgradeResult := do
  let previous ← found previousVersion (.lifecycle "no previous version is available".toList)
  require (previous ≠ []) (.lifecycle "no previous version is available".toList)
  .ok ⟨previous, currentVersion, .rolledBack⟩

@[simp] theorem requireTransition_eq_ok {current target : State} {u : Unit} :
    requireTransition current target = .ok u ↔ target ∈ TRANSITIONS current := require_eq_ok

theorem revoked_mem_transitions {s : State} (h : s ≠ .revoked) (h' : s ≠ .uninstalled) :
    State.revoked ∈ TRANSITIONS s := by
  cases s <;> simp_all [TRANSITIONS]

end Ai00.Plugin

-- How a cloner is set up: the choice of backend and the switches of its policy,
-- built in code or read from named settings.
import DeepCopy.Policy
import DeepCopy.Text.Blank

namespace DeepCopy

/-- Which backend a cloner is to use. -/
inductive BackendChoice where
  /-- The fast one if it is there, and otherwise the portable one. -/
  | auto
  | fast
  | portable
deriving DecidableEq, Repr

/-- Reads a choice. Blanks around it and letter case do not count, and nothing means `auto`. -/
def BackendChoice.parse (text : String) : Except ConfigFault BackendChoice :=
  let key := Text.settingKey text
  if key = "" ∨ key = "auto" then .ok .auto
  else if key = "fast" then .ok .fast
  else if key = "portable" then .ok .portable
  else .error (.unknownBackend key)

/-- The kind of backend for a choice, where `rawAccess` says whether the fast one is there. -/
def BackendChoice.select (rawAccess : Bool) : BackendChoice → Except ConfigFault Backend.Kind
  | auto => .ok (if rawAccess then .fast else .portable)
  | fast => if rawAccess then .ok .fast else .error .fastUnavailable
  | portable => .ok .portable

/-- The words that turn a switch off. -/
def offWords : List String := ["0", "false", "off", "no"]

/-- The words that turn a switch on. -/
def onWords : List String := ["1", "true", "on", "yes"]

/-- Whether direct access to fields may be used, given the setting that can turn it off. -/
def rawAccessAllowed : Option String → Bool
  | some text => !offWords.contains (Text.settingKey text)
  | none => true

/-- How a cloner is set up. -/
structure Config where
  backend : BackendChoice := .auto
  flags : CloneFlags := {}
deriving DecidableEq, Repr

namespace Config

/-- The setting for the choice of backend. -/
def backendSetting : String := "REPLICA_BACKEND"
/-- The setting for both kinds of transient fields. -/
def transientSetting : String := "REPLICA_CLONE_TRANSIENT"
/-- The setting for self-copy methods. -/
def selfCopySetting : String := "REPLICA_NATIVE_CLONE"
/-- The setting for the routines of classes. -/
def overridesSetting : String := "REPLICA_USE_OVERRIDES"

/-- Reads a switch. Blanks around it and letter case do not count. -/
def parseFlag (setting text : String) : Except ConfigFault Bool :=
  let key := Text.settingKey text
  if onWords.contains key then .ok true
  else if offWords.contains key then .ok false
  else .error (.notBoolean setting key)

/-- A switch that a setting may turn on or off, and otherwise stays as it is. -/
def readFlag (lookup : String → Option String) (setting : String) (unset : Bool) :
    Except ConfigFault Bool :=
  match lookup setting with
  | some text => parseFlag setting text
  | none => .ok unset

/-- Both kinds of transient fields, cloned or reset. -/
def withTransient (c : Config) (enabled : Bool) : Config :=
  { c with flags := { c.flags with cloneTransient := enabled, cloneAnnotated := enabled } }

/-- Reads the settings in order: the backend, transient fields, self-copying, overrides. What is not
set stays at its default, and the first that cannot be read is the error. -/
def ofSettings (lookup : String → Option String) : Except ConfigFault Config := do
  let start : Config := {}
  let backend ←
    match lookup backendSetting with
    | some text => BackendChoice.parse text
    | none => .ok start.backend
  let transient ← readFlag lookup transientSetting start.flags.cloneTransient
  let selfCopy ← readFlag lookup selfCopySetting start.flags.useSelfCopy
  let overrides ← readFlag lookup overridesSetting start.flags.useOverrides
  let set := start.withTransient transient
  .ok { backend, flags := { set.flags with useSelfCopy := selfCopy, useOverrides := overrides } }

end Config

end DeepCopy

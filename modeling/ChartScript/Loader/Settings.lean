import ChartScript.Error
import ChartScript.Json.Record
import ChartScript.Text.Blank

/-!
# Loader settings

Which version of the chart library a page loads, and in which language. Both are written between
single quotes and may hold no quote, backslash or line break; the version must have a visible
character. A `Loader` is a pair of settings that passed these checks.
-/

namespace ChartScript

/-- Version and language of the chart library. -/
structure LoaderSettings where
  version : String
  language : Option String
deriving DecidableEq

namespace LoaderSettings

/-- The current version in the language of the browser. -/
def default : LoaderSettings := ⟨"current", none⟩

/-- Characters that a single-quoted literal cannot hold as they are. -/
def unsafeChar (c : Char) : Bool :=
  c == '\'' || c == '"' || c == '\\' || c == '\n' || c == '\r'

/-- What is wrong with one setting. -/
def settingFault (setting value : String) : Option Error :=
  if value.toList.any unsafeChar then some (.unsafeSetting setting value) else none

/-- What is wrong with the settings, the version first. -/
def fault? (s : LoaderSettings) : Option Error :=
  if Text.allBlank s.version then some .emptyVersion
  else (settingFault "version" s.version).or (s.language.bind (settingFault "language"))

/-- Settings as JSON. -/
def toJson (s : LoaderSettings) : Json :=
  .object [("version", .text s.version),
    ("language", match s.language with
      | some language => .text language
      | none => .null)]

/-- Settings from JSON; what is left out is as in the default. -/
def ofRaw? (depth : Nat) (raw : RawJson) : Option LoaderSettings := do
  match ← raw.record? ["version", "language"] depth with
  | (_, [version, language]) =>
    let version ← RawJson.orDefault? LoaderSettings.default.version RawJson.text? version
    let language ← RawJson.optional? RawJson.text? language
    return ⟨version, language⟩
  | _ => none

end LoaderSettings

/-- Settings that a script can hold. -/
structure Loader where
  settings : LoaderSettings
  faultless : settings.fault? = none

namespace Loader

/-- Accept settings, or say what is wrong with them. -/
def ofSettings (settings : LoaderSettings) : Except Error Loader :=
  match h : settings.fault? with
  | some fault => .error fault
  | none => .ok ⟨settings, h⟩

/-- Read and accept settings from text. -/
def ofText (text : String) : Except Error Loader :=
  match (RawJson.read? text).bind (LoaderSettings.ofRaw? jsonDepth) with
  | some settings => ofSettings settings
  | none => .error .unreadableSettings

end Loader

end ChartScript

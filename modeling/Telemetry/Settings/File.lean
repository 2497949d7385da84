import Telemetry.Disk
import Telemetry.Json.Fields
import Telemetry.Json.Writer
import Telemetry.Metric.Value

/-!
# Settings files

Settings are kept in a document of their own. A field that is absent keeps its default, a text that
may be absent is null when it is, and a secret is read but never written.
-/

namespace Telemetry.Settings

open Json

/-- An empty text is as good as none. -/
def nonEmpty (text : Option String) : Option String := text.filter fun s => s ≠ ""

def writeText (name value : String) : List Char := writeMember name (writeString value)

def writeOptionalText (name : String) (value : Option String) : List Char :=
  writeMember name (writeOption writeString value)

def writeNumber (name : String) (value : UInt64) : List Char :=
  writeMember name (integerText value.toNat)

def textField {σ : Type} (name : String) (set : String → σ → σ) : Json.Field σ :=
  ⟨name, [], false, (Reader.text "a string").map set⟩

def optionalTextField {σ : Type} (name : String) (set : Option String → σ → σ) : Json.Field σ :=
  ⟨name, [], false, (Reader.text "a string").optional.map set⟩

/-- A field that holds a path, or null, and may have another name. -/
def pathField {σ : Type} (name : String) (aliases : List String) (set : Option String → σ → σ) :
    Json.Field σ :=
  ⟨name, aliases, false, (Reader.text "path string").optional.map set⟩

/-- A field that holds a whole number of seconds. -/
def secondsField {σ : Type} (name : String) (set : UInt64 → σ → σ) : Json.Field σ :=
  ⟨name, [], false, (Reader.uint64 "u64").map fun n => set (UInt64.ofNat n)⟩

def countField {σ : Type} (name : String) (set : UInt64 → σ → σ) : Json.Field σ :=
  ⟨name, [], false, (Reader.uint64 "usize").map fun n => set (UInt64.ofNat n)⟩

def flagField {σ : Type} (name : String) (set : Bool → σ → σ) : Json.Field σ :=
  ⟨name, [], false, Reader.boolean.map set⟩

def readText {σ : Type} (form : Form σ) (path text : String) : Except Failure σ :=
  (form.reader.document (Bytes.ofString text)).mapError fun error =>
    .configuration ("Failed to parse config " ++ path ++ ": " ++ error.message)

/-- The text of the file that a path names, or why it cannot be had. -/
abbrev TextFiles := String → Except FileFault String

def load {σ : Type} (form : Form σ) (files : TextFiles) (path : String) : Except Failure σ :=
  match files path with
  | .error fault =>
    .error (.configuration ("Failed to read config " ++ path ++ ": " ++ fault.message))
  | .ok text => readText form path text

end Telemetry.Settings

import ScriptFuzz.Campaign.Basic
import ScriptFuzz.FileFuzz.Basic
import ScriptFuzz.Toml.Document

/-!
# Configuration files

What a configuration file sets: the target, where it connects to, the times and limits of a
campaign, and how files are fuzzed. What a file does not set has a default; what it sets must be
known.

- `Config`: the settings.
- `Config.ofDocument?`: reads them from the text of a file.
- `Config.settings`: the times and limits of a campaign.

A group of settings is a table. It can also be an array of the first settings of the group in their
order.
-/

namespace ScriptFuzz

/-- The program under test. -/
structure TargetConfig where
  /-- The command and its arguments. -/
  command : List String := []
  /-- The folder to run it in. -/
  workingDir : Option String := none
deriving DecidableEq, Repr, Inhabited

/-- Where the target connects to. -/
structure ListenerConfig where
  /-- The address to listen on. -/
  interface : String := "127.0.0.1"
  /-- The port to listen on. -/
  port : Nat := 4444
deriving DecidableEq, Repr, Inhabited

/-- Times, in milliseconds, and limits of a campaign. -/
structure CampaignConfig where
  /-- How long a target has to open its channel. -/
  connectTimeout : Nat := 5000
  /-- How long to wait on the channel. -/
  ioTimeout : Nat := 2000
  /-- How long a target has to end once it is stopped. -/
  exitTimeout : Nat := 2000
  /-- How long to wait for the channel before looking after the target. -/
  pollInterval : Nat := 25
  /-- The greatest number of states of a mutator that are tried. Zero sets no limit. -/
  maxSteps : Nat := 4096
  /-- The order of integers on the channel. -/
  byteOrder : ByteOrder := .bigEndian
  /-- The folder in which findings are kept. -/
  findingsDir : String := "./.weft_findings"
deriving DecidableEq, Repr, Inhabited

/-- How files are fuzzed. -/
structure FilesConfig where
  /-- The arguments of the target. Braces with nothing between stand for the path of the payload. -/
  argumentTemplate : String := "\x7b\x7d"
  /-- How long a run may take, in milliseconds. -/
  timeout : Nat := 2000
deriving DecidableEq, Repr, Inhabited

/-- The settings of a configuration file. -/
structure Config where
  target : TargetConfig := {}
  listener : ListenerConfig := {}
  campaign : CampaignConfig := {}
  files : FilesConfig := {}
deriving DecidableEq, Repr, Inhabited

namespace Config

/-- The times and limits of a campaign. -/
def settings (config : Config) : Campaign.Settings where
  connectTimeout := config.campaign.connectTimeout
  exitTimeout := config.campaign.exitTimeout
  pollInterval := config.campaign.pollInterval
  maxSteps := if config.campaign.maxSteps = 0 then none else some config.campaign.maxSteps

/-! ## Reading -/

/-- A text. -/
def text? : Toml → Option String
  | .text s => some s
  | _ => none

/-- An integer without a sign of at most the given number of bits. -/
def unsigned? (bits : Nat) : Toml → Option Nat
  | .integer n => if 0 ≤ n ∧ n < 2 ^ bits then some n.toNat else none
  | _ => none

/-- Texts. -/
def texts? : Toml → Option (List String)
  | .array items => items.mapM text?
  | _ => none

/-- A byte order by its name. -/
def orderOfName? : String → Option ByteOrder
  | "big-endian" => some .bigEndian
  | "little-endian" => some .littleEndian
  | _ => none

/-- A byte order: its name, or a table in which it stands for nothing. -/
def order? : Toml → Option ByteOrder
  | .text name => orderOfName? name
  | .table [(name, .table [])] => orderOfName? name
  | .table [(name, .array [])] => orderOfName? name
  | _ => none

/-- What is set in a group of settings with the given names, in their order. No other names can be
set. -/
def group? (names : List String) : Toml → Option (List (Option Toml))
  | .table entries =>
    if entries.all (names.contains ·.1) then some (names.map fun name => entries.lookup name)
    else none
  | .array items => some ((List.range names.length).map (items[·]?))
  | _ => none

/-- A setting that may be missing. -/
def setting? {α : Type} (default : α) (read : Toml → Option α) : Option Toml → Option α
  | some v => read v
  | none => some default

/-- The settings of the target. In an array the folder cannot be missing. -/
def target? (v : Toml) : Option TargetConfig := do
  match v, ← group? ["command", "working-dir"] v with
  | .array _, [_, none] => none
  | _, [command, workingDir] =>
    let command ← setting? [] texts? command
    let workingDir ← setting? none (fun v => some <$> text? v) workingDir
    return { command, workingDir }
  | _, _ => none

/-- The settings of the listener. -/
def listener? (v : Toml) : Option ListenerConfig := do
  let d : ListenerConfig := {}
  match ← group? ["interface", "port"] v with
  | [interface, port] =>
    let interface ← setting? d.interface text? interface
    let port ← setting? d.port (unsigned? 16) port
    return { interface, port }
  | _ => none

/-- The settings of a campaign. -/
def campaign? (v : Toml) : Option CampaignConfig := do
  let d : CampaignConfig := {}
  match ← group? ["connect-timeout-ms", "io-timeout-ms", "exit-timeout-ms", "poll-interval-ms",
      "max-steps-per-mutator", "byte-order", "findings-dir"] v with
  | [connectTimeout, ioTimeout, exitTimeout, pollInterval, maxSteps, byteOrder, findingsDir] =>
    let connectTimeout ← setting? d.connectTimeout (unsigned? 64) connectTimeout
    let ioTimeout ← setting? d.ioTimeout (unsigned? 64) ioTimeout
    let exitTimeout ← setting? d.exitTimeout (unsigned? 64) exitTimeout
    let pollInterval ← setting? d.pollInterval (unsigned? 64) pollInterval
    let maxSteps ← setting? d.maxSteps (unsigned? 64) maxSteps
    let byteOrder ← setting? d.byteOrder order? byteOrder
    let findingsDir ← setting? d.findingsDir text? findingsDir
    return { connectTimeout, ioTimeout, exitTimeout, pollInterval, maxSteps, byteOrder,
             findingsDir }
  | _ => none

/-- The settings for fuzzing files. -/
def files? (v : Toml) : Option FilesConfig := do
  let d : FilesConfig := {}
  match ← group? ["argument-template", "timeout-ms"] v with
  | [argumentTemplate, timeout] =>
    let argumentTemplate ← setting? d.argumentTemplate text? argumentTemplate
    let timeout ← setting? d.timeout (unsigned? 64) timeout
    return { argumentTemplate, timeout }
  | _ => none

/-- The settings in a document. -/
def ofDocument? (document : String) : Option Config := do
  let entries ← Toml.ofDocument? document
  match ← group? ["target", "listener", "campaign", "files"] (.table entries) with
  | [target, listener, campaign, files] =>
    let target ← setting? {} target? target
    let listener ← setting? {} listener? listener
    let campaign ← setting? {} campaign? campaign
    let files ← setting? {} files? files
    return { target, listener, campaign, files }
  | _ => none

end Config

end ScriptFuzz

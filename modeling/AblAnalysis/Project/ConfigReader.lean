import AblAnalysis.Project.Settings
import AblAnalysis.Storage.Files
import AblAnalysis.Toml.Reader

/-!
Project settings as TOML. The document has the tables `settings` and `cache` and the lists
`schema_files` and `catalog_files`; what is missing has its default, and other keys are passed over. A
table may also be given as an array of its values in order, with values left out at the end.
-/

namespace AblAnalysis

open Toml

/-- A text. -/
def Toml.Item.text? : Item → Option String
  | .text s => some s
  | _ => none

/-- A truth value. -/
def Toml.Item.boolean? : Item → Option Bool
  | .boolean b => some b
  | _ => none

/-- A number from 0 up to a bound. -/
def Toml.Item.count? (bound : Nat) : Item → Option Nat
  | .integer n => if 0 ≤ n ∧ n < bound then some n.toNat else none
  | _ => none

/-- A list of texts. -/
def Toml.Item.texts? : Item → Option (List String)
  | .array items => items.mapM Item.text?
  | .tables elements => if elements.isEmpty then some [] else none
  | _ => none

/-- Whether a value holds nothing. -/
def Toml.Item.isVoid : Item → Bool
  | .array items => items.isEmpty
  | .table _ entries => entries.isEmpty
  | .tables elements => elements.isEmpty
  | _ => false

/-- The operating system with a name. -/
def OperatingSystem.ofWord? (word : String) : Option OperatingSystem :=
  if word = "unix" then some .unix
  else if word = "windows" then some .windows
  else none

/-- An operating system: its name, or a table with its name as the only key and nothing under it. -/
def OperatingSystem.ofItem? : Item → Option OperatingSystem
  | .text word => ofWord? word
  | .table _ [(word, item)] => if item.isVoid then ofWord? word else none
  | _ => none

/-- What the keys of a record do to it, in the order of the keys. -/
abbrev RecordKeys (α : Type) := List (String × (α → Item → Option α))

/-- Fills a record from the entries of a table. -/
def fillNamed {α : Type} (keys : RecordKeys α) : Entries → α → Option α
  | [], a => some a
  | (key, item) :: rest, a =>
    match keys.lookup key with
    | some set => (set a item).bind (fillNamed keys rest)
    | none => fillNamed keys rest a

/-- Fills a record from values in the order of its keys; further values do not count. -/
def fillInOrder {α : Type} : RecordKeys α → List Item → α → Option α
  | (_, set) :: keys, item :: rest, a => (set a item).bind (fillInOrder keys rest)
  | _, _, a => some a

/-- Fills a record from a value. A date says nothing about a record. -/
def fill? {α : Type} (keys : RecordKeys α) (start : α) : Item → Option α
  | .table _ entries => fillNamed keys entries start
  | .array items => fillInOrder keys items start
  | .tables elements => fillInOrder keys (elements.reverse.map (.table .header)) start
  | .moment => some start
  | _ => none

/-- The keys of the table `settings`. -/
def Settings.keys : RecordKeys Settings := [
  ("propath", fun s v => v.texts?.map (fun propath => { s with propath })),
  ("proversion", fun s v => v.text?.map (fun version => { s with version })),
  ("batch_mode", fun s v => v.boolean?.map (fun batchMode => { s with batchMode })),
  ("multi_parse", fun s v => v.boolean?.map (fun multiParse => { s with multiParse })),
  ("proparse_directives", fun s v => v.boolean?.map (fun directives => { s with directives })),
  ("backslash_escape", fun s v =>
    v.boolean?.map (fun backslashEscape => { s with backslashEscape })),
  ("opsys", fun s v => (OperatingSystem.ofItem? v).map (fun system => { s with system }))]

/-- The keys of the table `cache`. -/
def CacheSettings.keys : RecordKeys CacheSettings := [
  ("cache_dir", fun s v => v.text?.map (fun directory => { s with directory })),
  ("enabled", fun s v => v.boolean?.map (fun enabled => { s with enabled })),
  ("max_retries", fun s v =>
    (v.count? UInt32.size).map (fun n => { s with maxRetries := UInt32.ofNat n })),
  ("retry_delay_ms", fun s v =>
    (v.count? UInt64.size).map (fun n => { s with retryDelay := UInt64.ofNat n }))]

/-- The keys of the document. -/
def ProjectConfig.keys : RecordKeys ProjectConfig := [
  ("settings", fun c v => (fill? Settings.keys {} v).map (fun settings => { c with settings })),
  ("cache", fun c v => (fill? CacheSettings.keys {} v).map (fun cache => { c with cache })),
  ("schema_files", fun c v => v.texts?.map (fun schemaFiles => { c with schemaFiles })),
  ("catalog_files", fun c v => v.texts?.map (fun catalogFiles => { c with catalogFiles }))]

/-- The settings that a TOML document gives. -/
def ProjectConfig.ofToml (text : String) : Except Error ProjectConfig :=
  match (Toml.read? text).bind (fun entries => fillNamed keys entries {}) with
  | some config => .ok config
  | none => .error (.config .invalidToml)

/-- The settings that a TOML file gives. -/
def ProjectConfig.load {m : Type → Type} [Monad m] (files : Files m) (path : String) :
    m (Except Error ProjectConfig) := do
  match ← files.readText path with
  | .error failure => return .error (.config (.unreadableFile failure.text))
  | .ok text => return ofToml text

end AblAnalysis

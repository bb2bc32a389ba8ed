import DealerPay.Text.Integer
import DealerPay.Text.Upper

/-!
# Settings

What the service is told by its environment.

* `Settings` holds the settings, `Settings.ofEnvironment` takes them from named texts, with a default
  for each that is not there.
* `LogLevel` is how grave a note has to be to be written down. Some levels have two names.
* `SettingsError` says which setting is wrong. The limit on rollups is looked at before the level.
-/

namespace DealerPay.Service

/-- How grave a note has to be to be written down. -/
inductive LogLevel where
  /-- Only what stops the service. -/
  | critical
  /-- What went wrong as well. -/
  | error
  /-- What somebody should look at as well. -/
  | warning
  /-- What happened as well. -/
  | info
  /-- What helps to find faults as well. -/
  | debug
  /-- Nothing is asked for. -/
  | unset
deriving DecidableEq, Repr

namespace LogLevel

/-- The name of a level. -/
def text : LogLevel → String
  | critical => "CRITICAL"
  | error => "ERROR"
  | warning => "WARNING"
  | info => "INFO"
  | debug => "DEBUG"
  | unset => "NOTSET"

/-- The names by which levels can be asked for. -/
def words : List (String × LogLevel) :=
  [("CRITICAL", critical), ("FATAL", critical), ("ERROR", error), ("WARN", warning),
   ("WARNING", warning), ("INFO", info), ("DEBUG", debug), ("NOTSET", unset)]

/-- The level of a name. -/
def named? (name : String) : Option LogLevel := words.lookup name

end LogLevel

/-- The settings of the service. -/
structure Settings where
  /-- The name of the level as it was asked for. -/
  levelName : String
  /-- How grave a note has to be to be written down. -/
  level : LogLevel
  /-- Whether a plan with a second salary or draw is refused. -/
  strict : Bool
  /-- The most consultants that are looked at together. -/
  maxRollup : Int
deriving DecidableEq, Repr

/-- Which setting is wrong. -/
inductive SettingsError where
  /-- The most consultants, given by this text. -/
  | badLimit (text : String) (e : Text.IntegerError)
  /-- The level, of which there is none with this name. -/
  | unknownLevel (name : String)
deriving Repr

/-- What is said of a wrong setting. -/
def SettingsError.message : SettingsError → String
  | badLimit text e => e.message text
  | unknownLevel name => "Unknown level: " ++ Text.quoted name

namespace Settings

/-- The settings of an empty environment. -/
def standard : Settings := ⟨"INFO", .info, false, 200⟩

/-- The words that turn a setting on. -/
def yesWords : List String := ["1", "true", "yes"]

/-- Whether a text turns a setting on, whatever the case of its letters. -/
def isYes (s : String) : Bool :=
  yesWords.contains (String.ofList ((Text.trimChars s.toList).map Char.toLower))

/-- The most consultants, from a text. -/
def readLimit (s : String) : Except SettingsError Int :=
  (Text.readInteger s).mapError (.badLimit s)

/-- The level of a name in any case. -/
def readLevel (s : String) : Except SettingsError (String × LogLevel) :=
  let name := Text.upper (Text.trim s)
  match LogLevel.named? name with
  | some l => .ok (name, l)
  | none => .error (.unknownLevel name)

/-- A setting from its text, or its default. -/
def orDefault {α : Type} (default : α) (read : String → Except SettingsError α) :
    Option String → Except SettingsError α
  | some s => read s
  | none => .ok default

/-- The settings of an environment. -/
def ofEnvironment (env : String → Option String) : Except SettingsError Settings := do
  let limit ← orDefault standard.maxRollup readLimit (env "PAYPLAN_MAX_ROLLUP")
  let level ← orDefault (standard.levelName, standard.level) readLevel (env "LOG_LEVEL")
  let strict ← orDefault standard.strict (fun s => .ok (isYes s)) (env "PAYPLAN_STRICT_BASE_SALARY")
  return ⟨level.1, level.2, strict, limit⟩

end Settings

end DealerPay.Service

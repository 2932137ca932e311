import Scriptlet.Settings.Basic

/-!
# The logger

The level of the logger is taken from the settings once, by whoever configures first, and only if
the settings give one; a text that names no level gives the default level.  After that the settings
are not looked at again, unless the logger is reset.
-/

namespace Scriptlet.Settings

/-- The state of the logger, and the setting that it would take its level from. -/
structure Logger where
  level : Int := 0
  configured : Bool := false
  text : Option String := none

namespace Logger

/-- What can happen to a logger. -/
inductive Step where
  /-- The setting is given or taken away. -/
  | setting (text : Option String)
  /-- The level is set by hand. -/
  | level (n : Int)
  | configure
  | reset

/-- Whether the setting gives a level: an empty text does not. -/
def isGiven (logger : Logger) : Bool :=
  (logger.text.getD "") != ""

/-- Takes the level from the settings, if that was not done before. -/
def configure (logger : Logger) : Logger :=
  if logger.configured then logger
  else if logger.isGiven then
    { logger with configured := true, level := Texts.level { logLevel := logger.text } }
  else { logger with configured := true }

/-- The logger after a step. -/
def step (logger : Logger) : Step → Logger
  | .setting text => { logger with text }
  | .level n => { logger with level := n }
  | .configure => logger.configure
  | .reset => { logger with configured := false }

/-- The loggers after each of some steps. -/
def trace (logger : Logger) : List Step → List Logger
  | [] => []
  | s :: steps => logger.step s :: trace (logger.step s) steps

end Logger
end Scriptlet.Settings

import SccDispatch.Dispatcher
import SccDispatch.NameMap

namespace SccDispatch

def defaultCaller : String := "Decoda"

def defaultLogDirectory : String := "logs"

structure Settings where
  /-- The provider to bind; none if empty. -/
  provider : String := ""
  caller : String := defaultCaller
  /-- A project that the provider does not have is created. -/
  createMissing : Bool := true
  /-- Status queries need not wait for the worker if the provider allows it. -/
  concurrentQueries : Bool := true
  logDirectory : String := defaultLogDirectory
  debug : Bool := false
  project : Project := {}
  extraProviders : NameMap := .empty
  deriving DecidableEq, Inhabited

namespace Settings

def options (s : Settings) : Options where
  caller := s.caller
  createMissing := s.createMissing
  concurrentQueries := s.concurrentQueries

def registry (s : Settings) (installed : Registry) : Registry := installed.merge s.extraProviders

def chosen? (s : Settings) (installed : Registry) : Option Installed :=
  if s.provider == "" then none else (s.registry installed).find? s.provider

end Settings

end SccDispatch

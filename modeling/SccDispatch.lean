import SccDispatch.CommandLine.Run
import SccDispatch.Config.Store
import SccDispatch.Dispatcher
import SccDispatch.Guard
import SccDispatch.Main
import SccDispatch.Native.Provider
import SccDispatch.Queue
import SccDispatch.Registry
import SccDispatch.Rehearsal.Echo
import SccDispatch.Rehearsal.Player
import SccDispatch.Session
import SccDispatch.Text.Leading
import SccDispatch.Text.Pad
import SccDispatch.Proofs.WorkerDelivery
import SccDispatch.Proofs.VisibleState
import SccDispatch.Proofs.Operations
import SccDispatch.Proofs.StateAgreement
import SccDispatch.Proofs.IdleWorker
import SccDispatch.Proofs.FaultErasure
import SccDispatch.Proofs.MaskedRuns
import SccDispatch.Proofs.FaultMasking
import SccDispatch.Proofs.Sections
import SccDispatch.Proofs.ProviderRecords
import SccDispatch.Proofs.BindAttempts
import SccDispatch.Proofs.BoundProviders
import SccDispatch.Proofs.Sessions
import SccDispatch.Proofs.SharedDispatcher
import SccDispatch.Proofs.QueryExclusion
import SccDispatch.Proofs.SessionLifecycle
import SccDispatch.Proofs.EventHistory
import SccDispatch.Proofs.Rebinding
import SccDispatch.Proofs.JournalEntries
import SccDispatch.Proofs.Routine
import SccDispatch.Proofs.ThreadSystem
import SccDispatch.Proofs.SequentialRuns
import SccDispatch.Proofs.JobsInFlight
import SccDispatch.Proofs.RanCommands
import SccDispatch.Proofs.JournalBalance
import SccDispatch.Proofs.ProjectLockDiscipline
import SccDispatch.Proofs.ProjectAlternation
import SccDispatch.Proofs.ProjectHistory
import SccDispatch.Proofs.RoutineResources
import SccDispatch.Proofs.WorkerSpawn
import SccDispatch.Proofs.SharedSession
import SccDispatch.Proofs.DispatchSuccess
import SccDispatch.Proofs.BlockingSystem
import SccDispatch.Proofs.BlockingInvariants
import SccDispatch.Proofs.BlockingProgress
import SccDispatch.Proofs.TextBytes
import SccDispatch.Proofs.WrittenFiles
import SccDispatch.Proofs.Yaml.Point
import SccDispatch.Proofs.Yaml.PlainText
import SccDispatch.Proofs.Yaml.QuotedText
import SccDispatch.Proofs.Yaml.BlockText
import SccDispatch.Proofs.Yaml.Words
import SccDispatch.Proofs.Yaml.Values
import SccDispatch.Proofs.Yaml.Entries
import SccDispatch.Proofs.Yaml.Nodes
import SccDispatch.Proofs.SavedConfiguration
import SccDispatch.Proofs.GuardRegions
import SccDispatch.Proofs.ModuleCalls
import SccDispatch.Proofs.StatusQueries
import SccDispatch.Proofs.CommandWords
import SccDispatch.Proofs.ProgramRuns
import SccDispatch.Proofs.UnboundDispatcher
import SccDispatch.Proofs.RequestCalls
import SccDispatch.Proofs.ErrorCounts
import SccDispatch.Proofs.TextShortening
import SccDispatch.Proofs.ProviderNames
import SccDispatch.Proofs.EventReplay
import SccDispatch.Proofs.SettingsDefaults
import SccDispatch.Proofs.SharedQueue
import SccDispatch.Proofs.QueueWaking
import SccDispatch.Proofs.LossyDecoding
import SccDispatch.Proofs.BufferReading
import SccDispatch.Proofs.ProviderLineage
import SccDispatch.Proofs.ModuleContexts

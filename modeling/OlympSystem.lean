import OlympSystem.Lib.Query
import OlympSystem.Lib.Runs
import OlympSystem.Lib.Channel
import OlympSystem.Lib.Checked
import OlympSystem.Lib.Program
import OlympSystem.Lib.Serial
import OlympSystem.Lib.Servers
import OlympSystem.Lib.Utf8
import OlympSystem.Lib.Tables
import OlympSystem.Lib.Paths
import OlympSystem.Lib.Dictionaries
import OlympSystem.Lib.Transactions
import OlympSystem.Lib.Pairs
import OlympSystem.Lib.Archives
import OlympSystem.Lib.EditScripts
import OlympSystem.Lib.Text
import OlympSystem.Lib.CodeUnits
import OlympSystem.Lib.Search
import OlympSystem.Exceptions
import OlympSystem.Checker.Runner
import OlympSystem.Checker.ResultStatus
import OlympSystem.Checker.Interfaces
import OlympSystem.Checker.Service
import OlympSystem.Checker.Verdict
import OlympSystem.Checker.Exclusive
import OlympSystem.Checker.SelfTests
import OlympSystem.Checker.TextCheckers
import OlympSystem.Checker.MuseumChecker
import OlympSystem.Checker.FloatArrayChecker
import OlympSystem.Checker.EditDistances
import OlympSystem.Checker.SimpleCheckers
import OlympSystem.Checker.AIDetection
import OlympSystem.Domain.Models
import OlympSystem.Domain.Standing
import OlympSystem.Domain.IcpcRules
import OlympSystem.Domain.Freeze
import OlympSystem.Domain.Rows
import OlympSystem.Domain.FirstSuccess
import OlympSystem.Domain.CollectionOrder
import OlympSystem.Domain.SchoolScoring
import OlympSystem.Domain.CheckStatusCodes
import OlympSystem.Domain.ScoresByTest
import OlympSystem.Domain.StandingData
import OlympSystem.Domain.DataFreeze
import OlympSystem.Domain.DataCut
import OlympSystem.Site.RunnerMessages
import OlympSystem.Runner.RunnerClientService
import OlympSystem.Runner.OutputCapture
import OlympSystem.Runner.WorkDirectory
import OlympSystem.Site.Registry
import OlympSystem.Site.RunnerService
import OlympSystem.Site.RemoteJudging
import OlympSystem.Site.Environments
import OlympSystem.Site.Database
import OlympSystem.Site.ProblemArchive
import OlympSystem.Site.ContestProblemService
import OlympSystem.Site.ImportLaw
import OlympSystem.Site.Scores
import OlympSystem.Site.SchoolScores
import OlympSystem.Site.CheckerManager
import OlympSystem.Site.Queue
import OlympSystem.Site.ResultAgreement
import OlympSystem.Site.ExclusiveJudging
import OlympSystem.Site.WithinLimits
import OlympSystem.Site.ArchiveGrammar
import OlympSystem.Site.ArchiveNames
import OlympSystem.Site.ArchiveContents
import OlympSystem.Site.Drain
import OlympSystem.Site.ErrorsPage
import OlympSystem.Site.QueueLedger
import OlympSystem.Site.SharedQueue
import OlympSystem.Site.QueueProgress
import OlympSystem.Site.CheckerProcess
import OlympSystem.Site.AcmScores
import OlympSystem.Site.Accounts
import OlympSystem.Site.CompetitorManagementService
import OlympSystem.Site.CompetitorChanges
import OlympSystem.Site.CompetitorRuns
import OlympSystem.Site.Credentials
import OlympSystem.Site.LegacyPasswords
import OlympSystem.Site.HistoryProtection
import OlympSystem.Site.ContestPages
import OlympSystem.Site.Memberships
import OlympSystem.Site.Authorship
import OlympSystem.Site.FailureAtomicity
import OlympSystem.Site.MemoryLimits
import OlympSystem.Site.RowTotals
import OlympSystem.Site.AntiCheatReports
import OlympSystem.Site.LoginAssignment
import OlympSystem.Site.TeamMembers
import OlympSystem.Site.NameImport
import OlympSystem.Site.CompilatorSynchronization
import OlympSystem.Site.TestArchive
import OlympSystem.Site.ViewPages
import OlympSystem.Site.Published
import OlympSystem.Site.Secrets
import OlympSystem.Site.CompetitorIsolation
import OlympSystem.Site.CompetitorPages
import OlympSystem.Site.ContestSettings
import OlympSystem.Site.SettingsRuns
import OlympSystem.Site.ContestAuthority

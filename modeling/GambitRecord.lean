import GambitRecord.Library.Runs
import GambitRecord.Broker.Protocol
import GambitRecord.Broker.UploadSession
import GambitRecord.Broker.SessionRace
import GambitRecord.Recorder.BrokerUploader
import GambitRecord.Recorder.Transfer
import GambitRecord.Recorder.Dialogue
import GambitRecord.Library.Algorithms
import GambitRecord.Replay.SegmentStore
import GambitRecord.Replay.Selection
import GambitRecord.Replay.Retention
import GambitRecord.Plugin.Logic
import GambitRecord.Library.CodePage
import GambitRecord.Recorder.RecordingSession
import GambitRecord.Recorder.Application
import GambitRecord.Plugin.Globals
import GambitRecord.System.Composite
import GambitRecord.System.Labels
import GambitRecord.System.Startable
import GambitRecord.Library.Json.Lexer
import GambitRecord.Library.Json.Document
import GambitRecord.Library.Json.Access
import GambitRecord.Recorder.StateFile
import GambitRecord.Recorder.UploadQueue
import GambitRecord.Library.Utf16
import GambitRecord.Recorder.Config
import GambitRecord.Recorder.Settings
import GambitRecord.Recorder.Responses
import GambitRecord.Recorder.IpcServer
import GambitRecord.Replay.Window
import GambitRecord.Replay.Modes
import GambitRecord.Replay.SegmentFiles
import GambitRecord.Replay.Sharing
import GambitRecord.Replay.Snapshots
import GambitRecord.Recorder.Takes
import GambitRecord.Replay.ReplayBuffer
import GambitRecord.Library.Json.Truncated
import GambitRecord.Library.TextMode
import GambitRecord.Recorder.StateSave
import GambitRecord.System.Announcements
import GambitRecord.Recorder.JobLives
import GambitRecord.Recorder.EncoderLoop
import GambitRecord.Broker.SessionEnd
import GambitRecord.Library.Calendar
import GambitRecord.Broker.DailyLimiter
import GambitRecord.Recorder.Offsets
import GambitRecord.Plugin.Confirmation
import GambitRecord.Library.Bits
import GambitRecord.Plugin.BitReader
import GambitRecord.Plugin.RpcPayload
import GambitRecord.Plugin.IncomingRpc
import GambitRecord.Recorder.StoredConfig
import GambitRecord.Recorder.EvidenceFiles
import GambitRecord.Recorder.Places
import GambitRecord.Recorder.QueueThreads
import GambitRecord.System.StartIntent
import GambitRecord.Recorder.SaveFuture
import GambitRecord.Replay.Clip
import GambitRecord.Recorder.EncoderStretches
import GambitRecord.Recorder.StopAnswer
import GambitRecord.Broker.PersistedOffset
import GambitRecord.Recorder.SessionLoss
import GambitRecord.Broker.Authentication
import GambitRecord.Recorder.ArchiveLimit
import GambitRecord.Library.NalUnits
import GambitRecord.Recorder.Keyframes
import GambitRecord.Replay.SampleOrder
import GambitRecord.Replay.SavedDuration
import GambitRecord.Replay.CutSegment
import GambitRecord.Plugin.PunishmentKinds
import GambitRecord.Plugin.PunishmentLine
import GambitRecord.Plugin.CommandHook
import GambitRecord.Plugin.IpcClient
import GambitRecord.System.PipeRoundTrip
import GambitRecord.Library.Promise
import GambitRecord.Broker.Handler
import GambitRecord.Broker.Failures
import GambitRecord.Recorder.ChunkLoop
import GambitRecord.System.ContentRange
import GambitRecord.Recorder.FileNames
import GambitRecord.Plugin.UiConfig
import GambitRecord.Plugin.UiSettings
import GambitRecord.Plugin.ThemeReader
import GambitRecord.Plugin.ReadBits
import GambitRecord.Recorder.BoundedQueue
import GambitRecord.Library.CommandLine
import GambitRecord.Recorder.CaptureManager
import GambitRecord.System.WorkerLaunch
import GambitRecord.Broker.Creations
import GambitRecord.Plugin.GameText
import GambitRecord.System.NamedCommands
import GambitRecord.System.Requests
import GambitRecord.System.CreateRequest
import GambitRecord.Recorder.AudioControl
import GambitRecord.Recorder.FrameAccounts
import GambitRecord.System.SettingsPage
import GambitRecord.Recorder.MarkerFile
import GambitRecord.Recorder.EncoderTransforms
import GambitRecord.Recorder.PipelineRecovery
import GambitRecord.Recorder.PipeInstances

import LanguageLlm.Lib.Run
import LanguageLlm.Lib.OrderedMap
import LanguageLlm.Lib.Framing
import LanguageLlm.Lib.FileSystem
import LanguageLlm.Lib.Runs
import LanguageLlm.Lib.StableSort
import LanguageLlm.Lib.Regex
import LanguageLlm.Json
import LanguageLlm.Client.Session
import LanguageLlm.Client.Waiters
import LanguageLlm.Client.Delivery
import LanguageLlm.Client.Correlation
import LanguageLlm.Client.Connection
import LanguageLlm.Client.LateEvents
import LanguageLlm.PageTranslate.Dom
import LanguageLlm.PageTranslate.Document
import LanguageLlm.PageTranslate.Segmenter
import LanguageLlm.PageTranslate.Apply
import LanguageLlm.PageTranslate.Controller
import LanguageLlm.PageTranslate.Render
import LanguageLlm.PageTranslate.Recover
import LanguageLlm.PageTranslate.ModeSwitch
import LanguageLlm.PageTranslate.Overlap
import LanguageLlm.PageTranslate.Collect
import LanguageLlm.PageTranslate.PathKeys
import LanguageLlm.PageTranslate.Places
import LanguageLlm.PageTranslate.Mutations
import LanguageLlm.PageTranslate.Coalesce
import LanguageLlm.Desktop.Protocol
import LanguageLlm.Desktop.Jobs
import LanguageLlm.Desktop.Capture
import LanguageLlm.Desktop.LocalStore
import LanguageLlm.Desktop.State
import LanguageLlm.Desktop.Handler
import LanguageLlm.Desktop.Handlers
import LanguageLlm.Desktop.WsServer
import LanguageLlm.Desktop.Vad
import LanguageLlm.Desktop.Resample
import LanguageLlm.Desktop.Wav
import LanguageLlm.Desktop.AuthGate
import LanguageLlm.Desktop.BootstrapToken
import LanguageLlm.Desktop.LiveAsr
import LanguageLlm.Desktop.PrivacyWipe
import LanguageLlm.Desktop.LockOrder
import LanguageLlm.Desktop.Translations
import LanguageLlm.Desktop.Hydrate
import LanguageLlm.Desktop.Models
import LanguageLlm.Desktop.Companion
import LanguageLlm.Desktop.Cancellation
import LanguageLlm.Desktop.Reports
import LanguageLlm.Desktop.Sessions
import LanguageLlm.Desktop.AsrPlan
import LanguageLlm.Desktop.LiveCues
import LanguageLlm.Desktop.NativeHost
import LanguageLlm.Desktop.Retention
import LanguageLlm.Desktop.LyricsCache
import LanguageLlm.Desktop.Dictionaries
import LanguageLlm.LanguageKits.Adapters
import LanguageLlm.Desktop.DictionaryImport
import LanguageLlm.Desktop.Redaction
import LanguageLlm.Desktop.JobStates
import LanguageLlm.Desktop.JobRuns
import LanguageLlm.Desktop.CaptureLog
import LanguageLlm.Desktop.Service
import LanguageLlm.Desktop.Migrations
import LanguageLlm.Protocol.Compatibility
import LanguageLlm.Router.Weights
import LanguageLlm.Router.Confinement
import LanguageLlm.Router.VerifiedGate
import LanguageLlm.Learning.StudyStore
import LanguageLlm.Learning.StudySession
import LanguageLlm.Client.Worker
import LanguageLlm.Protocol.Timeline
import LanguageLlm.MtCore.Fidelity
import LanguageLlm.Lyrics.Resolve
import LanguageLlm.Content.VlmGate
import LanguageLlm.Content.Script
import LanguageLlm.Content.Handlers
import LanguageLlm.Content.Isolation
import LanguageLlm.Content.Alignment
import LanguageLlm.PageTranslate.Frame
import LanguageLlm.Captions.Parser
import LanguageLlm.Lyrics.Karaoke
import LanguageLlm.JsText
import LanguageLlm.JsNumber
import LanguageLlm.Protocol.Cues
import LanguageLlm.Subtitle.Export
import LanguageLlm.Lyrics.Parse
import LanguageLlm.Lyrics.LrcRoundTrip
import LanguageLlm.Lyrics.Imported
import LanguageLlm.JsValue
import LanguageLlm.Captions.Srv3Text
import LanguageLlm.Captions.VttRoundTrip
import LanguageLlm.Captions.WellFormed
import LanguageLlm.Protocol.CueMath
import LanguageLlm.MtCore.Faithful
import LanguageLlm.Content.FidelityGate
import LanguageLlm.Captions.PlayerResponse
import LanguageLlm.Learning.CardsCsv
import LanguageLlm.Learning.FsrsRuns
import LanguageLlm.PageTranslate.CanonicalUrl
import LanguageLlm.Lib.LastWrite
import LanguageLlm.Desktop.PageCache
import LanguageLlm.Desktop.LatestRows
import LanguageLlm.LanguageKits.Pinyin
import LanguageLlm.LanguageKits.Graphemes
import LanguageLlm.LanguageKits.CedictRoundTrip
import LanguageLlm.Content.OverlayTicks
import LanguageLlm.Content.UpdateGate
import LanguageLlm.Desktop.Selection
import LanguageLlm.Desktop.Specialists
import LanguageLlm.Lib.EditDistance
import LanguageLlm.Lib.Tables
import LanguageLlm.Benchmarks.Metrics
import LanguageLlm.Benchmarks.ChrF
import LanguageLlm.PageTranslate.Coalesce
import LanguageLlm.Lib.Base64
import LanguageLlm.Client.AudioFrames
import LanguageLlm.Desktop.AudioPath
import LanguageLlm.Client.CaptureFlow
import LanguageLlm.Desktop.NetworkConsent
import LanguageLlm.Lib.Markup
import LanguageLlm.LanguageKits.JmdictXml
import LanguageLlm.LanguageKits.JmdictText
import LanguageLlm.Protocol.CueLaws
import LanguageLlm.Captions.PageBridge
import LanguageLlm.Lib.Schema
import LanguageLlm.Protocol.Schemas
import LanguageLlm.Desktop.Conformance
import LanguageLlm.Lib.QueryWriters
import LanguageLlm.Lyrics.LrcLib
import LanguageLlm.Desktop.LyricsRequests
import LanguageLlm.Client.Messages
import LanguageLlm.Desktop.Handshakes
import LanguageLlm.Desktop.Pairing
import LanguageLlm.Desktop.Replies
import LanguageLlm.Router.Verify

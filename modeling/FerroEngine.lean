import FerroEngine.SourceText
import FerroEngine.StepIteration
import FerroEngine.RegionScanner
import FerroEngine.RegionScannerSteps
import FerroEngine.PostgresLexicalRules
import FerroEngine.RegionScannerAgreement
import FerroEngine.ScanComposition
import FerroEngine.PinClassifier
import FerroEngine.LeadingNoise
import FerroEngine.StatementReading
import FerroEngine.PinClassifierSoundness
import FerroEngine.CopyShape
import FerroEngine.ServerLexicalRules
import FerroEngine.TxControlGuard
import FerroEngine.TxControlGuardSoundness
import FerroEngine.FrameRouting
import FerroEngine.LabelledRuns
import FerroEngine.SessionLifecycle
import FerroEngine.SessionTerminals
import FerroEngine.IdReuse
import FerroEngine.EndDelivery
import FerroEngine.SessionTeardown
import FerroEngine.TeardownSoundness
import FerroEngine.MessagePack
import FerroEngine.SqlMessages
import FerroEngine.AutocommitExec
import FerroEngine.AutocommitFate
import FerroEngine.CopyRequests
import FerroEngine.InboundChannel
import FerroEngine.CopyIn
import FerroEngine.CopyInSoundness
import FerroEngine.CopyOut
import FerroEngine.CopyOutSoundness
import FerroEngine.CopyFate
import FerroEngine.TxActor
import FerroEngine.TxActorSoundness
import FerroEngine.TxFate
import FerroEngine.TxReplies
import FerroEngine.QueueIdentifiers
import FerroEngine.QueueShape
import FerroEngine.QueueRelation
import FerroEngine.HttpSyntax
import FerroEngine.HttpTarget
import FerroEngine.HttpPathReadings
import FerroEngine.HttpPathConfinement
import FerroEngine.HttpHeaders
import FerroEngine.HttpRequests
import FerroEngine.HttpHeaderPolicy
import FerroEngine.HttpAddress
import FerroEngine.HttpAddressGuard
import FerroEngine.HttpDial
import FerroEngine.QueueWaker
import FerroEngine.QueueWakerSlots
import FerroEngine.QueueDelivery
import FerroEngine.QueueHints
import FerroEngine.QueueFence
import FerroEngine.QueueFenceSteps
import FerroEngine.QueueSafety
import FerroEngine.HttpFate
import FerroEngine.HttpExchange
import FerroEngine.HttpFateSoundness
import FerroEngine.EndFrames
import FerroEngine.QueueReplies
import FerroEngine.EndFrameSizes
import FerroEngine.CodecReaders
import FerroEngine.CodecLaws
import FerroEngine.SqlCodec
import FerroEngine.QueueCodec
import FerroEngine.HttpCodec
import FerroEngine.CopyWindow
import FerroEngine.PoolCheckout
import FerroEngine.SessionCap
import FerroEngine.StreamCredit
import FerroEngine.PoolCapacity
import FerroEngine.PoolIsolation
import FerroEngine.CopyShapeSoundness
import FerroEngine.PlaceholderScanner
import FerroEngine.PlaceholderScannerAgreement
import FerroEngine.PlaceholderRewrite
import FerroEngine.FrameCodec
import FerroEngine.HttpBreaker
import FerroEngine.HttpBreakerRefinement
import FerroEngine.TxRegistryRuns
import FerroEngine.DecimalText
import FerroEngine.PurePacker
import FerroEngine.PurePackerArithmetic
import FerroEngine.PurePackerReading
import FerroEngine.PurePackerLaws
import FerroEngine.OutcomeEnvelope
import FerroEngine.OutcomeEnvelopeAgreement
import FerroEngine.CanonicalText
import FerroEngine.MyText
import FerroEngine.PgText
import FerroEngine.CanonicalForms
import FerroEngine.CanonicalTextLaws
import FerroEngine.CanonicalTextAgreement
import FerroEngine.PgDateTime
import FerroEngine.PgNumeric
import FerroEngine.PgVector
import FerroEngine.QueueReserveFrames
import FerroEngine.TxSavepoints
import FerroEngine.StreamBatching
import FerroEngine.StreamOversize
import FerroEngine.LeadingVerbs
import FerroEngine.HttpPool
import FerroEngine.HttpPoolSlots
import FerroEngine.HttpPoolWaiters
import FerroEngine.ClientRetry
import FerroEngine.ClientRetryFate
import FerroEngine.ClientWire
import FerroEngine.ClientWireSoundness
import FerroEngine.HttpPoolOrder
import FerroEngine.HttpBodyBudget
import FerroEngine.HttpBodyBudgetSoundness
import FerroEngine.GzipHeader
import FerroEngine.GzipHeaderChunks
import FerroEngine.HttpRateBucket
import FerroEngine.ContentDecoder
import FerroEngine.ContentDecoding
import FerroEngine.ContentDecodingRuns
import FerroEngine.ContentDecodingChunks
import FerroEngine.CopyDataRange
import FerroEngine.QueueHandles
import FerroEngine.ExecOkFixpoint
import FerroEngine.MyBind
import FerroEngine.SessionHandOff
import FerroEngine.SessionTracker
import FerroEngine.MyBindAgreement
import FerroEngine.BinaryFloat
import FerroEngine.PgBind
import FerroEngine.PgBindLockstep
import FerroEngine.PgBindSpecials
import FerroEngine.ClientTransaction
import FerroEngine.ClientTransactionSafety
import FerroEngine.ClientCopyIn
import FerroEngine.ClientCopyInSoundness
import FerroEngine.QueueClock
import FerroEngine.QueueClockSafety
import FerroEngine.AddressText
import FerroEngine.AddressTextLaws
import FerroEngine.HttpOrigin
import FerroEngine.HttpOriginCanonical
import FerroEngine.ClientIds
import FerroEngine.ClientIdsSafety
import FerroEngine.ScanSpans
import FerroEngine.LeadingNoiseScan
import FerroEngine.MemoQueue
import FerroEngine.PlaceholderMemo

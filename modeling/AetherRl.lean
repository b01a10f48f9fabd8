import AetherRl.Binary64
import AetherRl.RepoGroupSound
import AetherRl.RepoSound
import AetherRl.RepoAttempts
import AetherRl.RepoOutcomes
import AetherRl.RepoRelease
import AetherRl.RepoStaleness
import AetherRl.RepoRequests
import AetherRl.RepoReplay
import AetherRl.Numeral
import AetherRl.RepoPolicies
import AetherRl.RepoCreations
import AetherRl.FairShare
import AetherRl.RepoFairness
import AetherRl.RepoSlots
import AetherRl.RepoAccounts
import AetherRl.RepoRecovery
import AetherRl.RepoReopen
import AetherRl.Machine
import AetherRl.Broker
import AetherRl.BrokerReplies
import AetherRl.BrokerQueue
import AetherRl.EpisodeRunner
import AetherRl.EpisodeRunnerSound
import AetherRl.LeaseEndpoint
import AetherRl.Checked
import AetherRl.BatchSample
import AetherRl.BatchPartition
import AetherRl.BatchBins
import AetherRl.BatchAssembly
import AetherRl.BatchPacks
import AetherRl.BatchSegments
import AetherRl.BatchPrepare
import AetherRl.BatchConserve
import AetherRl.BatchStamp
import AetherRl.Tensor
import AetherRl.Collective
import AetherRl.Heads
import AetherRl.Ulysses
import AetherRl.FlashAttention
import AetherRl.UlyssesAttention
import AetherRl.UlyssesWindow
import AetherRl.Ring
import AetherRl.RingForward
import AetherRl.RingBackward
import AetherRl.RingSound
import AetherRl.Mamba
import AetherRl.MambaExchange
import AetherRl.MambaDocuments
import AetherRl.MambaStages
import AetherRl.MambaRank
import AetherRl.MambaScan
import AetherRl.MambaRecurrence
import AetherRl.MambaWhole
import AetherRl.MambaForward
import AetherRl.MambaPacked
import AetherRl.MambaSound
import AetherRl.Blocks
import AetherRl.LogSumExp
import AetherRl.LmHead
import AetherRl.LmHeadForward
import AetherRl.LmHeadBackward
import AetherRl.LmHeadGradient
import AetherRl.LmHeadSound
import AetherRl.AdapterCache
import AetherRl.AdapterCacheSound
import AetherRl.Loss
import AetherRl.LossStep
import AetherRl.LossTokens
import AetherRl.LossCounts
import AetherRl.LossPacking
import AetherRl.LossLogprobs
import AetherRl.AdapterCacheRuns
import AetherRl.PolicyRuntime
import AetherRl.PolicyRuntimeSound
import AetherRl.Http
import AetherRl.PolicyFile
import AetherRl.Download
import AetherRl.DownloadSound
import AetherRl.DownloadHonest
import AetherRl.RolloutFilters
import AetherRl.TxnErrors
import AetherRl.RepoErrors
import AetherRl.RepoTiming
import AetherRl.RepoHeartbeat
import AetherRl.RepoPreference
import AetherRl.RepoBackoff
import AetherRl.RepoSweep
import AetherRl.PolicyRuntimeShare
import AetherRl.BatchBounds
import AetherRl.BatchLora
import AetherRl.AdapterDisk
import AetherRl.RepoDemand
import AetherRl.BatchBalance
import AetherRl.AlgoGrpo
import AetherRl.Forest
import AetherRl.TraceSamples
import AetherRl.BatchCut
import AetherRl.BatchImages
import AetherRl.BatchNonempty
import AetherRl.AlgoEcho
import AetherRl.AlgoFinalize
import AetherRl.Mrope
import AetherRl.MropePacked
import AetherRl.Grouping
import AetherRl.QueueEmit
import AetherRl.QueueSelect
import AetherRl.QueueTurn
import AetherRl.RepoMembers
import AetherRl.QueueSound
import AetherRl.RepoCarried
import AetherRl.QueueRuns
import AetherRl.QueuePublish
import AetherRl.QueueConsistent
import AetherRl.QueueKeeps
import AetherRl.QueueGroup
import AetherRl.QueueBatch
import AetherRl.QueueRecovery
import AetherRl.QueueCrash
import AetherRl.QueueSurvives
import AetherRl.QueueOnce
import AetherRl.KeySort
import AetherRl.ProtocolCanonical
import AetherRl.ProtocolBytes
import AetherRl.ProtocolBytesSound
import AetherRl.ConversionOps
import AetherRl.ConversionLocal
import AetherRl.ConversionStack
import AetherRl.ConversionExperts
import AetherRl.ConversionSound
import AetherRl.ConversionSplit
import AetherRl.BatchLoraRank
import AetherRl.PolicyRange
import AetherRl.Rank
import AetherRl.RepoMigrations
import AetherRl.RepoMigrationsSound
import AetherRl.PolicyTensors
import AetherRl.PolicyManifests
import AetherRl.PolicyVerify
import AetherRl.PolicyPublish
import AetherRl.PolicyPublishSound
import AetherRl.PolicyRepublish
import AetherRl.HandoffDisk
import AetherRl.HandoffTrainer
import AetherRl.HandoffCoordinator
import AetherRl.HandoffRuns
import AetherRl.HandoffSound
import AetherRl.HandoffSteps
import AetherRl.HandoffPublishing
import AetherRl.HandoffMoves
import AetherRl.HandoffLineage
import AetherRl.HandoffRestart
import AetherRl.HandoffAlignment
import AetherRl.HandoffRecords
import AetherRl.PublicationRuns
import AetherRl.PublicationSound
import AetherRl.PublicationTurns

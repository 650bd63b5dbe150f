import CirisServer.ForStd.Run
import CirisServer.Native.Json
import CirisServer.Native.AccordHalt
import CirisServer.Native.Accord
import CirisServer.Spec.AccordStep
import CirisServer.Spec.HaltRuns
import CirisServer.ForStd.Interleave
import CirisServer.ForStd.Tracked
import CirisServer.Spec.ResumptionFinal
import CirisServer.Spec.ReleaseToken
import CirisServer.Native.AccordReactivate
import CirisServer.Spec.HaltDoors
import CirisServer.Spec.AccordRelay
import CirisServer.Native.AccordPending
import CirisServer.Spec.AccordVerify
import CirisServer.Spec.AccordPending
import CirisServer.Native.GraphConfig
import CirisServer.Native.ConfigReconcile
import CirisServer.Native.Retention
import CirisServer.Spec.ConfigReads
import CirisServer.Spec.ConfigReconcile
import CirisServer.Spec.RetentionVerdict
import CirisServer.Spec.GenesisQuorum
import CirisServer.ForStd.SeenQueue
import CirisServer.Native.MeshRelay
import CirisServer.Spec.MeshReplay
import CirisServer.Native.AddDevice
import CirisServer.Spec.AddDeviceInv
import CirisServer.ForStd.Ledger
import CirisServer.Spec.AddDeviceFinal
import CirisServer.Spec.AddDeviceAgree
import CirisServer.Spec.AddDeviceLeak
import CirisServer.Native.DeviceGrant
import CirisServer.Spec.DeviceGrantInv
import CirisServer.Spec.DeviceGrantFinal
import CirisServer.Spec.DeviceGrantDoor
import CirisServer.Spec.ConfigScan
import CirisServer.Spec.ConfigChain
import CirisServer.Spec.DelegationBounds
import CirisServer.ForStd.Split
import CirisServer.ForStd.Tally
import CirisServer.ForStd.Utf8
import CirisServer.ForStd.Walk
import CirisServer.Native.Session
import CirisServer.Spec.SessionToken
import CirisServer.Spec.Logout
import CirisServer.Native.AuthStore
import CirisServer.Native.OauthSignIn
import CirisServer.Spec.LoginResolution
import CirisServer.Spec.OauthBind
import CirisServer.Native.Streaming
import CirisServer.Spec.Streaming
import CirisServer.ForStd.BitStream
import CirisServer.ForStd.Crc
import CirisServer.Native.NodeCode
import CirisServer.Spec.Base32
import CirisServer.Spec.NodeCode
import CirisServer.Spec.NodeCodeErrors
import CirisServer.ForStd.Find
import CirisServer.Native.Multipart
import CirisServer.Spec.MultipartFile
import CirisServer.Spec.MultipartReach
import CirisServer.Spec.MultipartRoomless
import CirisServer.Spec.MultipartRun
import CirisServer.Spec.MultipartParts
import CirisServer.ForStd.Group
import CirisServer.Native.ComposePolicy
import CirisServer.Spec.Composition
import CirisServer.Spec.CompositionOrder
import CirisServer.Spec.CompositionTrust
import CirisServer.Spec.CompositionClock
import CirisServer.Spec.CompositionExtremum
import CirisServer.ForStd.OrderStat
import CirisServer.Spec.CompositionMedian
import CirisServer.Spec.CompositionCap
import CirisServer.Native.TraceCapture
import CirisServer.Spec.TraceCapture
import CirisServer.ForStd.Members
import CirisServer.Native.TraceSeal
import CirisServer.Spec.TraceSeal
import CirisServer.Native.Egress
import CirisServer.Spec.Egress
import CirisServer.Spec.EgressLevel
import CirisServer.ForStd.Pairs
import CirisServer.Native.Equivocation
import CirisServer.Spec.EquivocationIndex
import CirisServer.Spec.EquivocationEvidence
import CirisServer.Spec.EquivocationScan
import CirisServer.Spec.EquivocationStanding
import CirisServer.Native.SetupRoot
import CirisServer.Spec.SetupRoot
import CirisServer.Spec.SetupOwner
import CirisServer.ForStd.Lease
import CirisServer.Native.SessionClaims
import CirisServer.Spec.SessionClaims
import CirisServer.Spec.SessionHandler
import CirisServer.Spec.SessionHandover
import CirisServer.Native.Consent
import CirisServer.Spec.Consent
import CirisServer.Native.Handoff
import CirisServer.Spec.Handoff
import CirisServer.Spec.HandoffPoll
import CirisServer.ForStd.Newest
import CirisServer.Native.Infohazard
import CirisServer.Spec.Infohazard
import CirisServer.Native.SessionGrant
import CirisServer.Spec.SessionExpiry
import CirisServer.Spec.OauthSignIn
import CirisServer.ForStd.Paging
import CirisServer.Native.Drive
import CirisServer.Spec.DriveList
import CirisServer.Spec.DriveChange
import CirisServer.Spec.DriveDelete
import CirisServer.Native.TraceReceipt
import CirisServer.Spec.TraceAsk
import CirisServer.Native.DeliveryReceipt
import CirisServer.Spec.DeliveryReceipt
import CirisServer.Native.LoopCadence
import CirisServer.Native.EdgeMetrics
import CirisServer.Native.MediaGate
import CirisServer.Spec.LoopCadence
import CirisServer.Spec.EdgeMetrics
import CirisServer.Spec.MediaGate
import CirisServer.Native.BackgroundScheduler
import CirisServer.Spec.BackgroundScheduler
import CirisServer.Spec.AccordAnswer
import CirisServer.Spec.ConfigOrder
import CirisServer.Spec.SafetyFlag
import CirisServer.Native.Watchlist
import CirisServer.Spec.Watchlist
import CirisServer.Native.SafetyRoutes
import CirisServer.Spec.SafetyReplay
import CirisServer.Native.MembershipInvites
import CirisServer.Native.PairIntents
import CirisServer.Spec.PairIntents
import CirisServer.Spec.PairAcceptance
import CirisServer.Spec.DelegationAuthority
import CirisServer.Spec.DeviceGrantOutage
import CirisServer.Spec.DeviceGrantExpiry
import CirisServer.Spec.SessionsSurface
import CirisServer.Spec.ChunkReader
import CirisServer.Spec.MultipartFraming
import CirisServer.Spec.MultipartHead
import CirisServer.Spec.MultipartEnd
import CirisServer.Spec.MultipartForm
import CirisServer.Spec.RetentionLoop
import CirisServer.Spec.ConfigBounds
import CirisServer.ForStd.Trim
import CirisServer.Spec.FileName
import CirisServer.Spec.DriveRange
import CirisServer.ForStd.JsonString
import CirisServer.Native.IngestGuard
import CirisServer.Spec.IngestGuard
import CirisServer.Spec.LoginDoors
import CirisServer.Native.WithdrawsArbitrage
import CirisServer.Spec.WithdrawsArbitrage
import CirisServer.Native.AgeLevel
import CirisServer.Spec.AgeLevel
import CirisServer.Native.NamedModerator
import CirisServer.Spec.TrackRecord
import CirisServer.Spec.NamedModerator
import CirisServer.Spec.MembershipInvites
import CirisServer.Native.OwnerRequests
import CirisServer.Spec.OwnerRequests
import CirisServer.Spec.SchedulerShrink
import CirisServer.ForStd.Outputs
import CirisServer.Spec.CadenceSchedule
import CirisServer.ForStd.Tokens
import CirisServer.Native.LogDedup
import CirisServer.Spec.LogDedup
import CirisServer.Native.Radio
import CirisServer.Spec.Radio
import CirisServer.ForStd.TimedLog
import CirisServer.Native.IngestRefusals
import CirisServer.Spec.IngestRefusals
import CirisServer.Native.TracePlaneWatch
import CirisServer.Spec.TracePlaneWatch
import CirisServer.Native.NodeControl
import CirisServer.Spec.NodeControl
import CirisServer.Native.ServeMarker
import CirisServer.Spec.ServeMarker
import CirisServer.Native.RoomModeration
import CirisServer.Native.ContactsChat
import CirisServer.ForStd.Threads
import CirisServer.Spec.ContactsChat
import CirisServer.Spec.ChatTranscript
import CirisServer.Spec.RoomModeration
import CirisServer.Spec.RoomGroup

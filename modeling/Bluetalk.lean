import Bluetalk.Relay.OpenTimer
import Bluetalk.Relay.Offers
import Bluetalk.Relay.Frames
import Bluetalk.Relay.Answers
import Bluetalk.Relay.Notices
import Bluetalk.Relay.TokenLaw
import Bluetalk.Relay.StorageAccounting
import Bluetalk.Relay.SyncHints
import Bluetalk.Cloud.MailAcks
import Bluetalk.NetworkCore.SessionEvents
import Bluetalk.NetworkCore.SimultaneousConnect
import Bluetalk.CloudAccount.PullCompleteness
import Bluetalk.CloudAccount.ChatHistory
import Bluetalk.CloudAccount.RunCycle
import Bluetalk.CloudAccount.PushRaceInvariants
import Bluetalk.CloudAccount.PasswordChange
import Bluetalk.NetworkCore.OutboundQueue
import Bluetalk.PeerService.Events
import Bluetalk.WebBridge.PendingRequests
import Bluetalk.PeerProtocol.RecordSecurity
import Bluetalk.PeerProtocol.FrameReader
import Bluetalk.Calls.IvReuse
import Bluetalk.Calls.WholeFrames
import Bluetalk.Calls.CallEffects
import Bluetalk.Calls.AudioFrames
import Bluetalk.Calls.BusyDevices
import Bluetalk.Calls.OfferAnswers
import Bluetalk.Calls.Accepting
import Bluetalk.Calls.CallAgreement
import Bluetalk.Calls.OneDevice
import Bluetalk.NetworkCore.Discovery
import Bluetalk.PeerService.DisplayName
import Bluetalk.Storage.StoreEquivalence
import Bluetalk.Storage.ConcurrentWrites
import Bluetalk.Groups.Agreement
import Bluetalk.Chat.Exchange
import Bluetalk.Chat.KeyPinning
import Bluetalk.Chat.DeliveryStatus
import Bluetalk.Chat.GroupDelivery
import Bluetalk.Chat.Edits
import Bluetalk.Uno.CallLaw
import Bluetalk.CloudAccount.DiffApply
import Bluetalk.CloudAccount.Compaction
import Bluetalk.Chess.CastlingRights
import Bluetalk.Chess.FinishedGame
import Bluetalk.Poker.StuckHand
import Bluetalk.PluginManager.Atomicity
import Bluetalk.PluginManager.CrashRecovery
import Bluetalk.BoardGames.SoundTable
import Bluetalk.Relay.RateLimit
import Bluetalk.Calls.AudioPipeline
import Bluetalk.Realtime.Intention

import Wormhole.L3Protocol.Spake2
import Wormhole.L3Protocol.Tunnel
import Wormhole.L4App.ServedPaths
import Wormhole.L4App.AdvertisementInterop
import Wormhole.L4App.JsCanonical
import Wormhole.L4App.WormholeMessages
import Wormhole.L5Concurrency.BridgedStream
import Wormhole.L5Concurrency.DhtAnnounced
import Wormhole.L5Concurrency.DhtAnswers
import Wormhole.L5Concurrency.DilationNegotiation
import Wormhole.L5Concurrency.DilationSubchannels
import Wormhole.L5Concurrency.EarlyData
import Wormhole.L5Concurrency.FtpPairing
import Wormhole.L5Concurrency.KnownHosts
import Wormhole.L5Concurrency.MailboxAtomicity
import Wormhole.L5Concurrency.MailboxNameplates
import Wormhole.L5Concurrency.MailboxOrder
import Wormhole.L5Concurrency.MailboxReclaim
import Wormhole.L5Concurrency.MailboxReferences
import Wormhole.L5Concurrency.MailboxSubscriptions
import Wormhole.L5Concurrency.MountAnswers
import Wormhole.L5Concurrency.NetcatPipe
import Wormhole.L5Concurrency.Rendezvous
import Wormhole.L5Concurrency.RequestReplies
import Wormhole.L5Concurrency.RsyncRuns
import Wormhole.L5Concurrency.SharedPhases
import Wormhole.L5Concurrency.TransitMatched
import Wormhole.L5Concurrency.TransitHandouts
import Wormhole.L5Concurrency.TransitOwnership
import Wormhole.L5Concurrency.WnsServer
import Wormhole.L5Concurrency.WormholeState
import Wormhole.L5Concurrency.ConnectionAccounting
import Wormhole.L5Concurrency.ConnectionRate
import Wormhole.L5Concurrency.TransferQuota
import Wormhole.L1Encoding.LdapFilter
import Wormhole.L4App.Authenticators
import Wormhole.L5Concurrency.PubkeyChallenges
import Wormhole.L4App.ListenAuth
import Wormhole.L4App.RelayFallback
import Wormhole.L4App.ManifestPlan
import Wormhole.L1Encoding.BencodeTotal
import Wormhole.L1Encoding.BencodeRead
import Wormhole.L1Encoding.BencodeRoundTrip
import Wormhole.L4App.CompactNodes
import Wormhole.L5Concurrency.RoutingTables
import Wormhole.L3Protocol.TunnelSurvival
import Wormhole.L4App.FrameSplits
import Wormhole.L4App.TunnelSides
import Wormhole.L4App.ProxySides
import Wormhole.L5Concurrency.ChannelTeardown
import Wormhole.L5Concurrency.ChannelOpening
import Wormhole.L5Concurrency.CaddyListener
import Wormhole.L4App.HostDetection
import Wormhole.L5Concurrency.SshBridge
import Wormhole.L5Concurrency.PortForward
import Wormhole.L5Concurrency.SshForward
import Wormhole.L4App.HttpProxy
import Wormhole.L4App.HttpFileServer
import Wormhole.L5Concurrency.SocksHandshake
import Wormhole.L5Concurrency.DnsAnswers
import Wormhole.L4App.FtpDirectories
import Wormhole.L5Concurrency.RsyncHandshake
import Wormhole.L4App.BucketCalls
import Wormhole.L4App.Throttler
import Wormhole.L4App.Throttling
import Wormhole.L4App.ScopedAddresses
import Wormhole.L4App.UriAgreement
import Wormhole.L4App.CanonicalNames
import Wormhole.L4App.Aliases
import Wormhole.L4App.ScpOperands
import Wormhole.L4App.CodeRecognition
import Wormhole.L4App.VerifyLoaded
import Wormhole.L4App.PolicyLimits
import Wormhole.L4App.PolicyActions
import Wormhole.L4App.PolicyConditions
import Wormhole.L4App.NamespaceRestart
import Wormhole.L4App.NamespaceLimits
import Wormhole.L4App.RelayConfig
import Wormhole.L4App.RelayFiles
import Wormhole.L5Concurrency.LdapPool
import Wormhole.L5Concurrency.WormholeReuse
import Wormhole.L5Concurrency.RequestPromises
import Wormhole.L5Concurrency.SubchannelData
import Wormhole.L5Concurrency.SubchannelAccepts
import Wormhole.L5Concurrency.DilatedFetch
import Wormhole.L5Concurrency.HandlerDispatch
import Wormhole.L5Concurrency.DhtLookup
import Wormhole.L5Concurrency.DhtPublish
import Wormhole.L5Concurrency.DhtFound
import Wormhole.L5Concurrency.DaemonAccepts
import Wormhole.L5Concurrency.MountCalls
import Wormhole.L5Concurrency.MountStream
import Wormhole.L5Concurrency.ClientViews

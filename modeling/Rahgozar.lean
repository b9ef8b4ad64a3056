import Rahgozar.Lib.Run
import Rahgozar.Lib.RecordStream
import Rahgozar.Tunnel.Udpgw
import Rahgozar.Lib.Maps
import Rahgozar.Tunnel.Protocol
import Rahgozar.Tunnel.Replay
import Rahgozar.Tunnel.Dedup
import Rahgozar.Lib.Base64
import Rahgozar.Lib.InOrder
import Rahgozar.Tunnel.Uplink
import Rahgozar.Tunnel.Loop
import Rahgozar.Tunnel.Connection
import Rahgozar.Tunnel.System
import Rahgozar.Drive.Crypto
import Rahgozar.Drive.Cursor
import Rahgozar.Drive.Nonces
import Rahgozar.Tunnel.DownlinkOrder
import Rahgozar.Tunnel.UplinkCaps
import Rahgozar.Fronter.Transport
import Rahgozar.Fronter.Relay
import Rahgozar.Fronter.AtMostOnce
import Rahgozar.Fronter.Compression
import Rahgozar.Fronter.Cache
import Rahgozar.Fronter.Coalesce
import Rahgozar.Fronter.Isolation
import Rahgozar.Fronter.Scripts
import Rahgozar.Fronter.Cooldown
import Rahgozar.Fronter.Pool
import Rahgozar.Fronter.HostSwap
import Rahgozar.Proxy.UdpRelay
import Rahgozar.Proxy.UdpSessions
import Rahgozar.Proxy.UdpTeardown
import Rahgozar.Proxy.Routing
import Rahgozar.Proxy.Policy
import Rahgozar.Proxy.Lifecycle
import Rahgozar.Proxy.LiveState
import Rahgozar.Proxy.ModeSwitch
import Rahgozar.Desktop.RunState
import Rahgozar.Drive.Endings
import Rahgozar.Drive.OrphanGc
import Rahgozar.Drive.Destination
import Rahgozar.AppsScript.Request
import Rahgozar.AppsScript.RelayBatch
import Rahgozar.AppsScript.WorkerBatch
import Rahgozar.AppsScript.EdgeDns
import Rahgozar.AppsScript.TunnelBatch
import Rahgozar.AppsScript.DnsAnswers
import Rahgozar.AppsScript.SheetCache
import Rahgozar.AppsScript.SheetAnswers
import Rahgozar.Proxy.DirectMode
import Rahgozar.Lib.Segments
import Rahgozar.Proxy.HttpRequest
import Rahgozar.Proxy.KeepAlive
import Rahgozar.Tunnel.ReplayAge
import Rahgozar.Tunnel.ReadBuffer
import Rahgozar.Tunnel.Batch
import Rahgozar.Tunnel.BatchAnswers
import Rahgozar.Tunnel.BatchBudget
import Rahgozar.Lib.Trim
import Rahgozar.Config.RefreshToken
import Rahgozar.Config.Profiles
import Rahgozar.Desktop.SelfUpdate
import Rahgozar.Android.VpnLifecycle
import Rahgozar.Lib.Refusal
import Rahgozar.Lib.Distinct
import Rahgozar.Lib.Assoc
import Rahgozar.Settings.Config
import Rahgozar.Settings.Validate
import Rahgozar.Settings.Accepted
import Rahgozar.Settings.Android
import Rahgozar.Settings.EntryPoints
import Rahgozar.Settings.Readers
import Rahgozar.Settings.Save
import Rahgozar.Settings.Saved
import Rahgozar.Settings.WhiteSpace
import Rahgozar.Settings.RoundTrip
import Rahgozar.Tunnel.TcpPool
import Rahgozar.Tunnel.Reassembly
import Rahgozar.Tunnel.Elevated
import Rahgozar.Lib.Packing
import Rahgozar.Tunnel.MuxBatches
import Rahgozar.Tunnel.UdpgwBuffer
import Rahgozar.Tunnel.UdpgwReplies
import Rahgozar.Lib.Cursor
import Rahgozar.Drive.Codec
import Rahgozar.Lib.BitBuffer
import Rahgozar.Lib.Decimal
import Rahgozar.Drive.Names
import Rahgozar.Drive.LooseNames
import Rahgozar.Tunnel.LegacyMode
import Rahgozar.Lib.Window
import Rahgozar.Fronter.Selection
import Rahgozar.Fronter.Strikes
import Rahgozar.Fronter.Redirects
import Rahgozar.Lib.Varint
import Rahgozar.Lib.Records
import Rahgozar.Fronter.Sabr
import Rahgozar.Lib.ByteIndex
import Rahgozar.Fronter.HttpText
import Rahgozar.Fronter.HttpResponse
import Rahgozar.Fronter.ResponseExact
import Rahgozar.Fronter.Envelope
import Rahgozar.Fronter.TunnelBody
import Rahgozar.Fronter.Panics
import Rahgozar.Fronter.RawResponse
import Rahgozar.Fronter.Delivery
import Rahgozar.Lib.Tiling
import Rahgozar.Fronter.Ranges
import Rahgozar.Fronter.RangeHeads
import Rahgozar.Fronter.RangeRelay
import Rahgozar.Fronter.RangeExact
import Rahgozar.Fronter.RangeRuns
import Rahgozar.Fronter.RangeVersions
import Rahgozar.Lib.Offsets
import Rahgozar.Proxy.UdpPacket
import Rahgozar.Drive.FileSweep
import Rahgozar.Fronter.CacheRuns
import Rahgozar.Lib.Calendar
import Rahgozar.Fronter.PacificDay
import Rahgozar.Proxy.AbsoluteTarget
import Rahgozar.Proxy.ClientHello
import Rahgozar.AppsScript.DnsWire
import Rahgozar.Proxy.BodyMemory
import Rahgozar.Proxy.PathRouting
import Rahgozar.AppsScript.SheetRuns
import Rahgozar.Scan.Cidr
import Rahgozar.Lib.FirstDifference
import Rahgozar.Update.Versions
import Rahgozar.Update.SemVer
import Rahgozar.Lib.SortedMap
import Rahgozar.Fronter.RequestHeaders
import Rahgozar.Lib.Chunks
import Rahgozar.Proxy.ChunkedDecoders
import Rahgozar.Proxy.ChunkedAgreement
import Rahgozar.Lib.FirstItem
import Rahgozar.Proxy.HelloWalks
import Rahgozar.Proxy.HelloExact
import Rahgozar.Proxy.Breaker
import Rahgozar.Update.Download
import Rahgozar.Proxy.Splices
import Rahgozar.Settings.Share
import Rahgozar.Settings.Shared
import Rahgozar.Settings.SharedRows
import Rahgozar.Lib.Bits
import Rahgozar.Lib.Pratt
import Rahgozar.Lib.Montgomery
import Rahgozar.Lib.Twists
import Rahgozar.Lib.Curve25519
import Rahgozar.Lib.Bech32
import Rahgozar.Lib.Traverse
import Rahgozar.Drive.RelayPubkey
import Rahgozar.Drive.RelayPubkeyAndroid
import Rahgozar.Drive.RelayPubkeyAgreement
import Rahgozar.Drive.TokenCache
import Rahgozar.Drive.TokenCacheRuns
import Rahgozar.Drive.ConnectAddr
import Rahgozar.Fronter.JsEscapes
import Rahgozar.Desktop.SignIn
import Rahgozar.Desktop.SignInFlow
import Rahgozar.Lib.FairSemaphore
import Rahgozar.Tunnel.FireBatch
import Rahgozar.Tunnel.BatchSlots
import Rahgozar.Tunnel.LongPoll
import Rahgozar.Tunnel.Wakeups
import Rahgozar.Config.UserJs

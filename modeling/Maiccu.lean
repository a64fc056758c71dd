import Maiccu.Aiccu.TicSessions
import Maiccu.Aiccu.Ayiya
import Maiccu.Aiccu.Heartbeat
import Maiccu.Aiccu.Resolver
import Maiccu.Aiccu.TunnelMap
import Maiccu.Teredo.StopDiscoveryRuns
import Maiccu.Teredo.Ping
import Maiccu.Teredo.Replies
import Maiccu.Teredo.DiscoveryRefs
import Maiccu.Gogoc.RetryDelay
import Maiccu.Gogoc.BrokerWalk
import Maiccu.Gogoc.EchoRequest
import Maiccu.Gogoc.Versions
import Maiccu.Gogoc.Capability
import Maiccu.Gogoc.Darwin
import Maiccu.Gogoc.NameValue
import Maiccu.Gogoc.LogFile
import Maiccu.Gogoc.EchoInit
import Maiccu.Gogoc.EchoEvents
import Maiccu.Gogoc.EchoTimeout
import Maiccu.Gogoc.XmlAttributes
import Maiccu.Gogoc.ReplyEffects
import Maiccu.Gogoc.RequestFrame
import Maiccu.App.Notifications
import Maiccu.Teredo.PeerQueue
import Maiccu.Teredo.PeerCounters
import Maiccu.Teredo.RelayFieldErasure
import Maiccu.Teredo.Bubble
import Maiccu.Teredo.PrefixTest
import Maiccu.Teredo.ServerSends
import Maiccu.Teredo.ServerUsers
import Maiccu.Teredo.Checksum
import Maiccu.Teredo.HmacKey
import Maiccu.Miredo.ConfFile
import Maiccu.Teredo.Unreach
import Maiccu.Gogoc.DigestSend
import Maiccu.Tuntap.Gate
import Maiccu.Tuntap.Write
import Maiccu.Gogoc.Servent

import Gust.Accepted
import Gust.App
import Gust.Argv
import Gust.Authority
import Gust.Backoff
import Gust.Chain
import Gust.Cli
import Gust.Config
import Gust.Credentials
import Gust.Dialing
import Gust.Forward.Conn
import Gust.Forward.Delivery
import Gust.Forward.Expiry
import Gust.Forward.Gauge
import Gust.Forward.Tcp
import Gust.Forward.Turns
import Gust.Forward.Udp
import Gust.Forward.Window
import Gust.Lib.Buffer
import Gust.Lib.Effect
import Gust.Lib.IpAddr
import Gust.Lib.IpText
import Gust.Lib.Json
import Gust.Lib.Machine
import Gust.Lib.Percent
import Gust.Lib.Relaxed
import Gust.Lib.RoundRobin
import Gust.Lib.Safe
import Gust.Lib.SessionTable
import Gust.Lib.Stream
import Gust.Lib.Syscall
import Gust.Lib.Text
import Gust.Lib.Utf8
import Gust.Lib.Watch
import Gust.Main
import Gust.Nat.Decode
import Gust.Nat.Equivalence
import Gust.Nat.Forwarding
import Gust.Nat.Grammar
import Gust.Nat.Lifetimes
import Gust.Nat.Linux
import Gust.Nat.Nftables
import Gust.Nat.Process
import Gust.Nat.Rules
import Gust.Nat.Status
import Gust.Netopt
import Gust.Node
import Gust.NodeText
import Gust.Proxy
import Gust.Recovery
import Gust.Registry
import Gust.Relay
import Gust.Runtime
import Gust.Safety
import Gust.Socket
import Gust.Socks5
import Gust.Stats
import Gust.Stopping
import Gust.Supervisor
import Gust.Userspace
import Gust.Wire

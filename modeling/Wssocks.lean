import Wssocks.Lib.Lts
import Wssocks.Lib.Registry
import Wssocks.Lib.RoundRobin
import Wssocks.Pipe.Basic
import Wssocks.Pipe.Link
import Wssocks.Pipe.CopyBuffer
import Wssocks.Pipe.Stream
import Wssocks.Pipe.LinkLemmas
import Wssocks.Wss.Server
import Wssocks.Wss.System
import Wssocks.Wss.Ops
import Wssocks.Pipe.Lanes
import Wssocks.Pipe.Merge
import Wssocks.Pipe.QueueLemmas
import Wssocks.Pipe.Split
import Wssocks.Pipe.Transit
import Wssocks.Wss.Session
import Wssocks.Wss.SessionInv
import Wssocks.Wss.SessionSteps
import Wssocks.Wss.ClientInv
import Wssocks.Wss.ClientSteps
import Wssocks.Wss.Transfer
import Wssocks.Wss.Finish
import Wssocks.Wss.Handshake
import Wssocks.Pipe.Life
import Wssocks.Wss.Pace
import Wssocks.Wss.Closing
import Wssocks.Wss.CloseRequest
import Wssocks.Wss.Writers
import Wssocks.Wss.ClientOps
import Wssocks.Wss.Release
import Wssocks.Wss.ClientEnd
import Wssocks.Wss.Senders
import Wssocks.Pipe.Account
import Wssocks.Lib.Numeral
import Wssocks.Net.IP
import Wssocks.Net.HostPort
import Wssocks.Wss.Socks5
import Wssocks.Wss.Privite
import Wssocks.Lib.Mirror
import Wssocks.Pipe.Isolation
import Wssocks.Pipe.Shared
import Wssocks.Lib.CountMap
import Wssocks.Wss.ConnRecord
import Wssocks.Wss.Multiplex
import Wssocks.Wss.BufferedWR
import Wssocks.Lib.Ledger
import Wssocks.Pipe.CloseOnce
import Wssocks.Wss.MultiplexSteps
import Wssocks.Wss.Progress
import Wssocks.Lib.Potential
import Wssocks.Cli.Shutdown
import Wssocks.Wss.FramedSession
import Wssocks.Wss.Fleet
import Wssocks.Wss.SharedHubs
import Wssocks.Wss.LocalVisit
import Wssocks.Wss.Route
import Wssocks.Wss.TermView

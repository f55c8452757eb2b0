import Lars.Agent.LoadBalance
import Lars.Agent.Pull
import Lars.Agent.RouteLb
import Lars.Agent.Shards
import Lars.Agent.UdpServers
import Lars.Api.LateAnswers
import Lars.Dns.Announce
import Lars.Dns.Freshness
import Lars.Dns.GetRoute
import Lars.Dns.Lookup
import Lars.Dns.Published
import Lars.Dns.PushTargets
import Lars.Dns.RouteReaders
import Lars.Dns.Settled
import Lars.Dns.Texts
import Lars.Foundations.Channel
import Lars.Foundations.RoundRobin
import Lars.Foundations.Sections
import Lars.Foundations.Stretches
import Lars.Reactor.AcceptCallback
import Lars.Reactor.Attached
import Lars.Reactor.ClosedConn
import Lars.Reactor.ConfigGrammar
import Lars.Reactor.ConfigWrite
import Lars.Reactor.EventSync
import Lars.Reactor.FailedSend
import Lars.Reactor.HostilePeer
import Lars.Reactor.LoopPass
import Lars.Reactor.LoopThreads
import Lars.Reactor.Overruns
import Lars.Reactor.PoolClasses
import Lars.Reactor.PoolMemory
import Lars.Reactor.Reconnect
import Lars.Reactor.Replies
import Lars.Reactor.SendLimits
import Lars.Reactor.StringList
import Lars.Reactor.TaskQueue
import Lars.Reactor.TcpConnWrite
import Lars.Reactor.Udp
import Lars.Reporter.Reports
import Lars.Reporter.SharedPool
import Lars.Reporter.Statements
import Lars.Reporter.StoreReport

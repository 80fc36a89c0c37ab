import LearnMuduo.Net.BufferQueue
import LearnMuduo.Net.SendStream
import LearnMuduo.Net.ReadPath
import LearnMuduo.Net.CloseOnce
import LearnMuduo.Http.HttpRequest
import LearnMuduo.Http.HeaderEnd
import LearnMuduo.Http.Leftover
import LearnMuduo.Net.HalfClose
import LearnMuduo.Net.EventLoop
import LearnMuduo.Net.Epoller
import LearnMuduo.Net.EventLoopThread
import LearnMuduo.Timer.ExactRuns
import LearnMuduo.Timer.Armed
import LearnMuduo.Timer.NeverEarly
import LearnMuduo.Log.Shutdown
import LearnMuduo.Log.FullBuffers
import LearnMuduo.Server.Teardown
import LearnMuduo.Http.RequestLine
import LearnMuduo.Http.Framing
import LearnMuduo.Http.CloseDecision
import LearnMuduo.Proxy.Forward
import LearnMuduo.Proxy.Split
import LearnMuduo.Proxy.Clients
import LearnMuduo.Proxy.ReadItem
import LearnMuduo.Log.LogTime
import LearnMuduo.Log.Operands
import LearnMuduo.Log.BufferPtrs
import LearnMuduo.Net.EmptyInterest
import LearnMuduo.Net.SendOverloads
import LearnMuduo.Http.RequestParts
import LearnMuduo.Http.ParseProgress
import LearnMuduo.Server.IdleClock
import LearnMuduo.Log.Logger
import LearnMuduo.Log.LogFile
import LearnMuduo.Proxy.CacheSize
import LearnMuduo.Http.LineState
import LearnMuduo.Examples.Codec
import LearnMuduo.Net.StartLoop
import LearnMuduo.Server.Release
import LearnMuduo.Server.IdleBound
import LearnMuduo.Http.Session
import LearnMuduo.Http.WebServer
import LearnMuduo.Net.TcpServer
import LearnMuduo.Server.Table
import LearnMuduo.Log.LogOutput
import LearnMuduo.Net.Poll
import LearnMuduo.Net.BufferMemory
import LearnMuduo.Proxy.Main
import LearnMuduo.Http.HeaderState
import LearnMuduo.Proxy.Tunnels

import CellNet.Machine
import CellNet.Cxx
import CellNet.Framing
import CellNet.Sweep
import CellNet.Fifo
import CellNet.Pipeline
import CellNet.Calls
import CellNet.Fallible
import CellNet.RawMemory
import CellNet.FreeList
import CellNet.MessageHeader
import CellNet.Buffer
import CellNet.Client
import CellNet.BufferBounds
import CellNet.Compaction
import CellNet.Receive
import CellNet.Send
import CellNet.Log
import CellNet.Stream
import CellNet.Codec
import CellNet.LenientRead
import CellNet.StreamWrites
import CellNet.Strings
import CellNet.HostileRead
import CellNet.NetEvent
import CellNet.Logout
import CellNet.Handling
import CellNet.TcpClient
import CellNet.EndToEnd
import CellNet.RateLimit
import CellNet.Heap
import CellNet.SortedMap
import CellNet.Poll
import CellNet.OnRun
import CellNet.WorkThread
import CellNet.Server
import CellNet.Ownership
import CellNet.Visits
import CellNet.Round
import CellNet.Sections
import CellNet.Worker
import CellNet.SelectCache
import CellNet.SelectEpoll
import CellNet.Windows
import CellNet.Bitmaps
import CellNet.Delivery
import CellNet.Heartbeat
import CellNet.SignsOfLife
import CellNet.Draining
import CellNet.Clock
import CellNet.Charge
import CellNet.TcpServer
import CellNet.Admission
import CellNet.Balance
import CellNet.EventOrder
import CellNet.Progress
import CellNet.Waiting
import CellNet.ShutDown
import CellNet.ServerClose
import CellNet.Thread
import CellNet.Semaphore
import CellNet.Close
import CellNet.TaskServer
import CellNet.LogLines
import CellNet.LogFile
import CellNet.LogReopen
import CellNet.StartUp
import CellNet.Reentry
import CellNet.Restart
import CellNet.MemoryMgr
import CellNet.MemoryInit
import CellNet.MemoryPool
import CellNet.MemoryCalls
import CellNet.MemorySafety
import CellNet.RefCount
import CellNet.ObjectPool
import CellNet.PoolSize
import CellNet.Config
import CellNet.Iocp
import CellNet.IocpEcho
import CellNet.IocpSockets

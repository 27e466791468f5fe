import StateThreads.Heap.History
import StateThreads.Contract.Mutex
import StateThreads.Contract.Signals
import StateThreads.Contract.Interrupt
import StateThreads.Contract.Join
import StateThreads.Contract.Interest
import StateThreads.Contract.Agreement
import StateThreads.Contract.Startup
import StateThreads.Contract.Systems
import StateThreads.Contract.Clock
import StateThreads.Contract.Recovery
import StateThreads.Contract.Results
import StateThreads.Contract.Dns
import StateThreads.Contract.Fileio
import StateThreads.Contract.Timedout
import StateThreads.Contract.Waits
import StateThreads.Contract.Writev
import StateThreads.Contract.Carve
import StateThreads.Contract.Netfd
import StateThreads.Contract.Growth
import StateThreads.Contract.Search
import StateThreads.Contract.Answer
import StateThreads.Contract.Resolve
import StateThreads.Contract.Specific
import StateThreads.Contract.Kqueue
import StateThreads.Contract.Context
import StateThreads.Contract.Accept
import StateThreads.Contract.Timecache
import StateThreads.Contract.Server
import StateThreads.Contract.Watchdog
import StateThreads.Contract.Proxy
import StateThreads.Contract.Traverse
import StateThreads.Contract.Fair

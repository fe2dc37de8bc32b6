import Rpmem.Completion.Drain
import Rpmem.Completion.Notify
import Rpmem.Completion.Serve
import Rpmem.Lib.Allocator
import Rpmem.Lib.FirstFit
import Rpmem.Lib.Ledger
import Rpmem.Lib.LinkedList
import Rpmem.Lib.Lts
import Rpmem.Lifecycle.Accept
import Rpmem.Lifecycle.Balance
import Rpmem.Lifecycle.Clients
import Rpmem.Lifecycle.Events
import Rpmem.Lifecycle.FileList
import Rpmem.Lifecycle.Listener
import Rpmem.Lifecycle.Model
import Rpmem.Lifecycle.Startup
import Rpmem.Network.Agreement
import Rpmem.Network.Capacity
import Rpmem.Network.Credits
import Rpmem.Network.Durability
import Rpmem.Network.Lengths
import Rpmem.Network.Progress
import Rpmem.Network.Queues
import Rpmem.Programs.Calls
import Rpmem.Programs.Ends
import Rpmem.Programs.Memory
import Rpmem.Programs.Model
import Rpmem.Programs.Queues
import Rpmem.Server.Answers
import Rpmem.Server.Discipline
import Rpmem.Server.Faults
import Rpmem.Server.FirstFit
import Rpmem.Server.Mappings
import Rpmem.Server.Pipeline
import Rpmem.Server.Pool
import Rpmem.Server.Release
import Rpmem.Server.ResList

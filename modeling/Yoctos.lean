import Yoctos.Common.Output
import Yoctos.Common.Scratch
import Yoctos.Boot.ModuleByName
import Yoctos.Memory.SegmentDescriptor
import Yoctos.Memory.Paging
import Yoctos.Tasks.AddressSpace
import Yoctos.Tasks.Reference
import Yoctos.Tasks.Conservation
import Yoctos.Tasks.Arguments
import Yoctos.Tasks.RoundTrip
import Yoctos.Tasks.Exhaustion
import Yoctos.Tasks.Context
import Yoctos.Tasks.Template
import Yoctos.Syscall.Isolation
import Yoctos.Syscall.Faults
import Yoctos.Syscall.Ports
import Yoctos.Syscall.Transport
import Yoctos.Interrupt.Exception
import Yoctos.Interrupt.Frame
import Yoctos.Interrupt.GateLayout
import Yoctos.Interrupt.Service
import Yoctos.User.Queries
import Yoctos.User.Shell
import Yoctos.User.LineEditing
import Yoctos.User.SpecialKeys
import Yoctos.User.Sleep
import Yoctos.Foundation.Nesting
import Yoctos.Foundation.Ledger

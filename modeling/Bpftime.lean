import Bpftime.AttachCtx.Once
import Bpftime.BpfMap.BloomFilter.Membership
import Bpftime.BpfMap.GpuArray.Slots
import Bpftime.BpfMap.GpuRingbuf.Delivery
import Bpftime.BpfMap.HashMap.FiniteMap
import Bpftime.BpfMap.HashMap.Fix.Iterate
import Bpftime.BpfMap.HashMap.Word
import Bpftime.BpfMap.Layout
import Bpftime.BpfMap.LpmTrie.LongestMatch
import Bpftime.BpfMap.LpmTrie.NextKey
import Bpftime.BpfMap.LpmTrie.Shape
import Bpftime.BpfMap.LruVarHashMap.Refinement
import Bpftime.BpfMap.PerCpuHashMap.Limits
import Bpftime.BpfMap.Ringbuf.Space
import Bpftime.BpfMap.Stack.Refinement
import Bpftime.BpfMap.StackTraceMap.Fill
import Bpftime.BpfMap.VarHashMap.Run
import Bpftime.Cuda.Turns
import Bpftime.Daemon.Ownership
import Bpftime.Epoll.SigMask
import Bpftime.Frida.Exclusive
import Bpftime.Helper.Xdp
import Bpftime.PerfEvent.Buffer
import Bpftime.PerfEvent.Output
import Bpftime.PerfEvent.Records
import Bpftime.Pgas.Attach.Replaced
import Bpftime.Pgas.Ownership
import Bpftime.Pgas.Preload.Fallback
import Bpftime.Pgas.Preload.RegionRouting
import Bpftime.Pgas.Stalker.Arm64.Store
import Bpftime.Pgas.Stalker.Reach
import Bpftime.Pgas.Stalker.Store
import Bpftime.Pgas.Translate
import Bpftime.Ptx.KprobeEntry
import Bpftime.Ptx.Memcapture.Capture
import Bpftime.Ptx.RegisterGuard.Layout
import Bpftime.Ptx.RegisterGuard.Lines
import Bpftime.Ptx.Retprobe
import Bpftime.Shm.Bounds
import Bpftime.Shm.Containers.Dup
import Bpftime.Shm.Containers.Lifetime
import Bpftime.Shm.Json.RoundTrip
import Bpftime.Shm.LinkCreate
import Bpftime.Shm.Refused
import Bpftime.Shm.Requested
import Bpftime.Slug.Split
import Bpftime.SyscallServer.Transparency
import Bpftime.SyscallTrace.Accesses
import Bpftime.Vm.Ubpf.LoadCode

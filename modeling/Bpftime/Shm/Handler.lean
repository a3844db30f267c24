import Bpftime.Basic

namespace Bpftime.Shm

abbrev CString := List UInt8

abbrev EbpfInst := Vector UInt8 8

structure BpfMapAttr where
  type : Int32 := 0
  keySize : UInt32 := 0
  valueSize : UInt32 := 0
  maxEnts : UInt32 := 0
  flags : UInt64 := 0
  ifindex : UInt32 := 0
  btfVmlinuxValueTypeId : UInt32 := 0
  btfId : UInt32 := 0
  btfKeyTypeId : UInt32 := 0
  btfValueTypeId : UInt32 := 0
  mapExtra : UInt64 := 0
  kernelBpfMapId : UInt32 := 0
  gpuThreadCount : UInt32 := 1000
  deriving DecidableEq, Repr

structure BpfMapHandler where
  name : CString
  attr : BpfMapAttr
  deriving DecidableEq, Repr

structure BpfLinkCreateArgs where
  progFd : UInt32
  targetFd : UInt32
  deriving DecidableEq, Repr

structure BpfLinkHandler where
  progId : Int32
  attachTargetId : Int32
  attachCookie : Option UInt64
  deriving DecidableEq, Repr

def BpfLinkHandler.ofArgs (args : BpfLinkCreateArgs) : BpfLinkHandler where
  progId := args.progFd.toInt32
  attachTargetId := args.targetFd.toInt32
  attachCookie := none

structure BpfProgHandler where
  type : Int32
  insns : List EbpfInst
  name : CString
  deriving DecidableEq, Repr

def PERF_TYPE_SOFTWARE : Int32 := 1

def PERF_TYPE_TRACEPOINT : Int32 := 2

def BPF_TYPE_UPROBE : Int32 := 6

def BPF_TYPE_URETPROBE : Int32 := 7

def BPF_TYPE_KPROBE : Int32 := 8

def BPF_TYPE_KRETPROBE : Int32 := 9

def BPF_TYPE_UPROBE_OVERRIDE : Int32 := 1008

def BPF_TYPE_UREPLACE : Int32 := 1009

inductive PerfEventData where
  | uprobe (offset : UInt64) (pid : Int32) (refCtrOff : UInt64) (moduleName : CString)
  | tracepoint (pid : Int32) (tracepointId : Int32)
  | software (cpu : Int32) (config : Int64) (sampleType : Int32)
  | custom (attachArgument : CString)
  | kprobe (funcName : CString) (addr : UInt64) (refCtrOff : UInt64)
  deriving DecidableEq, Repr

structure BpfPerfEventHandler where
  type : Int32
  enabled : Bool := false
  data : PerfEventData
  deriving DecidableEq, Repr

namespace BpfPerfEventHandler

def replace (type : Int32) (offset : UInt64) (pid : Int32) (moduleName : CString)
    (defaultEnabled : Bool) : BpfPerfEventHandler where
  type := type
  enabled := defaultEnabled
  data := .uprobe offset pid 0 moduleName

def uprobe (isRetprobe : Bool) (offset : UInt64) (pid : Int32) (moduleName : CString)
    (refCtrOff : UInt64) : BpfPerfEventHandler where
  type := if isRetprobe then BPF_TYPE_URETPROBE else BPF_TYPE_UPROBE
  data := .uprobe offset pid refCtrOff moduleName

def kprobe (isRetprobe : Bool) (addr : UInt64) (funcName : CString) (refCtrOff : UInt64)
    : BpfPerfEventHandler where
  type := if isRetprobe then BPF_TYPE_KRETPROBE else BPF_TYPE_KPROBE
  data := .kprobe funcName addr refCtrOff

def tracepoint (pid : Int32) (tracepointId : Int32) : BpfPerfEventHandler where
  type := PERF_TYPE_TRACEPOINT
  data := .tracepoint pid tracepointId

def software (cpu : Int32) (sampleType : Int32) (config : Int64) : BpfPerfEventHandler where
  type := PERF_TYPE_SOFTWARE
  data := .software cpu config sampleType

def custom (type : Int32) (attachArg : CString) : BpfPerfEventHandler where
  type := type
  data := .custom attachArg

end BpfPerfEventHandler

structure MemfdHandler where
  flags : Int32
  name : CString
  deriving DecidableEq, Repr

inductive Handler where
  | unused
  | map (h : BpfMapHandler)
  | link (h : BpfLinkHandler)
  | prog (h : BpfProgHandler)
  | perfEvent (h : BpfPerfEventHandler)
  | epoll
  | memfd (h : MemfdHandler)
  deriving DecidableEq, Repr

inductive Kind where
  | unused
  | map
  | link
  | prog
  | perfEvent
  | epoll
  | memfd
  deriving DecidableEq, Repr

def Handler.kind : Handler → Kind
  | .unused => .unused
  | .map _ => .map
  | .link _ => .link
  | .prog _ => .prog
  | .perfEvent _ => .perfEvent
  | .epoll => .epoll
  | .memfd _ => .memfd

end Bpftime.Shm

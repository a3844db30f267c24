import Bpftime.Shm.Manager

namespace Bpftime.Shm

namespace BpftimeShm

def isProgFd (s : BpftimeShm) (fd : Int32) : Bool := s.holds .prog fd

def isPerfFd (s : BpftimeShm) (fd : Int32) : Bool := s.holds .perfEvent fd

def isMapFd (s : BpftimeShm) (fd : Int32) : Bool := s.holds .map fd

def orFake (fd fake : Int32) : Int32 := if fd < 0 then fake else fd

def addKprobe (env : Env) (s : BpftimeShm) (fake : Int32) (fd : Option Int32) (funcName : CString)
    (addr : UInt64) (retprobe : Bool) (refCtrOff : UInt64) : Option (Outcome × BpftimeShm) :=
  s.setHandler env (fd.getD fake) (.perfEvent (.kprobe retprobe addr funcName refCtrOff))

def addUprobe (env : Env) (s : BpftimeShm) (fake fd pid : Int32) (name : CString) (offset : UInt64)
    (retprobe : Bool) (refCtrOff : UInt64) : Option (Outcome × BpftimeShm) :=
  s.setHandler env (orFake fd fake) (.perfEvent (.uprobe retprobe offset pid name refCtrOff))

def addUprobeOverride (env : Env) (s : BpftimeShm) (fake fd pid : Int32) (name : CString)
    (offset : UInt64) (isReplace : Bool) : Option (Outcome × BpftimeShm) :=
  if isReplace then
    s.setHandler env (orFake fd fake)
      (.perfEvent (.replace BPF_TYPE_UREPLACE offset pid name true))
  else
    s.setHandler env (orFake fd fake)
      (.perfEvent (.replace BPF_TYPE_UPROBE_OVERRIDE offset pid name true))

def addTracepoint (env : Env) (s : BpftimeShm) (fake fd pid tracepointId : Int32)
    : Option (Outcome × BpftimeShm) :=
  s.setHandler env (orFake fd fake) (.perfEvent (.tracepoint pid tracepointId))

def addSoftwarePerfEvent (env : Env) (s : BpftimeShm) (fd cpu sampleType : Int32) (config : Int64)
    : Option (Outcome × BpftimeShm) :=
  s.setHandler env fd (.perfEvent (.software cpu sampleType config))

def addCustomPerfEvent (env : Env) (s : BpftimeShm) (fake type : Int32) (attachArgument : CString)
    : Option (Outcome × BpftimeShm) :=
  if fake < 0 then
    some (.ret fake none, s)
  else
    -- the result of `set_handler` is not looked at
    match s.setHandler env fake (.perfEvent (.custom type attachArgument)) with
    | none => none
    | some (_, s) => some (.ret fake none, s)

def addBpfProgAttachTarget (env : Env) (s : BpftimeShm) (fake perfFd bpfFd : Int32)
    (cookie : Option UInt64) : Option (Outcome × BpftimeShm) :=
  if s.isProgFd bpfFd then
    if fake < 0 then
      some (.ret (-ENOSPC) none, s)
    else
      match s.setHandler env fake (.link ⟨bpfFd, perfFd, cookie⟩) with
      | none => none
      | some (_, s) => some (.ret fake none, s)
  else
    some (.ret (-1) (some .ENOENT), s)

def attachPerfToBpf (env : Env) (s : BpftimeShm) (fake perfFd bpfFd : Int32)
    (cookie : Option UInt64) : Option (Outcome × BpftimeShm) :=
  if s.isPerfFd perfFd then
    s.addBpfProgAttachTarget env fake perfFd bpfFd cookie
  else
    some (.ret (-1) (some .ENOENT), s)

def setEnabled (s : BpftimeShm) (fd : Int32) (enabled : Bool) : BpftimeShm :=
  match s.slot? fd with
  | some (.perfEvent h) => s.setSlot fd (.perfEvent { h with enabled := enabled })
  | _ => s

def perfEventEnable (s : BpftimeShm) (fd : Int32) : Outcome × BpftimeShm :=
  if s.isPerfFd fd then (.ret 0 none, s.setEnabled fd true) else (.ret (-1) (some .ENOENT), s)

def perfEventDisable (s : BpftimeShm) (fd : Int32) : Outcome × BpftimeShm :=
  if s.isPerfFd fd then (.ret 0 none, s.setEnabled fd false) else (.ret (-1) (some .ENOENT), s)

def epollCreate (env : Env) (s : BpftimeShm) (fake : Int32) : Option (Outcome × BpftimeShm) :=
  if s.isAllocated fake then
    some (.ret (-1) none, s)
  else
    s.setHandler env fake .epoll

def addMemfdHandler (env : Env) (s : BpftimeShm) (fake : Int32) (name : CString) (flags : Int32)
    : Option (Outcome × BpftimeShm) :=
  s.setHandler env fake (.memfd ⟨flags, name⟩)

def addBpfProg (env : Env) (s : BpftimeShm) (fake fd : Int32) (insn : List EbpfInst)
    (progName : CString) (unset : Int32) : Option (Outcome × BpftimeShm) :=
  s.setHandler env (orFake fd fake) (.prog ⟨unset, insn, progName⟩)

def addBpfLink (env : Env) (s : BpftimeShm) (fake fd : Int32) (args : BpfLinkCreateArgs)
    : Option (Outcome × BpftimeShm) :=
  if s.isProgFd args.progFd.toInt32 then
    s.setHandler env (orFake fd fake) (.link (.ofArgs args))
  else
    some (.ret (-1) (some .EBADF), s)

def closeFd (env : Env) (s : BpftimeShm) (fd : Int32) : Option BpftimeShm := s.clearIdAt env fd

def replaceByMap (env : Env) (s : BpftimeShm) (fd : Int32) (h : BpfMapHandler)
    : Option (Outcome × BpftimeShm) :=
  match s.slot? fd with
  | none => none
  | some .unused => s.setHandler env fd (.map h)
  | some _ => (s.clearIdAt env fd).bind fun s => s.setHandler env fd (.map h)

def addBpfMap (env : Env) (s : BpftimeShm) (fake fd : Int32) (name : CString) (attr : BpfMapAttr)
    : Option (Outcome × BpftimeShm) :=
  s.replaceByMap env (orFake fd fake) ⟨name, attr⟩

def dupBpfMap (env : Env) (s : BpftimeShm) (fake oldfd newfd : Int32)
    : Option (Outcome × BpftimeShm) :=
  match s.slot? oldfd with
  | some (.map h) =>
    if orFake newfd fake = oldfd then
      none
    else
      s.replaceByMap env (orFake newfd fake) ⟨"dup_".toUTF8.toList ++ h.name, h.attr⟩
  | _ => some (.ret (-1) (some .EBADF), s)

end BpftimeShm

inductive Op where
  | addKprobe (fake : Int32) (fd : Option Int32) (funcName : CString) (addr : UInt64)
      (retprobe : Bool) (refCtrOff : UInt64)
  | addUprobe (fake fd pid : Int32) (name : CString) (offset : UInt64) (retprobe : Bool)
      (refCtrOff : UInt64)
  | addUprobeOverride (fake fd pid : Int32) (name : CString) (offset : UInt64) (isReplace : Bool)
  | addTracepoint (fake fd pid tracepointId : Int32)
  | addSoftwarePerfEvent (fd cpu sampleType : Int32) (config : Int64)
  | addCustomPerfEvent (fake type : Int32) (attachArgument : CString)
  | attachPerfToBpf (fake perfFd bpfFd : Int32) (cookie : Option UInt64)
  | perfEventEnable (fd : Int32)
  | perfEventDisable (fd : Int32)
  | epollCreate (fake : Int32)
  | addMemfdHandler (fake : Int32) (name : CString) (flags : Int32)
  | addBpfProg (fake fd : Int32) (insn : List EbpfInst) (progName : CString) (unset : Int32)
  | addBpfLink (fake fd : Int32) (args : BpfLinkCreateArgs)
  | closeFd (fd : Int32)
  | addBpfMap (fake fd : Int32) (name : CString) (attr : BpfMapAttr)
  | dupBpfMap (fake oldfd newfd : Int32)

namespace BpftimeShm

def call (env : Env) (s : BpftimeShm) : Op → Option (Outcome × BpftimeShm)
  | .addKprobe fake fd funcName addr retprobe refCtrOff =>
    s.addKprobe env fake fd funcName addr retprobe refCtrOff
  | .addUprobe fake fd pid name offset retprobe refCtrOff =>
    s.addUprobe env fake fd pid name offset retprobe refCtrOff
  | .addUprobeOverride fake fd pid name offset isReplace =>
    s.addUprobeOverride env fake fd pid name offset isReplace
  | .addTracepoint fake fd pid tracepointId => s.addTracepoint env fake fd pid tracepointId
  | .addSoftwarePerfEvent fd cpu sampleType config =>
    s.addSoftwarePerfEvent env fd cpu sampleType config
  | .addCustomPerfEvent fake type attachArgument =>
    s.addCustomPerfEvent env fake type attachArgument
  | .attachPerfToBpf fake perfFd bpfFd cookie => s.attachPerfToBpf env fake perfFd bpfFd cookie
  | .perfEventEnable fd => some (s.perfEventEnable fd)
  | .perfEventDisable fd => some (s.perfEventDisable fd)
  | .epollCreate fake => s.epollCreate env fake
  | .addMemfdHandler fake name flags => s.addMemfdHandler env fake name flags
  | .addBpfProg fake fd insn progName unset => s.addBpfProg env fake fd insn progName unset
  | .addBpfLink fake fd args => s.addBpfLink env fake fd args
  | .closeFd fd => (s.closeFd env fd).map fun s => (.ret 0 none, s)
  | .addBpfMap fake fd name attr => s.addBpfMap env fake fd name attr
  | .dupBpfMap fake oldfd newfd => s.dupBpfMap env fake oldfd newfd

def step (env : Env) (s : BpftimeShm) (op : Op) : Option BpftimeShm := (s.call env op).map Prod.snd

end BpftimeShm

end Bpftime.Shm

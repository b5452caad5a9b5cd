/-
Purpose: The landlock and seccomp packages, `nura-manager seccomp-exec`, the tool sandbox, and the kernel as a
  thread that confines itself sees it.
Trusted boundary: `Kernel` (what paths lead to, the Landlock version, which calls are refused for reasons the
  model does not look into) and `Host` (TOML decoding, the order in which a map is walked, error texts).
  Capability names are taken to be ASCII when they are lowered. A filter that kills the process is not
  modelled: the thread runs on x86-64, where the filters of this repository do not.
-/
import NuraOS.Foundation.ClassicBpf
import NuraOS.Foundation.Path

namespace NuraOS.Sandbox

open Foundation Path

/-- What a filter is run on, `struct seccomp_data`: the number of the call, the architecture, and in words
the instruction pointer and the arguments. -/
structure SeccompData where
  nr : UInt32
  arch : UInt32
  rest : Fin 14 → UInt32

def SeccompData.word (data : SeccompData) (offset : UInt32) : Option UInt32 :=
  if offset = 0 then some data.nr
  else if offset = 4 then some data.arch
  else if inside : 8 ≤ offset.toNat ∧ offset.toNat < 64 ∧ offset.toNat % 4 = 0 then
    some (data.rest ⟨offset.toNat / 4 - 2, by omega⟩)
  else none

def runFilter (filter : List ClassicBpf.Instruction) (data : SeccompData) : ClassicBpf.Outcome :=
  ClassicBpf.exec filter data.word { pc := 0, accumulator := 0 }

/-- `AUDIT_ARCH_X86_64`. -/
def auditArchAMD64 : UInt32 := 0xc000003e

def retAllow : UInt32 := 0x7fff0000
def retLog : UInt32 := 0x7ffc0000
def retErrno : UInt32 := 0x00050000
def retKillProcess : UInt32 := 0x80000000

/-- Whether a filter stops a call, and with which error: a call is made if the action is to allow it, or
to log it. -/
def stopped (filter : List ClassicBpf.Instruction) (data : SeccompData) : Option Nat :=
  match runFilter filter data with
  | .returned action =>
    if action &&& 0xffff0000 = retAllow ∨ action &&& 0xffff0000 = retLog then none
    else some (action &&& 0xffff).toNat
  | _ => some 1

inductive Right where
  | execute | writeFile | readFile | readDir | removeDir | removeFile | makeChar | makeDir | makeReg
  | makeSock | makeFifo | makeBlock | makeSym
deriving DecidableEq

/-- The bits, `1 << 0` to `1 << 12`. -/
def Right.bit : Right → UInt64
  | .execute => 0x0001
  | .writeFile => 0x0002
  | .readFile => 0x0004
  | .readDir => 0x0008
  | .removeDir => 0x0010
  | .removeFile => 0x0020
  | .makeChar => 0x0040
  | .makeDir => 0x0080
  | .makeReg => 0x0100
  | .makeSock => 0x0200
  | .makeFifo => 0x0400
  | .makeBlock => 0x0800
  | .makeSym => 0x1000

def Right.In (right : Right) (rights : UInt64) : Prop := rights &&& right.bit ≠ 0

instance (right : Right) (rights : UInt64) : Decidable (right.In rights) :=
  inferInstanceAs (Decidable (_ ≠ _))

/-- A ruleset: the rights it takes away, and the rights it gives back beneath some places. -/
structure Ruleset where
  handled : UInt64
  rules : List (Location × UInt64)
deriving DecidableEq

def Ruleset.Allows (ruleset : Ruleset) (right : Right) (place : Location) : Prop :=
  right.In ruleset.handled → ∃ rule ∈ ruleset.rules, rule.1 <+: place ∧ right.In rule.2

/-! ### System calls -/

inductive SystemCall where
  | setNoNewPrivs
  | setSeccomp (filter : List ClassicBpf.Instruction)
  | dropBounding (capability : Nat)
  | landlockVersion
  | createRuleset (handled : UInt64)
  | addRule (ruleset : Nat) (rights : UInt64) (parent : Nat)
  | restrictSelf (ruleset : Nat)
  | openPath (path : String)
  | openFile (path : String)
  | read (descriptor : Nat)
  | close (descriptor : Nat)

/-- The numbers on x86-64: `prctl`, the three of Landlock, `openat`, `read` and `close`. -/
def SystemCall.number : SystemCall → UInt32
  | .setNoNewPrivs => 157
  | .setSeccomp _ => 157
  | .dropBounding _ => 157
  | .landlockVersion => 444
  | .createRuleset _ => 444
  | .addRule _ _ _ => 445
  | .restrictSelf _ => 446
  | .openPath _ => 257
  | .openFile _ => 257
  | .read _ => 0
  | .close _ => 3

inductive Object where
  | ruleset (rules : Ruleset)
  | place (location : Location)
  | file (path : String)

/-- A thread: its descriptors, the filters and rulesets in force, and the numbers of the calls it has made. -/
structure Thread where
  noNewPrivs : Bool
  dropped : List Nat
  filters : List (List ClassicBpf.Instruction)
  domain : List Ruleset
  descriptors : List (Nat × Object)
  nextDescriptor : Nat
  made : List UInt32

namespace Thread

/-- A thread that nothing confines, with the three standard descriptors taken. -/
def fresh : Thread :=
  { noNewPrivs := false
    dropped := []
    filters := []
    domain := []
    descriptors := []
    nextDescriptor := 3
    made := [] }

def object (thread : Thread) (descriptor : Nat) : Option Object :=
  thread.descriptors.lookup descriptor

def install (thread : Thread) (object : Object) : Except Nat Nat × Thread :=
  (.ok thread.nextDescriptor,
    { thread with
      descriptors := (thread.nextDescriptor, object) :: thread.descriptors
      nextDescriptor := thread.nextDescriptor + 1 })

end Thread

def EPERM : Nat := 1
def ENOENT : Nat := 2
def EBADF : Nat := 9
def ENOSYS : Nat := 38

/-- What the trampolines find: the place each path leads to, the contents of files that can be opened, the
version of Landlock (none if it is not supported), the errors the kernel returns of its own to the `n`-th
call with a number, and the words a filter sees besides the number of a call. -/
structure Kernel where
  resolve : String → Option Location
  abi : Nat
  refuse : UInt32 → Nat → Option Nat
  arguments : SystemCall → Fin 14 → UInt32

namespace Kernel

variable (kernel : Kernel)

def perform (thread : Thread) : SystemCall → Except Nat Nat × Thread
  | .setNoNewPrivs => (.ok 0, { thread with noNewPrivs := true })
  | .setSeccomp filter => (.ok 0, { thread with filters := filter :: thread.filters })
  | .dropBounding capability => (.ok 0, { thread with dropped := capability :: thread.dropped })
  | .landlockVersion => if kernel.abi = 0 then (.error ENOSYS, thread) else (.ok kernel.abi, thread)
  | .createRuleset handled => thread.install (.ruleset { handled := handled, rules := [] })
  | .addRule descriptor rights parent =>
    match thread.object descriptor, thread.object parent with
    | some (.ruleset ruleset), some (.place location) =>
      let grown := { ruleset with rules := ruleset.rules ++ [(location, rights)] }
      (.ok 0, { thread with descriptors := (descriptor, .ruleset grown) :: thread.descriptors })
    | _, _ => (.error EBADF, thread)
  | .restrictSelf descriptor =>
    match thread.object descriptor with
    | some (.ruleset ruleset) => (.ok 0, { thread with domain := ruleset :: thread.domain })
    | _ => (.error EBADF, thread)
  | .openPath path =>
    match kernel.resolve path with
    | some location => thread.install (.place location)
    | none => (.error ENOENT, thread)
  | .openFile path =>
    match kernel.resolve path with
    | some _ => thread.install (.file path)
    | none => (.error ENOENT, thread)
  | .read _ => (.ok 0, thread)
  | .close descriptor =>
    (.ok 0, { thread with
      descriptors := thread.descriptors.filter fun entry => entry.1 ≠ descriptor })

def seccompData (call : SystemCall) : SeccompData :=
  { nr := call.number, arch := auditArchAMD64, rest := kernel.arguments call }

def syscall (call : SystemCall) (thread : Thread) : Except Nat Nat × Thread :=
  let counted := { thread with made := call.number :: thread.made }
  match thread.filters.findSome? fun filter => stopped filter (kernel.seccompData call) with
  | some errno => (.error errno, counted)
  | none =>
    match kernel.refuse call.number (thread.made.count call.number) with
    | some errno => (.error errno, counted)
    | none => kernel.perform counted call

end Kernel

end NuraOS.Sandbox

/-! ### The landlock package -/

namespace NuraOS.Sandbox.Landlock

def accessExecute : String := "execute"
def accessWriteFile : String := "write_file"
def accessReadFile : String := "read_file"
def accessReadDir : String := "read_dir"
def accessRemoveDir : String := "remove_dir"
def accessRemoveFile : String := "remove_file"
def accessMakeChar : String := "make_char"
def accessMakeDir : String := "make_dir"
def accessMakeReg : String := "make_reg"
def accessMakeSock : String := "make_sock"
def accessMakeFifo : String := "make_fifo"
def accessMakeBlock : String := "make_block"
def accessMakeSym : String := "make_sym"

structure PathRule where
  path : String
  access : List String

structure Profile where
  paths : List PathRule

def accessNames : List (String × Right) :=
  [(accessExecute, .execute), (accessWriteFile, .writeFile), (accessReadFile, .readFile),
    (accessReadDir, .readDir), (accessRemoveDir, .removeDir), (accessRemoveFile, .removeFile),
    (accessMakeChar, .makeChar), (accessMakeDir, .makeDir), (accessMakeReg, .makeReg),
    (accessMakeSock, .makeSock), (accessMakeFifo, .makeFifo), (accessMakeBlock, .makeBlock),
    (accessMakeSym, .makeSym)]

def allFSAccessV1 : UInt64 :=
  Right.bit .execute ||| Right.bit .writeFile ||| Right.bit .readFile ||| Right.bit .readDir |||
    Right.bit .removeDir ||| Right.bit .removeFile ||| Right.bit .makeChar ||| Right.bit .makeDir |||
    Right.bit .makeReg ||| Right.bit .makeSock ||| Right.bit .makeFifo ||| Right.bit .makeBlock |||
    Right.bit .makeSym

inductive ApplyError where
  | unsupported
  | createRuleset (errno : Nat)
  | unknownAccess (name path : String)
  | restrictSelf (errno : Nat)

def ApplyError.text (strerror : Nat → String) : ApplyError → String
  | .unsupported => "landlock: kernel does not support Landlock (ABI < 1); skipping"
  | .createRuleset errno => "landlock_create_ruleset: " ++ strerror errno
  | .unknownAccess name path =>
    "landlock: unknown access right " ++ name.quote ++ " for path " ++ path
  | .restrictSelf errno => "landlock_restrict_self: " ++ strerror errno

inductive RuleError where
  | openPath (path : String) (errno : Nat)
  | addRule (path : String) (errno : Nat)

def rightsOf (rights : UInt64) : List String → Except String UInt64
  | [] => .ok rights
  | name :: names =>
    match accessNames.lookup name with
    | none => .error name
    | some right => rightsOf (rights ||| right.bit) names

variable (kernel : Kernel)

def probeABI (thread : Thread) : Int × Thread :=
  match kernel.syscall .landlockVersion thread with
  | (.error _, thread) => (-1, thread)
  | (.ok version, thread) => (version, thread)

def addPathRule (rulesetFd : Nat) (path : String) (rights : UInt64) (thread : Thread) :
    Except RuleError Unit × Thread :=
  match kernel.syscall (.openPath path) thread with
  | (.error errno, thread) => (.error (.openPath path errno), thread)
  | (.ok fd, thread) =>
    match kernel.syscall (.addRule rulesetFd rights fd) thread with
    | (.error errno, thread) => (.error (.addRule path errno), (kernel.syscall (.close fd) thread).2)
    | (.ok _, thread) => (.ok (), (kernel.syscall (.close fd) thread).2)

def addRules (rulesetFd : Nat) : List PathRule → Thread → Except ApplyError Unit × Thread
  | [], thread => (.ok (), thread)
  | rule :: rules, thread =>
    match rightsOf 0 rule.access with
    | .error name => (.error (.unknownAccess name rule.path), thread)
    | .ok rights =>
      if rights = 0 then addRules rulesetFd rules thread
      else addRules rulesetFd rules (addPathRule kernel rulesetFd rule.path rights thread).2

def restrict (rulesetFd : Nat) (rules : List PathRule) (thread : Thread) :
    Except ApplyError Unit × Thread :=
  match addRules kernel rulesetFd rules thread with
  | (.error e, thread) => (.error e, thread)
  | (.ok _, thread) =>
    match kernel.syscall (.restrictSelf rulesetFd) thread with
    | (.error errno, thread) => (.error (.restrictSelf errno), thread)
    | (.ok _, thread) => (.ok (), thread)

/-- `Apply`. A profile without paths restricts nothing. -/
def apply (p : Option Profile) (thread : Thread) : Except ApplyError Unit × Thread :=
  match p with
  | none => (.ok (), thread)
  | some p =>
    if p.paths.length = 0 then (.ok (), thread)
    else
      match probeABI kernel thread with
      | (version, thread) =>
        if version < 1 then (.error .unsupported, thread)
        else
          match kernel.syscall (.createRuleset allFSAccessV1) thread with
          | (.error errno, thread) => (.error (.createRuleset errno), thread)
          | (.ok rfd, thread) =>
            match restrict kernel rfd p.paths thread with
            -- The descriptor is closed on every path out of the function.
            | (result, thread) => (result, (kernel.syscall (.close rfd) thread).2)

end NuraOS.Sandbox.Landlock

namespace NuraOS.Sandbox

open Foundation

def offsetNr : UInt32 := 0
def offsetArch : UInt32 := 4

def bpfLd : UInt16 := 0x00
def bpfW : UInt16 := 0x00
def bpfAbs : UInt16 := 0x20
def bpfJmp : UInt16 := 0x05
def bpfJeq : UInt16 := 0x10
def bpfK : UInt16 := 0x00
def bpfRet : UInt16 := 0x06

def retDeny : UInt32 := retErrno ||| 1

def bpfStmt (code : UInt16) (k : UInt32) : ClassicBpf.Instruction :=
  { code := code, jt := 0, jf := 0, k := k }

def bpfJump (code : UInt16) (k : UInt32) (jt jf : UInt8) : ClassicBpf.Instruction :=
  { code := code, jt := jt, jf := jf, k := k }

/-- The allowlist program: the architecture is checked first, then each listed number jumps to the last
instruction. -/
def buildFilter (nrs : List UInt32) (defaultAction : UInt32) : List ClassicBpf.Instruction :=
  [bpfStmt (bpfLd ||| bpfW ||| bpfAbs) offsetArch,
    bpfJump (bpfJmp ||| bpfJeq ||| bpfK) auditArchAMD64 1 0,
    bpfStmt (bpfRet ||| bpfK) retKillProcess,
    bpfStmt (bpfLd ||| bpfW ||| bpfAbs) offsetNr] ++
  -- The offset to the ALLOW instruction is converted to eight bits.
  nrs.mapIdx (fun i nr => bpfJump (bpfJmp ||| bpfJeq ||| bpfK) nr (UInt8.ofNat (nrs.length - i)) 0) ++
  [bpfStmt (bpfRet ||| bpfK) defaultAction,
    bpfStmt (bpfRet ||| bpfK) retAllow]

/-! ### Profiles -/

/-- What happens to a call that is not listed; a text, of which only `log` has a meaning of its own. -/
abbrev Mode := String

def modeEnforce : Mode := "enforce"
def modeLog : Mode := "log"

namespace Seccomp

structure Profile where
  mode : Mode
  syscalls : List String

end Seccomp

def syscallNumbers : List (String × UInt32) :=
  [("read", 0), ("write", 1), ("open", 2), ("close", 3), ("stat", 4), ("fstat", 5), ("lstat", 6),
    ("poll", 7), ("lseek", 8), ("mmap", 9), ("mprotect", 10), ("munmap", 11), ("brk", 12),
    ("rt_sigaction", 13), ("rt_sigprocmask", 14), ("rt_sigreturn", 15), ("ioctl", 16), ("pread64", 17),
    ("pwrite64", 18), ("readv", 19), ("writev", 20), ("access", 21), ("pipe", 22), ("select", 23),
    ("sched_yield", 24), ("mremap", 25), ("msync", 26), ("mincore", 27), ("madvise", 28), ("shmget", 29),
    ("shmat", 30), ("shmctl", 31), ("dup", 32), ("dup2", 33), ("pause", 34), ("nanosleep", 35),
    ("getitimer", 36), ("alarm", 37), ("setitimer", 38), ("getpid", 39), ("sendfile", 40), ("socket", 41),
    ("connect", 42), ("accept", 43), ("sendto", 44), ("recvfrom", 45), ("sendmsg", 46), ("recvmsg", 47),
    ("shutdown", 48), ("bind", 49), ("listen", 50), ("getsockname", 51), ("getpeername", 52),
    ("socketpair", 53), ("setsockopt", 54), ("getsockopt", 55), ("clone", 56), ("fork", 57), ("vfork", 58),
    ("execve", 59), ("exit", 60), ("wait4", 61), ("kill", 62), ("uname", 63), ("semget", 64),
    ("semop", 65), ("semctl", 66), ("shmdt", 67), ("msgget", 68), ("msgsnd", 69), ("msgrcv", 70),
    ("msgctl", 71), ("fcntl", 72), ("flock", 73), ("fsync", 74), ("fdatasync", 75), ("truncate", 76),
    ("ftruncate", 77), ("getdents", 78), ("getcwd", 79), ("chdir", 80), ("fchdir", 81), ("rename", 82),
    ("mkdir", 83), ("rmdir", 84), ("creat", 85), ("link", 86), ("unlink", 87), ("symlink", 88),
    ("readlink", 89), ("chmod", 90), ("fchmod", 91), ("chown", 92), ("fchown", 93), ("lchown", 94),
    ("umask", 95), ("gettimeofday", 96), ("getrlimit", 97), ("getrusage", 98), ("sysinfo", 99),
    ("times", 100), ("ptrace", 101), ("getuid", 102), ("syslog", 103), ("getgid", 104), ("setuid", 105),
    ("setgid", 106), ("geteuid", 107), ("getegid", 108), ("setpgid", 109), ("getppid", 110),
    ("getpgrp", 111), ("setsid", 112), ("setreuid", 113), ("setregid", 114), ("getgroups", 115),
    ("setgroups", 116), ("setresuid", 117), ("getresuid", 118), ("setresgid", 119), ("getresgid", 120),
    ("getpgid", 121), ("setfsuid", 122), ("setfsgid", 123), ("getsid", 124), ("capget", 125),
    ("capset", 126), ("rt_sigpending", 127), ("rt_sigtimedwait", 128), ("rt_sigqueueinfo", 129),
    ("rt_sigsuspend", 130), ("sigaltstack", 131), ("utime", 132), ("mknod", 133), ("uselib", 134),
    ("personality", 135), ("ustat", 136), ("statfs", 137), ("fstatfs", 138), ("sysfs", 139),
    ("getpriority", 140), ("setpriority", 141), ("sched_setparam", 142), ("sched_getparam", 143),
    ("sched_setscheduler", 144), ("sched_getscheduler", 145), ("sched_get_priority_max", 146),
    ("sched_get_priority_min", 147), ("sched_rr_get_interval", 148), ("mlock", 149), ("munlock", 150),
    ("mlockall", 151), ("munlockall", 152), ("vhangup", 153), ("modify_ldt", 154), ("pivot_root", 155),
    ("_sysctl", 156), ("prctl", 157), ("arch_prctl", 158), ("adjtimex", 159), ("setrlimit", 160),
    ("chroot", 161), ("sync", 162), ("acct", 163), ("settimeofday", 164), ("mount", 165), ("umount2", 166),
    ("swapon", 167), ("swapoff", 168), ("reboot", 169), ("sethostname", 170), ("setdomainname", 171),
    ("iopl", 172), ("ioperm", 173), ("create_module", 174), ("init_module", 175), ("delete_module", 176),
    ("get_kernel_syms", 177), ("query_module", 178), ("quotactl", 179), ("nfsservctl", 180),
    ("getpmsg", 181), ("putpmsg", 182), ("afs_syscall", 183), ("tuxcall", 184), ("security", 185),
    ("gettid", 186), ("readahead", 187), ("setxattr", 188), ("lsetxattr", 189), ("fsetxattr", 190),
    ("getxattr", 191), ("lgetxattr", 192), ("fgetxattr", 193), ("listxattr", 194), ("llistxattr", 195),
    ("flistxattr", 196), ("removexattr", 197), ("lremovexattr", 198), ("fremovexattr", 199),
    ("tkill", 200), ("time", 201), ("futex", 202), ("sched_setaffinity", 203), ("sched_getaffinity", 204),
    ("set_thread_area", 205), ("io_setup", 206), ("io_destroy", 207), ("io_getevents", 208),
    ("io_submit", 209), ("io_cancel", 210), ("get_thread_area", 211), ("lookup_dcookie", 212),
    ("epoll_create", 213), ("epoll_ctl_old", 214), ("epoll_wait_old", 215), ("remap_file_pages", 216),
    ("getdents64", 217), ("set_tid_address", 218), ("restart_syscall", 219), ("semtimedop", 220),
    ("fadvise64", 221), ("timer_create", 222), ("timer_settime", 223), ("timer_gettime", 224),
    ("timer_getoverrun", 225), ("timer_delete", 226), ("clock_settime", 227), ("clock_gettime", 228),
    ("clock_getres", 229), ("clock_nanosleep", 230), ("exit_group", 231), ("epoll_wait", 232),
    ("epoll_ctl", 233), ("tgkill", 234), ("utimes", 235), ("vserver", 236), ("mbind", 237),
    ("set_mempolicy", 238), ("get_mempolicy", 239), ("mq_open", 240), ("mq_unlink", 241),
    ("mq_timedsend", 242), ("mq_timedreceive", 243), ("mq_notify", 244), ("mq_getsetattr", 245),
    ("kexec_load", 246), ("waitid", 247), ("add_key", 248), ("request_key", 249), ("keyctl", 250),
    ("ioprio_set", 251), ("ioprio_get", 252), ("inotify_init", 253), ("inotify_add_watch", 254),
    ("inotify_rm_watch", 255), ("migrate_pages", 256), ("openat", 257), ("mkdirat", 258), ("mknodat", 259),
    ("fchownat", 260), ("futimesat", 261), ("newfstatat", 262), ("unlinkat", 263), ("renameat", 264),
    ("linkat", 265), ("symlinkat", 266), ("readlinkat", 267), ("fchmodat", 268), ("faccessat", 269),
    ("pselect6", 270), ("ppoll", 271), ("unshare", 272), ("set_robust_list", 273),
    ("get_robust_list", 274), ("splice", 275), ("tee", 276), ("sync_file_range", 277), ("vmsplice", 278),
    ("move_pages", 279), ("utimensat", 280), ("epoll_pwait", 281), ("signalfd", 282),
    ("timerfd_create", 283), ("eventfd", 284), ("fallocate", 285), ("timerfd_settime", 286),
    ("timerfd_gettime", 287), ("accept4", 288), ("signalfd4", 289), ("eventfd2", 290),
    ("epoll_create1", 291), ("dup3", 292), ("pipe2", 293), ("inotify_init1", 294), ("preadv", 295),
    ("pwritev", 296), ("rt_tgsigqueueinfo", 297), ("perf_event_open", 298), ("recvmmsg", 299),
    ("fanotify_init", 300), ("fanotify_mark", 301), ("prlimit64", 302), ("name_to_handle_at", 303),
    ("open_by_handle_at", 304), ("clock_adjtime", 305), ("syncfs", 306), ("sendmmsg", 307), ("setns", 308),
    ("getcpu", 309), ("process_vm_readv", 310), ("process_vm_writev", 311), ("kcmp", 312),
    ("finit_module", 313), ("sched_setattr", 314), ("sched_getattr", 315), ("renameat2", 316),
    ("seccomp", 317), ("getrandom", 318), ("memfd_create", 319), ("kexec_file_load", 320), ("bpf", 321),
    ("execveat", 322), ("userfaultfd", 323), ("membarrier", 324), ("mlock2", 325),
    ("copy_file_range", 326), ("preadv2", 327), ("pwritev2", 328), ("pkey_mprotect", 329),
    ("pkey_alloc", 330), ("pkey_free", 331), ("statx", 332), ("io_pgetevents", 333), ("rseq", 334),
    ("pidfd_send_signal", 424), ("io_uring_setup", 425), ("io_uring_enter", 426),
    ("io_uring_register", 427), ("open_tree", 428), ("move_mount", 429), ("fsopen", 430),
    ("fsconfig", 431), ("fsmount", 432), ("fspick", 433), ("pidfd_open", 434), ("clone3", 435),
    ("close_range", 436), ("openat2", 437), ("pidfd_getfd", 438), ("faccessat2", 439),
    ("process_madvise", 440), ("epoll_pwait2", 441), ("mount_setattr", 442), ("quotactl_fd", 443),
    ("landlock_create_ruleset", 444), ("landlock_add_rule", 445), ("landlock_restrict_self", 446),
    ("memfd_secret", 447), ("process_mrelease", 448), ("futex_waitv", 449),
    ("set_mempolicy_home_node", 450), ("cachestat", 451), ("fchmodat2", 452), ("map_shadow_stack", 453),
    ("futex_wake", 454), ("futex_wait", 455), ("futex_requeue", 456)]

def resolveNames : List String → List UInt32 × List String
  | [] => ([], [])
  | name :: names =>
    let (nrs, unknown) := resolveNames names
    match syscallNumbers.lookup name with
    | none => (nrs, name :: unknown)
    | some nr => (nr :: nrs, unknown)

namespace Seccomp

def Profile.effectiveMode (p : Profile) (mode : Mode) : Mode :=
  if p.mode ≠ "" then p.mode else mode

def defaultAction (mode : Mode) : UInt32 :=
  if mode = modeLog then retLog else retDeny

inductive ApplyError where
  | unknownNames (names : List String)
  | tooLarge (instructions : Nat)
  | noNewPrivs (errno : Nat)
  | seccomp (errno : Nat)

def ApplyError.text (strerror : Nat → String) : ApplyError → String
  | .unknownNames names => "seccomp: unknown syscall names: [" ++ String.intercalate " " names ++ "]"
  | .tooLarge instructions => s!"seccomp: filter too large ({instructions} instructions)"
  | .noNewPrivs errno => "prctl(PR_SET_NO_NEW_PRIVS): " ++ strerror errno
  | .seccomp errno => "prctl(PR_SET_SECCOMP): " ++ strerror errno

/-- `Apply`: without a profile there is nothing to install. -/
def apply (kernel : Kernel) (p : Option Profile) (mode : Mode) (thread : Thread) :
    Except ApplyError Unit × Thread :=
  match p with
  | none => (.ok (), thread)
  | some p =>
    let (nrs, unknown) := resolveNames p.syscalls
    if unknown.length > 0 then (.error (.unknownNames unknown), thread)
    else
      let filter := buildFilter nrs (defaultAction (p.effectiveMode mode))
      if filter.length > 65535 then (.error (.tooLarge filter.length), thread)
      else
        match kernel.syscall .setNoNewPrivs thread with
        | (.error errno, thread) => (.error (.noNewPrivs errno), thread)
        | (.ok _, thread) =>
          match kernel.syscall (.setSeccomp filter) thread with
          | (.error errno, thread) => (.error (.seccomp errno), thread)
          | (.ok _, thread) => (.ok (), thread)

end Seccomp

namespace Cap

def capabilityNumbers : List (String × Nat) :=
  [("cap_chown", 0), ("cap_dac_override", 1), ("cap_dac_read_search", 2), ("cap_fowner", 3),
    ("cap_fsetid", 4), ("cap_kill", 5), ("cap_setgid", 6), ("cap_setuid", 7), ("cap_setpcap", 8),
    ("cap_linux_immutable", 9), ("cap_net_bind_service", 10), ("cap_net_broadcast", 11),
    ("cap_net_admin", 12), ("cap_net_raw", 13), ("cap_ipc_lock", 14), ("cap_ipc_owner", 15),
    ("cap_sys_module", 16), ("cap_sys_rawio", 17), ("cap_sys_chroot", 18), ("cap_sys_ptrace", 19),
    ("cap_sys_pacct", 20), ("cap_sys_admin", 21), ("cap_sys_boot", 22), ("cap_sys_nice", 23),
    ("cap_sys_resource", 24), ("cap_sys_time", 25), ("cap_sys_tty_config", 26), ("cap_mknod", 27),
    ("cap_lease", 28), ("cap_audit_write", 29), ("cap_audit_control", 30), ("cap_setfcap", 31),
    ("cap_mac_override", 32), ("cap_mac_admin", 33), ("cap_syslog", 34), ("cap_wake_alarm", 35),
    ("cap_block_suspend", 36), ("cap_audit_read", 37), ("cap_perfmon", 38), ("cap_bpf", 39),
    ("cap_checkpoint_restore", 40)]

end Cap

/-- What the trampolines are given besides the kernel: the decoded profile files, the order in which the map
of capabilities is walked, and the texts of the errors of system calls. -/
structure Host where
  kernel : Kernel
  seccompToml : String → Except String Seccomp.Profile
  landlockToml : String → Except String Landlock.Profile
  capabilities : List (String × Nat)
  capabilities_perm : capabilities.Perm Cap.capabilityNumbers
  strerror : Nat → String

variable (host : Host)

namespace Cap

/-- `all` stands for every capability but the two that `su` needs. -/
def expandAll (names : List String) : List String :=
  names.flatMap fun name =>
    if name.toLower = "all" then
      (host.capabilities.map (·.1)).filter fun cap => ¬ (cap = "cap_setuid" ∨ cap = "cap_setgid")
    else [name.toLower]

inductive DropError where
  | unknown (name : String)
  | prctl (name : String) (errno : Nat)

def DropError.text (strerror : Nat → String) : DropError → String
  | .unknown name => "cap: unknown capability " ++ name.quote
  | .prctl name errno => "prctl(PR_CAPBSET_DROP, " ++ name ++ "): " ++ strerror errno

def dropBounding : List String → Thread → Except DropError Unit × Thread
  | [], thread => (.ok (), thread)
  | name :: names, thread =>
    match capabilityNumbers.lookup name with
    | none => (.error (.unknown name), thread)
    | some nr =>
      match host.kernel.syscall (.dropBounding nr) thread with
      | (.error errno, thread) => (.error (.prctl name errno), thread)
      | (.ok _, thread) => dropBounding names thread

def drop (names : List String) (thread : Thread) : Except DropError Unit × Thread :=
  dropBounding host (expandAll host names) thread

end Cap

/-- `Load` of both packages: the file is opened, read and decoded, and closed on every path out. -/
def load {α : Type} (what path : String) (decoded : Except String α) (thread : Thread) :
    Except String α × Thread :=
  match host.kernel.syscall (.openFile path) thread with
  | (.error errno, thread) =>
    (.error (what ++ " profile: open " ++ path ++ ": " ++ host.strerror errno), thread)
  | (.ok fd, thread) =>
    match host.kernel.syscall (.read fd) thread with
    | (.error errno, thread) =>
      (.error (what ++ " profile " ++ path ++ ": read " ++ path ++ ": " ++ host.strerror errno),
        (host.kernel.syscall (.close fd) thread).2)
    | (.ok _, thread) =>
      (decoded.mapError fun e => what ++ " profile " ++ path ++ ": " ++ e,
        (host.kernel.syscall (.close fd) thread).2)

def Seccomp.load (path : String) (thread : Thread) : Except String Seccomp.Profile × Thread :=
  Sandbox.load host "seccomp" path (host.seccompToml path) thread

def Landlock.load (path : String) (thread : Thread) : Except String Landlock.Profile × Thread :=
  Sandbox.load host "landlock" path (host.landlockToml path) thread

inductive Ended where
  | exit (code : Nat)
  | exec (path : String) (argv : List String) (env : List String)
deriving DecidableEq

/-- The end of a trampoline: the lines it has printed, and the thread it leaves to what it execs. -/
structure Trampoline where
  ended : Ended
  stderr : List String
  thread : Thread

structure SeccompExecOpts where
  profilePath : String := ""
  mode : String := modeEnforce
  landlockProfile : String := ""
  capDrop : List String := []
  cmd : String := ""
  cmdArgs : List String := []
deriving DecidableEq

/-- `strings.Split` at the commas. -/
def splitCommas (text : String) : List String :=
  (text.toList.splitOn ',').map String.ofList

def parseArgs (opts : SeccompExecOpts) : List String → Except String SeccompExecOpts
  | [] => .error "missing -- <cmd>"
  | "--profile" :: rest =>
    match rest with
    | [] => .error "--profile requires an argument"
    | value :: rest => parseArgs { opts with profilePath := value } rest
  | "--mode" :: rest =>
    match rest with
    | [] => .error "--mode requires an argument"
    | value :: rest => parseArgs { opts with mode := value } rest
  | "--landlock-profile" :: rest =>
    match rest with
    | [] => .error "--landlock-profile requires an argument"
    | value :: rest => parseArgs { opts with landlockProfile := value } rest
  | "--cap-drop" :: rest =>
    match rest with
    | [] => .error "--cap-drop requires an argument"
    | value :: rest => parseArgs { opts with capDrop := splitCommas value } rest
  | "--" :: rest =>
    match rest with
    | [] => .error "-- requires a command"
    | cmd :: cmdArgs => .ok { opts with cmd := cmd, cmdArgs := cmdArgs }
  | flag :: _ => .error ("unknown flag " ++ flag.quote)

def parseSeccompExecArgs (args : List String) : Except String SeccompExecOpts :=
  parseArgs {} args

def applySeccomp (opts : SeccompExecOpts) (thread : Thread) : Except String Unit × Thread :=
  let loaded : Except String (Option Seccomp.Profile) × Thread :=
    if opts.profilePath ≠ "" then
      let (profile, thread) := Seccomp.load host opts.profilePath thread
      (profile.map some, thread)
    else (.ok none, thread)
  match loaded with
  | (.error e, thread) => (.error e, thread)
  | (.ok profile, thread) =>
    match Seccomp.apply host.kernel profile opts.mode thread with
    | (.error e, thread) => (.error ("apply seccomp: " ++ e.text host.strerror), thread)
    | (.ok _, thread) => (.ok (), thread)

/-- The third step: the ruleset of the Landlock profile, if there is one. That it cannot be applied is only
reported. -/
def applyLandlock (opts : SeccompExecOpts) (thread : Thread) : Except String (List String) × Thread :=
  if opts.landlockProfile ≠ "" then
    match Landlock.load host opts.landlockProfile thread with
    | (.error e, thread) => (.error ("landlock load: " ++ e), thread)
    | (.ok ll, thread) =>
      match Landlock.apply host.kernel (some ll) thread with
      | (.error e, thread) => (.ok ["landlock apply: " ++ e.text host.strerror], thread)
      | (.ok _, thread) => (.ok [], thread)
  else (.ok [], thread)

/-- `SeccompExec`. -/
def seccompExec (args environ : List String) (thread : Thread) : Trampoline :=
  let exit (message : String) (thread : Thread) : Trampoline :=
    { ended := .exit 1, stderr := ["nura-manager seccomp-exec: " ++ message], thread := thread }
  match parseSeccompExecArgs args with
  | .error e => exit e thread
  | .ok opts =>
    let dropped :=
      if opts.capDrop.length > 0 then Cap.drop host opts.capDrop thread else (.ok (), thread)
    match dropped with
    | (.error e, thread) => exit ("cap drop: " ++ e.text host.strerror) thread
    | (.ok _, thread) =>
      match applySeccomp host opts thread with
      | (.error e, thread) => exit e thread
      | (.ok _, thread) =>
        match applyLandlock host opts thread with
        | (.error e, thread) => exit e thread
        | (.ok warnings, thread) =>
          { ended := .exec opts.cmd (opts.cmd :: opts.cmdArgs) environ
            stderr := warnings.map ("nura-manager seccomp-exec: " ++ ·)
            thread := thread }

structure PathGrant where
  path : String
  read : Bool
  write : Bool
  exec : Bool

structure Grant where
  paths : List PathGrant
  syscalls : List String

def PathGrant.access (pg : PathGrant) : List String :=
  (if pg.read then [Landlock.accessReadFile, Landlock.accessReadDir] else []) ++
  (if pg.write then
    [Landlock.accessWriteFile, Landlock.accessMakeReg, Landlock.accessMakeDir, Landlock.accessRemoveFile,
      Landlock.accessRemoveDir]
  else []) ++
  (if pg.exec then [Landlock.accessExecute] else [])

def buildLandlockProfile (g : Grant) : Landlock.Profile :=
  { paths := g.paths.filterMap fun pg =>
      if pg.access.length > 0 then some { path := pg.path, access := pg.access } else none }

def envApply : String := "NURA_SANDBOX_APPLY"
def envGrant : String := "NURA_SANDBOX_GRANT"

/-- The part of an environment entry before its first `=`. -/
def envKey (entry : String) : String :=
  String.ofList (entry.toList.takeWhile (· ≠ '='))

/-- `os.Getenv`: the value of the first entry for the key, and nothing if there is none. -/
def getenv (environ : List String) (key : String) : String :=
  match environ.find? fun entry => '=' ∈ entry.toList ∧ envKey entry = key with
  | some entry => String.ofList (entry.toList.drop (key.length + 1))
  | none => ""

def cleanEnv (environ : List String) : List String :=
  environ.filter fun entry => ¬ (envKey entry = envApply ∨ envKey entry = envGrant)

/-- The grant, the separator and the confinement; each failure that is not tolerated exits with 126. -/
def applyAndExec (g : Grant) (args environ : List String) (thread : Thread) : Trampoline :=
  match args.dropWhile (· ≠ "--") with
  | _ :: toolPath :: toolArgs =>
    let restricted :=
      if g.paths.length > 0 then Landlock.apply host.kernel (some (buildLandlockProfile g)) thread
      else (.ok (), thread)
    let skipped := match restricted.1 with
      | .error e => ["toolsandbox: landlock skipped: " ++ e.text host.strerror]
      | .ok _ => []
    let filtered :=
      if g.syscalls.length > 0 then
        Seccomp.apply host.kernel (some { mode := "", syscalls := g.syscalls }) modeEnforce restricted.2
      else (.ok (), restricted.2)
    match filtered with
    | (.error e, thread) =>
      { ended := .exit 126
        stderr := skipped ++ ["toolsandbox: seccomp failed: " ++ e.text host.strerror]
        thread := thread }
    | (.ok _, thread) =>
      let dropped := Cap.drop host ["all"] thread
      let kept := match dropped.1 with
        | .error e => ["toolsandbox: cap drop failed: " ++ e.text host.strerror]
        | .ok _ => []
      { ended := .exec toolPath (toolPath :: toolArgs) (cleanEnv environ)
        stderr := skipped ++ kept
        thread := dropped.2 }
  | _ =>
    { ended := .exit 126, stderr := ["toolsandbox: argv missing -- separator"], thread := thread }

/-- `MaybeApplyAndExec`: nothing happens unless the environment asks for it. The decoder is that of the
grant. -/
def maybeApplyAndExec (grantJson : String → Except String Grant) (args environ : List String)
    (thread : Thread) : Option Trampoline :=
  if getenv environ envApply ≠ "1" then none
  else
    let grantData := getenv environ envGrant
    let decoded := if grantData ≠ "" then grantJson grantData else .ok { paths := [], syscalls := [] }
    match decoded with
    | .error e =>
      some { ended := .exit 126, stderr := ["toolsandbox: malformed grant JSON: " ++ e], thread := thread }
    | .ok g => some (applyAndExec host g args environ thread)

end NuraOS.Sandbox

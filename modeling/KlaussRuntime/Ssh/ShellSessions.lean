import KlaussRuntime.Machinery.Machine
import Mathlib.Logic.Function.Basic
import Mathlib.Tactic.Common

/-!
# Ssh/ShellSessions — the threads that share an SSH session

Each connection slot has a worker thread, which reads the session, and a Zephyr shell with a thread of its
own, which writes to it.  `ssh_shell_claim` binds a session to the shell; `ssh_shell_release` unbinds it, and
says whether the session can be freed.  Output reaches the session through `ctx_write`, for the slot of
the shell (`t_write`, `ssh_shell_write`) or for the slot that has a given session pointer (`ssh_shell_send`).

    connect ─▸ accept ─▸ claim ─▸ read loop ─▸ release ─┬─▸ free ─▸ connect …
                                                         └─▸ retired

A session object is an address; the allocator may give out an address again once it is free.  Which session
lives there is a ghost number, so that a new session at an old address is another session.  Every access to
what the threads share is a step, and a wolfSSH call lasts from one step to a later one.

`shell_stop` answers `-EBUSY` while a command executes, and a stopped shell starts none.
-/

namespace KlaussRuntime.Ssh.Sessions

open Machinery

/-! ## Slots -/

/-- A `WOLFSSH *` that is not NULL. -/
abbrev Addr := ℕ

/-- `ca->ssh`; ghost: which session it is. -/
structure Session where
  ssh : Addr
  sid : ℕ

variable {n : ℕ}

inductive Thread (n : ℕ) where
  | worker (i : Fin n)
  | shell (i : Fin n)
deriving DecidableEq

/-- `struct ssh_shell_ctx`. -/
structure Ctx (n : ℕ) where
  ssh : Option Addr
  /-- the holder of `io_lock` -/
  ioLock : Option (Thread n)
  isOpen : Bool
  /-- a `run` or `python` is executing -/
  running : Bool
  /-- the count of the semaphore `done` -/
  done : Bool
  /-- the lines in the receive ring; ghost: the session each came from -/
  rx : List ℕ

/-- Where the shell thread is. -/
inductive ShellPc (n : ℕ) where
  /-- it is not writing -/
  | rest
  /-- `t_write` tests `c->ssh`, then `c->open` -/
  | writeSsh (len : ℕ)
  | writeOpen (len : ℕ)
  /-- `ssh_shell_send` has come to slot `j` -/
  | scan (p : Addr) (j : ℕ) (len : ℕ)
  /-- `ctx_write` with so many bytes left -/
  | lock (j : Fin n) (left : ℕ)
  | testSsh (j : Fin n) (left : ℕ)
  | testOpen (j : Fin n) (left : ℕ)
  /-- in `wolfSSH_stream_send` -/
  | sending (j : Fin n) (a : Addr) (left : ℕ)
  /-- in `wolfSSH_get_error` -/
  | asking (j : Fin n) (a : Addr) (left : ℕ)
  | unlock (j : Fin n) (left : ℕ)
  /-- `ssh_shell_run_begin`, `ssh_shell_run_end`, after their first store -/
  | runBegin
  | runEnd

structure Shell (n : ℕ) where
  /-- it is started -/
  active : Bool
  /-- a command executes; ghost: it was typed in this session -/
  command : Option ℕ
  /-- the session pointer the command has, `ext_ctx.ssh` -/
  ssh : Option Addr
  pc : ShellPc n

/-- Where the worker is. -/
inductive WorkerPc where
  /-- there is none -/
  | off
  /-- the handshake, the SFTP service and the banner: wolfSSH calls while nobody else has the session -/
  | alone
  | calling
  -- `ssh_shell_claim`
  | resetRing
  | resetDone
  | resetRunning
  | bind
  | opening
  | start
  | stopAgain
  | startAgain
  -- the read loop
  | lockRead
  /-- in `wolfSSH_stream_read`, or in `wolfSSH_get_error` after it -/
  | reading
  /-- in `ssh_recv`, which gives the lock up while it waits -/
  | waiting
  | unlockRead (r : Option ℕ)
  | feed (k : ℕ)
  -- `ssh_shell_release`
  | closing
  | testRunning
  | takeDone
  | stop (drained : Bool)
  | lockClear (drained : Bool)
  | clear (drained : Bool)
  | unlockClear (drained : Bool)
  -- `cleanup`
  | cleanup (safe : Bool)
  /-- the session is freed, the slot still busy -/
  | freed
  | retired

structure Slot (n : ℕ) where
  ctx : Ctx n
  shell : Shell n
  worker : WorkerPc
  session : Option Session

structure Sys (n : ℕ) where
  slots : Fin n → Slot n
  /-- the session objects; ghost: the session that lives there -/
  live : Addr → Option ℕ
  /-- ghost: the next session -/
  next : ℕ

def Sys.set (s : Sys n) (i : Fin n) (sl : Slot n) : Sys n := { s with slots := Function.update s.slots i sl }

def Sys.setCtx (s : Sys n) (i : Fin n) (c : Ctx n) : Sys n := s.set i { s.slots i with ctx := c }

def Sys.setShell (s : Sys n) (i : Fin n) (sh : Shell n) : Sys n := s.set i { s.slots i with shell := sh }

/-! ## The shell thread -/

/-- What a wolfSSH call answers a writer. -/
inductive Answer where
  /-- so many bytes went out -/
  | sent (k : ℕ)
  /-- `WS_WINDOW_FULL`, `WS_WANT_WRITE`, `WS_REKEYING` or nothing sent: try again later -/
  | again
  /-- …for ten seconds now -/
  | stalled
  /-- `WS_ERROR` -/
  | error
  /-- any other error -/
  | fatal

/-- The shell thread of slot `i` goes on with what it writes. -/
def shellStep (s : Sys n) (i : Fin n) (r : Answer) : Option (Sys n) :=
  let sh := (s.slots i).shell
  let goto (s : Sys n) (pc : ShellPc n) : Option (Sys n) := some (s.setShell i { (s.slots i).shell with pc := pc })
  match sh.pc with
  | .rest => none
  | .writeSsh len => goto s (if (s.slots i).ctx.ssh = none then .rest else .writeOpen len)
  | .writeOpen len => goto s (if (s.slots i).ctx.isOpen then .lock i len else .rest)
  | .scan p j len =>
    if h : j < n then goto s (if (s.slots ⟨j, h⟩).ctx.ssh = some p then .lock ⟨j, h⟩ len else .scan p (j + 1) len)
    else goto s .rest
  | .lock j left =>
    if left = 0 then goto s .rest
    else if (s.slots j).ctx.ioLock = none then
      goto (s.setCtx j { (s.slots j).ctx with ioLock := some (.shell i) }) (.testSsh j left)
    else none
  | .testSsh j left => goto s (if (s.slots j).ctx.ssh = none then .unlock j 0 else .testOpen j left)
  | .testOpen j left =>
    goto s (if (s.slots j).ctx.isOpen then
      -- the call with a NULL session fails at once
      (s.slots j).ctx.ssh.elim (.unlock j 0) (.sending j · left)
    else .unlock j 0)
  | .sending j a left =>
    match r with
    | .sent k => goto s (.unlock j (left - k))
    | .again => goto s (.unlock j left)
    | .stalled | .fatal => goto s (.unlock j 0)
    | .error => goto s (.asking j a left)
  | .asking j _ left =>
    match r with
    | .again => goto s (.unlock j left)
    | _ => goto s (.unlock j 0)
  | .unlock j left => goto (s.setCtx j { (s.slots j).ctx with ioLock := none }) (.lock j left)
  | .runBegin => goto (s.setCtx i { (s.slots i).ctx with running := true }) .rest
  | .runEnd => goto (s.setCtx i { (s.slots i).ctx with done := true }) .rest

/-- What the shell thread turns to when it is not writing. -/
inductive Doing where
  /-- output of a command or of the shell itself, through `t_write` -/
  | print (len : ℕ)
  /-- a line is complete, and its command begins -/
  | begin
  | finish
  /-- `ssh_shell_write` -/
  | write (len : ℕ)
  /-- `ssh_shell_ssh` -/
  | session
  /-- `ssh_shell_send` -/
  | send (len : ℕ)
  | runBegin
  | runEnd

/-- Only a command does what is not `print` or `begin`. -/
def turnStep (s : Sys n) (i : Fin n) (d : Doing) : Option (Sys n) :=
  let c := (s.slots i).ctx
  let sh := (s.slots i).shell
  match sh.pc, sh.command, d with
  | .rest, _, .print len => some (s.setShell i { sh with pc := .writeSsh len })
  | .rest, none, .begin =>
    match sh.active, c.rx with
    | true, sid :: rx => some (s.set i { s.slots i with
        ctx := { c with rx := rx }, shell := { sh with command := some sid } })
    | _, _ => none
  | .rest, some _, .finish => some (s.setShell i { sh with command := none, ssh := none })
  | .rest, some _, .write len => some (s.setShell i { sh with pc := .lock i len })
  | .rest, some _, .session => some (s.setShell i { sh with ssh := c.ssh })
  | .rest, some _, .send len =>
    -- `-EINVAL` without a session
    some (sh.ssh.elim s fun p => s.setShell i { sh with pc := .scan p 0 len })
  | .rest, some _, .runBegin => some (s.set i { s.slots i with
      ctx := { c with done := false }, shell := { sh with pc := .runBegin } })
  | .rest, some _, .runEnd => some (s.set i { s.slots i with
      ctx := { c with running := false }, shell := { sh with pc := .runEnd } })
  | _, _, _ => none

/-! ## The worker -/

/-- `shell_start`; it refuses a shell that is started. -/
def Shell.start (sh : Shell n) : Bool × Shell n := (!sh.active, { sh with active := true })

/-- `shell_stop`; it is busy while a command executes. -/
def Shell.stop (sh : Shell n) : Bool × Shell n :=
  if sh.command.isSome then (false, sh) else (true, { sh with active := false })

/-- What the worker meets. -/
inductive Event where
  | next
  /-- another wolfSSH call of the handshake or the SFTP service -/
  | call
  /-- the handshake is through, with a shell -/
  | accepted
  /-- it failed, or the SFTP session is over -/
  | over
  /-- no bytes have arrived yet -/
  | wait
  /-- so many lines have, and so many fit into the ring -/
  | data (k : ℕ)
  | rekeying
  | ended
  /-- two seconds are over -/
  | timeout

/-- The worker of slot `i` goes on. -/
def workerStep (s : Sys n) (i : Fin n) (e : Event) : Option (Sys n) :=
  let sl := s.slots i
  let c := sl.ctx
  let me : Option (Thread n) := some (.worker i)
  let goto (pc : WorkerPc) : Option (Sys n) := some (s.set i { sl with worker := pc })
  let store (c : Ctx n) (pc : WorkerPc) : Option (Sys n) := some (s.set i { sl with ctx := c, worker := pc })
  let lock (pc : WorkerPc) : Option (Sys n) :=
    if c.ioLock = none then store { c with ioLock := me } pc else none
  match sl.worker, e with
  | .alone, .call => goto .calling
  | .calling, .next => goto .alone
  | .alone, .accepted => goto .resetRing
  | .alone, .over => goto (.cleanup true)
  | .resetRing, .next => store { c with rx := [] } .resetDone
  | .resetDone, .next => store { c with done := false } .resetRunning
  | .resetRunning, .next => store { c with running := false } .bind
  | .bind, .next => store { c with ssh := sl.session.map Session.ssh } .opening
  | .opening, .next => store { c with isOpen := true } .start
  | .start, .next => some (s.set i { sl with
      shell := sl.shell.start.2, worker := if sl.shell.start.1 then .lockRead else .stopAgain })
  | .stopAgain, .next => some (s.set i { sl with shell := sl.shell.stop.2, worker := .startAgain })
  | .startAgain, .next => some (s.set i { sl with shell := sl.shell.start.2, worker := .lockRead })
  | .lockRead, .next => lock .reading
  | .reading, .wait => store { c with ioLock := none } .waiting
  | .waiting, .next => lock .reading
  | .reading, .data k => goto (.unlockRead (some k))
  | .reading, .rekeying => goto (.unlockRead (some 0))
  | .reading, .ended => goto (.unlockRead none)
  | .unlockRead r, .next => store { c with ioLock := none } (r.elim .closing .feed)
  | .feed k, .next => store { c with rx := c.rx ++ List.replicate k (sl.session.elim 0 Session.sid) } .lockRead
  | .closing, .next => store { c with isOpen := false } .testRunning
  | .testRunning, .next => goto (if c.running then .takeDone else .stop true)
  | .takeDone, .next => if c.done then store { c with done := false } (.stop true) else none
  | .takeDone, .timeout => goto (.stop false)
  | .stop drained, .next => some (s.set i { sl with
      shell := sl.shell.stop.2, worker := .lockClear (drained && sl.shell.stop.1) })
  | .lockClear drained, .next => lock (.clear drained)
  | .clear drained, .next => store { c with ssh := none } (.unlockClear drained)
  | .unlockClear drained, .next => store { c with ioLock := none } (.cleanup drained)
  | .cleanup true, .next => some { s.set i { sl with session := none, worker := .freed } with
      live := fun a => if sl.session.map Session.ssh = some a then none else s.live a }
  | .cleanup false, .next => goto .retired
  | .freed, .next => goto .off
  | _, _ => none

/-- A step of the system. -/
inductive Act (n : ℕ) where
  /-- the listener gives slot `i` a connection, with a new session object at `a` -/
  | connect (i : Fin n) (a : Addr)
  | worker (i : Fin n) (e : Event)
  | turn (i : Fin n) (d : Doing)
  | shell (i : Fin n) (r : Answer)

def step (s : Sys n) : Act n → Option (Sys n)
  | .connect i a =>
    match (s.slots i).worker, s.live a with
    | .off, none => some { s.set i { s.slots i with session := some ⟨a, s.next⟩, worker := .alone } with
        live := Function.update s.live a (some s.next), next := s.next + 1 }
    | _, _ => none
  | .worker i e => workerStep s i e
  | .turn i d => turnStep s i d
  | .shell i r => shellStep s i r

/-- No connection yet; the shells may have started themselves. -/
def Sys.init (active : Fin n → Bool) : Sys n where
  slots i := ⟨⟨none, none, false, false, false, []⟩, ⟨active i, none, none, .rest⟩, .off, none⟩
  live _ := none
  next := 0

/-! ## What must not happen -/

def ShellPc.inside : ShellPc n → Option Addr
  | .sending _ a _ | .asking _ a _ => some a
  | _ => none

def WorkerPc.inside : WorkerPc → Bool
  | .calling | .reading | .waiting => true
  | _ => false

/-- The session object a thread is in a wolfSSH call with. -/
def Sys.inside (s : Sys n) : Thread n → Option Addr
  | .worker i => if (s.slots i).worker.inside then (s.slots i).session.map Session.ssh else none
  | .shell i => (s.slots i).shell.pc.inside

/-- **A closed session is never used again.** -/
structure Safe (s : Sys n) : Prop where
  /-- a thread is in a wolfSSH call only with a session that is not freed -/
  alive : ∀ t a, s.inside t = some a → s.live a ≠ none
  /-- the worker's own calls are with its own session -/
  mine : ∀ i u, (s.slots i).session = some u → s.live u.ssh = some u.sid
  /-- nobody is in a wolfSSH call with a session that is about to be freed -/
  apart : ∀ i u, (s.slots i).worker = .cleanup true → (s.slots i).session = some u →
    ∀ t, s.inside t ≠ some u.ssh
  /-- what a command writes goes to the session it was typed in -/
  own : ∀ i sid j a left, (s.slots i).shell.command = some sid → (s.slots i).shell.pc = .sending j a left →
    s.live a = some sid

end KlaussRuntime.Ssh.Sessions

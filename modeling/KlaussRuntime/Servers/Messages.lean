import KlaussRuntime.Machinery.Buffers
import KlaussRuntime.Machinery.Printf

/-!
# Servers/Messages — formatted messages to a remote user

Four helpers format into an array on their stack and send the array as far as they think the text goes:
`loader_printf` of the extension loader, `ssh_sendf` of the FreeRTOS SSH server, `sock_printf` of the program
loader and `sess_printf` of the telnet server.  `vsnprintf` returns the length the text would have, and the
last two cut it to their array.  The first two do not: `ssh_sendf` has callers whose texts always fit
(`length_runShell_lt`), `loader_printf` is given file names of any length, and for a text of 160 bytes or more it
sends what lies behind its array.

The callers of `loader_printf` and `ssh_sendf` are modelled up to the texts they pass on.
-/

namespace KlaussRuntime.Servers.Messages

open Machinery

/-! ## The helpers -/

/-- What `loader_printf` sends to a session. -/
def loaderPrintf : Mem → ℕ → List Byte → List Byte := sendAll 160

def sshSendf : Mem → ℕ → List Byte → List Byte := sendAll 256

def sockPrintf : Mem → ℕ → List Byte → List Byte := sendCut 128

def OUT_MAX : ℕ := 1024

/-- A telnet session's output: its array, how much of it is used, and what was sent. -/
structure Session where
  out : Buffer OUT_MAX
  outLen : ℕ
  sent : List Byte

namespace Session

def flush (s : Session) : Session := { s with outLen := 0, sent := s.sent ++ s.out.bytes.take s.outLen }

/-- `s->out[s->out_len++] = b`, with a flush before it if there is less room than `room`. -/
def put (s : Session) (room : ℕ) (b : Byte) : Session :=
  let s := if OUT_MAX - room ≤ s.outLen then s.flush else s
  { s with out := s.out.put s.outLen [b], outLen := s.outLen + 1 }

/-- One round of `sess_write`. -/
def writeByte (s : Session) (b : Byte) : Session :=
  if b = 0x0a then (s.put 2 0x0d).put 1 b else s.put 1 b

def write (s : Session) (bs : List Byte) : Session := bs.foldl writeByte s

/-- `sess_printf`; with nothing to write it does not call `sess_write`, which then would do nothing. -/
def printf (m : Mem) (buf : ℕ) (s : Session) (text : List Byte) : Session := s.write (sendCut 512 m buf text)

end Session

/-! ## The extension loader's texts -/

/-- What an attempt to run an extension meets. -/
structure Sd where
  /-- the size `fs_stat` finds -/
  stat : Option ℕ
  /-- whether `k_malloc` finds memory, and whether `fs_open` succeeds -/
  alloc : Bool
  opens : Bool
  /-- the result of `fs_read` -/
  got : ℤ
  /-- whether the image starts with an ELF header, and two of its fields -/
  isElf : Bool
  machine : BitVec 16
  flags : BitVec 32
  /-- the result of `llext_load` -/
  load : ℤ
  /-- the address of `main` -/
  entry : Option ℕ

def EXT_MAX_SIZE : ℕ := 8 * 1024 * 1024

/-- `cmd_run`: the file of the argument, if there is one. -/
def runFilename : Option (List Byte) → List Byte
  | none => ascii "/SD:/PROG.LLEXT"
  | some arg => if arg.head? = some 0x2f then arg else snprintk 128 (ascii "/SD:/" ++ arg)

/-- `read_file`: what it says, and the size of what it has read. -/
def readFile (sd : Sd) (path : List Byte) : List (List Byte) × Option ℕ :=
  match sd.stat with
  | none => ([ascii "Cannot stat '" ++ path ++ ascii "'\r\n"], none)
  | some fsize =>
    if fsize = 0 ∨ EXT_MAX_SIZE < fsize then
      ([ascii "File size out of range (" ++ number 10 fsize ++ ascii ")\r\n"], none)
    else if ¬ sd.alloc then
      ([ascii "Out of memory for " ++ number 10 fsize ++ ascii "-byte image\r\n"], none)
    else if ¬ sd.opens then ([ascii "Cannot open '" ++ path ++ ascii "'\r\n"], none)
    else if sd.got < 0 ∨ sd.got.toNat ≠ fsize then ([ascii "Read failed\r\n"], none)
    else ([], some fsize)

def EM_KLAUSSCPU : ℕ := 0x4B43

def KLAUSSCPU_EF_ABI_MASK : ℕ := 0xff

def KLAUSSCPU_ABI_VERSION : ℕ := 3

/-- `klausscpu_llext_check_header`: why an image is refused. -/
def checkHeader (sd : Sd) : Option (List Byte) :=
  let abi := sd.flags.toNat &&& KLAUSSCPU_EF_ABI_MASK
  if sd.machine.toNat ≠ EM_KLAUSSCPU then
    some (snprintk 96 (ascii "built for machine " ++ prefixedHex sd.machine.toNat ++ ascii ", not KlaussCPU ("
      ++ prefixedHex EM_KLAUSSCPU ++ ascii ")"))
  else if abi ≠ KLAUSSCPU_ABI_VERSION then
    some (snprintk 96 (ascii "built for C ABI " ++ number 10 abi ++ ascii ", this kernel is ABI "
      ++ number 10 KLAUSSCPU_ABI_VERSION ++ ascii " (e_flags " ++ prefixedHex sd.flags.toNat
      ++ ascii "): rebuild it"))
  else none

/-- `llext_run_from_sd` after the file is read. -/
def runImage (sd : Sd) (filename : List Byte) : List (List Byte) :=
  match if sd.isElf then checkHeader sd else none with
  | some why => [filename ++ ascii ": " ++ why ++ ascii "\r\n"]
  | none =>
    if sd.load ≠ 0 then [ascii "llext_load failed: " ++ integer 0 sd.load ++ ascii "\r\n"]
    else
      match sd.entry with
      | none => [ascii "No 'main' symbol in extension\r\n"]
      | some entry => [ascii "Running main @ 0x" ++ number 16 entry ++ ascii " ...\r\n"]

/-- **The texts of `llext_run_from_sd`**, in order. -/
def llextRunFromSd (sd : Sd) (filename : List Byte) : List (List Byte) :=
  match readFile sd filename with
  | (said, none) => said
  | (said, some size) => said ++ (ascii "'" ++ filename ++ ascii "'  " ++ number 10 size ++ ascii " bytes\r\n")
      :: runImage sd filename

/-! ## The SSH shell's texts -/

def SSH_LINE_MAX : ℕ := 128

/-- What the commands of `run_shell` report. -/
structure System where
  tasks : BitVec 64
  watermark : BitVec 64
  heap : BitVec 64
  tick : BitVec 64
  /-- the six numbers of the date, once it is known -/
  time : Option (Fin 6 → Int32)
  /-- `strtoul` in base 16 -/
  strtoul : List Byte → BitVec 64

inductive Command where
  | info
  | time
  | heap
  | tick
  | leds
  | seg
  | unknown
  /-- an empty line, or one that is answered by a fixed text -/
  | silent

/-- The branches of `run_shell`. -/
def command (line : List Byte) : Command :=
  if line = [] then .silent
  else if line = ascii "help" then .silent
  else if line = ascii "info" then .info
  else if line = ascii "time" then .time
  else if line = ascii "heap" then .heap
  else if line = ascii "tick" then .tick
  else if line.take 5 = ascii "leds " then .leds
  else if line.take 4 = ascii "seg " then .seg
  else if line = ascii "exit" ∨ line = ascii "quit" then .silent
  else .unknown

/-- The text of a command's `ssh_sendf`. -/
def Command.text (sys : System) (line : List Byte) : Command → Option (List Byte)
  | info => some (ascii "KlaussCPU FreeRTOS SSH server\r\nTasks: " ++ number 10 sys.tasks.toNat
      ++ ascii "  Stack watermark: " ++ number 10 sys.watermark.toNat ++ ascii " words\r\n")
  | time => sys.time.map fun t => ascii "UTC: " ++ integer 4 (t 0).toInt ++ ascii "-"
      ++ integer 2 (t 1).toInt ++ ascii "-" ++ integer 2 (t 2).toInt ++ ascii " " ++ integer 2 (t 3).toInt
      ++ ascii ":" ++ integer 2 (t 4).toInt ++ ascii ":" ++ integer 2 (t 5).toInt ++ ascii "\r\n"
  | heap => some (ascii "Free heap: " ++ number 10 sys.heap.toNat ++ ascii " bytes\r\n")
  | tick => some (ascii "Tick count: " ++ number 10 sys.tick.toNat ++ ascii "\r\n")
  | leds => some (ascii "LEDs = 0x" ++ padded 4 (number 16 (sys.strtoul (line.drop 5)).toNat) ++ ascii "\r\n")
  | seg => some (ascii "SEG = 0x" ++ padded 8 (number 16 (sys.strtoul (line.drop 4)).toNat) ++ ascii "\r\n")
  | unknown => some (ascii "Unknown command: " ++ line ++ ascii "\r\n")
  | silent => none

/-- **The texts of `run_shell`'s `ssh_sendf` calls**, for the bytes typed and what the system reports then. -/
def runShell : List Byte → List (System × Byte) → List (List Byte)
  | _, [] => []
  | line, (sys, ch) :: rest =>
    if ch = 0x0d ∨ ch = 0x0a then
      ((command line).text sys line).toList ++ (if line = ascii "exit" ∨ line = ascii "quit" then [] else runShell [] rest)
    else if ch = 127 ∨ ch = 8 then runShell line.dropLast rest
    else if 0x20 ≤ ch ∧ line.length < SSH_LINE_MAX - 1 then runShell (line ++ [ch]) rest
    else runShell line rest

/-! ## What `ssh_sendf` is given -/

variable {sys : System} {line text : List Byte}

theorem length_decimal64_le (v : BitVec 64) : (number 10 v.toNat).length ≤ 20 :=
  length_number_le (by decide) (by decide) (v.isLt.trans (by decide))

theorem length_hex64_le (v : BitVec 64) : (number 16 v.toNat).length ≤ 16 :=
  length_number_le (by decide) (by decide) v.isLt

theorem length_int_le (width : ℕ) (v : Int32) : (integer width v.toInt).length ≤ max width 11 :=
  length_integer_le v.minValue_le_toInt v.toInt_lt

/-- **Every text fits**, for a line as long as `run_shell` accepts. -/
theorem length_text_lt (hline : line.length ≤ 127) {c : Command} (h : c.text sys line = some text) :
    text.length < 256 := by
  cases c with
  | info =>
    cases h
    have h₁ := length_decimal64_le sys.tasks
    have h₂ := length_decimal64_le sys.watermark
    simp [ascii]
    omega
  | time =>
    obtain ⟨t, -, rfl⟩ := Option.map_eq_some_iff.mp h
    have hyear := length_int_le 4 (t 0)
    have hrest : ∀ i, (integer 2 (t i).toInt).length ≤ 11 := fun i => length_int_le 2 (t i)
    have h₁ := hrest 1
    have h₂ := hrest 2
    have h₃ := hrest 3
    have h₄ := hrest 4
    have h₅ := hrest 5
    simp [ascii]
    omega
  | heap | tick =>
    cases h
    have h₁ := length_decimal64_le sys.heap
    have h₂ := length_decimal64_le sys.tick
    simp [ascii]
    omega
  | leds | seg =>
    cases h
    have h₁ := length_hex64_le (sys.strtoul (line.drop 5))
    have h₂ := length_hex64_le (sys.strtoul (line.drop 4))
    simp [ascii, length_padded]
    omega
  | unknown =>
    cases h
    simp [ascii]
    omega
  | silent => cases h

/-- **…and a line never gets longer.** -/
theorem length_runShell_lt {input : List (System × Byte)} (hline : line.length ≤ 127)
    (h : text ∈ runShell line input) : text.length < 256 := by
  induction input generalizing line with
  | nil => cases h
  | cons x rest ih =>
    obtain ⟨sys, ch⟩ := x
    rw [runShell] at h
    split at h
    · rcases List.mem_append.mp h with hnow | hlater
      · exact length_text_lt hline (Option.mem_toList.mp hnow)
      · split at hlater
        · cases hlater
        · exact ih (Nat.zero_le _) hlater
    · split at h
      · exact ih (by rw [List.length_dropLast]; omega) h
      · split at h
        case isTrue hroom =>
          refine ih ?_ h
          rw [List.length_append, List.length_singleton]
          exact hroom.2
        case isFalse => exact ih hline h

/-! ## A telnet session -/

/-- What a session is told to write, and to send. -/
inductive Act where
  | printf (text : List Byte)
  | flush

/-- `\n` becomes `\r\n`. -/
def newlines (bs : List Byte) : List Byte := bs.flatMap fun b => if b = 0x0a then [0x0d, b] else [b]

/-- …of as much of each text as the array has room for. -/
def Act.bytes : Act → List Byte
  | printf text => newlines (cutText 512 text)
  | flush => []

/-- A session from its action `k` on, each with a stack of its own. -/
def runSession (stack : ℕ → Mem) (buf : ℕ → ℕ) : ℕ → Session → List Act → Session
  | _, s, [] => s
  | k, s, .printf text :: rest => runSession stack buf (k + 1) (s.printf (stack k) (buf k) text) rest
  | k, s, .flush :: rest => runSession stack buf (k + 1) s.flush rest

/-- Two sessions were given the same bytes and have sent the same of them; the others wait in their arrays. -/
structure Agree (s s' : Session) (bytes : List Byte) (pending : List Byte) : Prop where
  out : s.out.Holds s.outLen pending
  out' : s'.out.Holds s'.outLen pending
  sent : s'.sent = s.sent
  bytes : s.sent ++ pending = bytes
  room : pending.length < OUT_MAX

variable {s s' : Session} {bytes pending : List Byte}

theorem Agree.flush (h : Agree s s' bytes pending) : Agree s.flush s'.flush bytes [] where
  out := s.out.holds_nil
  out' := s'.out.holds_nil
  sent := by
    rw [Session.flush, Session.flush]
    dsimp only
    rw [h.out.bytes, h.out'.bytes, h.sent]
  bytes := by
    rw [Session.flush, List.append_nil]
    dsimp only
    rw [h.out.bytes, h.bytes]
  room := by decide

/-- **One byte more.** -/
theorem Agree.put (h : Agree s s' bytes pending) {room : ℕ} (hroom : 0 < room) (b : Byte) :
    ∃ pending, Agree (s.put room b) (s'.put room b) (bytes ++ [b]) pending := by
  have hadd : ∀ {s s' : Session} {pending : List Byte}, Agree s s' bytes pending →
      pending.length + 1 < OUT_MAX →
      Agree { s with out := s.out.put s.outLen [b], outLen := s.outLen + 1 }
        { s' with out := s'.out.put s'.outLen [b], outLen := s'.outLen + 1 } (bytes ++ [b]) (pending ++ [b]) := by
    intro s s' pending h hlt
    refine ⟨h.out.put [b] ?_, h.out'.put [b] ?_, h.sent, ?_, ?_⟩
    · rw [h.out.length]
      exact hlt.le
    · rw [h.out'.length]
      exact hlt.le
    · rw [← h.bytes, List.append_assoc]
    · rw [List.length_append]
      exact hlt
  have hlen : s'.outLen = s.outLen := h.out'.length.trans h.out.length.symm
  unfold Session.put
  rw [hlen]
  split
  · exact ⟨_, hadd h.flush (by decide)⟩
  · refine ⟨_, hadd h ?_⟩
    have := h.out.length
    omega

theorem Agree.writeByte (h : Agree s s' bytes pending) (b : Byte) :
    ∃ pending, Agree (s.writeByte b) (s'.writeByte b) (bytes ++ newlines [b]) pending := by
  rw [newlines, List.flatMap_singleton, Session.writeByte, Session.writeByte]
  split
  · obtain ⟨_, h⟩ := h.put (Nat.succ_pos 1) 0x0d
    obtain ⟨pending, h⟩ := h.put Nat.one_pos b
    exact ⟨pending, by rwa [List.append_assoc] at h⟩
  · exact h.put Nat.one_pos b

theorem Agree.write (bs : List Byte) : ∀ {s s' : Session} {bytes pending : List Byte},
    Agree s s' bytes pending → ∃ pending, Agree (s.write bs) (s'.write bs) (bytes ++ newlines bs) pending := by
  induction bs with
  | nil => exact fun h => ⟨_, by rwa [newlines, List.flatMap_nil, List.append_nil]⟩
  | cons b bs ih =>
    intro s s' bytes pending h
    obtain ⟨_, h⟩ := h.writeByte b
    obtain ⟨pending, h⟩ := ih h
    exact ⟨pending, by rwa [List.append_assoc, newlines, newlines, ← List.flatMap_append] at h⟩

/-- **Two sessions that are told the same** send the same. -/
theorem Agree.run (stack stack' : ℕ → Mem) (buf buf' : ℕ → ℕ) (acts : List Act) :
    ∀ {k : ℕ} {s s' : Session} {bytes pending : List Byte}, Agree s s' bytes pending →
    ∃ pending, Agree (runSession stack buf k s acts) (runSession stack' buf' k s' acts)
      (bytes ++ acts.flatMap Act.bytes) pending := by
  induction acts with
  | nil => exact fun h => ⟨_, by rwa [List.flatMap_nil, List.append_nil]⟩
  | cons a rest ih =>
    intro k s s' bytes pending h
    rw [List.flatMap_cons, ← List.append_assoc]
    cases a with
    | printf text =>
      rw [runSession, runSession, Session.printf, Session.printf, sendCut_eq (by decide),
        sendCut_eq (by decide)]
      obtain ⟨_, h⟩ := Agree.write (cutText 512 text) h
      exact ih h
    | flush =>
      have hflush := h.flush
      rw [Act.bytes, List.append_nil]
      exact ih hflush

/-! ## The four helpers -/

/-- **Formatted messages reveal only their own text.**  For any arguments and whatever the stack holds:
`loader_printf` if the text has fewer than 160 bytes, and only then; `ssh_sendf` with any line typed;
`sock_printf` with any text; and a telnet session, which sends the texts in turn, cut and with their newlines
written as `\r\n`. -/
theorem messages_reveal (sd : Sd) (arg : Option (List Byte)) (input : List (System × Byte)) (acts : List Act) :
    (∀ text ∈ llextRunFromSd sd (runFilename arg), (text.length < 160 → Reveals loaderPrintf text) ∧
      (160 ≤ text.length → text.length < 2 ^ 31 → 0 ∉ text → ¬ Reveals loaderPrintf text)) ∧
    (∀ text ∈ runShell [] input, Reveals sshSendf text) ∧
    (∀ text, Reveals sockPrintf text) ∧
    ∀ stack stack' buf buf' out out', (runSession stack buf 0 ⟨out, 0, []⟩ acts).sent
        = (runSession stack' buf' 0 ⟨out', 0, []⟩ acts).sent ∧
      (runSession stack buf 0 ⟨out, 0, []⟩ acts).sent <+: acts.flatMap Act.bytes := by
  refine ⟨fun text _ => ⟨fun hlen => reveals_sendAll hlen (by decide), not_reveals_sendAll (by decide)⟩,
    fun text htext => reveals_sendAll (length_runShell_lt (Nat.zero_le _) htext) (by decide),
    reveals_sendCut (by decide), fun stack stack' buf buf' out out' => ?_⟩
  have hstart : Agree ⟨out, 0, []⟩ ⟨out', 0, []⟩ [] [] := ⟨out.holds_nil, out'.holds_nil, rfl, rfl, by decide⟩
  obtain ⟨pending, h⟩ := Agree.run stack stack' buf buf' acts (k := 0) hstart
  exact ⟨h.sent.symm, pending, h.bytes⟩

/-- No card. -/
def noCard : Sd := ⟨none, false, false, 0, false, 0, 0, 0, none⟩

/-- The default extension on no card. -/
theorem messages_reveal_default :
    Reveals loaderPrintf (ascii "Cannot stat '" ++ ascii "/SD:/PROG.LLEXT" ++ ascii "'\r\n") :=
  ((messages_reveal noCard none [] []).1 _ (List.mem_singleton.mpr rfl)).1 (by decide)

/-- An absolute path of 151 bytes. -/
def longPath : List Byte := 0x2f :: List.replicate 150 0x61

/-- **Bytes of the stack are sent**: the message that a file with a long name is not there. -/
theorem messages_leak : ¬ ∀ sd arg, ∀ text ∈ llextRunFromSd sd (runFilename arg),
    Reveals loaderPrintf text := fun hall => by
  obtain ⟨text, htext⟩ : ∃ text, ascii "Cannot stat '" ++ longPath ++ ascii "'\r\n" = text := ⟨_, rfl⟩
  have hlen : text.length = 167 := by
    rw [← htext, List.length_append, List.length_append, longPath, List.length_cons, List.length_replicate]
    rfl
  have hmem : text ∈ llextRunFromSd noCard (runFilename (some longPath)) := List.mem_singleton.mpr htext.symm
  have hsame : sendAll 160 (fun _ => 0) 0 text = sendAll 160 (fun _ => 1) 0 text :=
    (hall noCard (some longPath) text hmem (fun _ => 0) (fun _ => 1) 0).2
  -- the first byte behind the array
  have hsent : ∀ m : Mem, (sendAll 160 m 0 text)[160]? = some (m (0 + 160)) := fun m =>
    (sendAll_getElem (by decide) (by omega) (by omega) m 0).2 160 le_rfl (by omega)
  have hzero := hsent fun _ => 0
  rw [hsame, hsent] at hzero
  exact absurd hzero (by decide)

end KlaussRuntime.Servers.Messages

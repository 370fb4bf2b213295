import KlaussRuntime.Machinery.Bytes

/-!
# Freertos/Telnet — what a telnet client types, and how its bytes are cut

`run_session` works through what each `lwip_recv` brings on its own: `handle_iac` looks three bytes ahead in the
same buffer, and with fewer than three left it skips the IAC alone.  A stream is data characters and option
negotiations of three bytes (`Item`).  When every receive brings whole items, the session does what it does with
the stream in one piece (`handleBuf_append`); a negotiation cut in two leaves its option code to be typed, and
the code of SUPPRESS-GA is Ctrl-C.

The output of the commands is left out, as is the greeting.
-/

namespace KlaussRuntime.Freertos.Telnet

open Machinery

abbrev IAC : Byte := 255
abbrev WILL : Byte := 251
abbrev WONT : Byte := 252
abbrev DO : Byte := 253
abbrev DONT : Byte := 254

abbrev OPT_ECHO : Byte := 1
abbrev OPT_SUPPRESS_GA : Byte := 3

def CMD_MAX : ℕ := 256

/-! ## The session -/

/-- A command line: the verb, and the argument if there is one. -/
structure Command where
  verb : List Byte
  arg : Option (List Byte)
deriving DecidableEq

structure Session where
  /-- `cmd`, up to `cmd_len` -/
  cmd : List Byte
  quit : Bool
  /-- ghost: the commands executed -/
  commands : List Command
  /-- ghost: the bytes handled as characters -/
  typed : List Byte
  /-- ghost: the edited line after each character -/
  lines : List (List Byte)
  /-- ghost: what was sent, echo, prompts and option replies -/
  sent : List (List Byte)
deriving DecidableEq

/-- The command on a line, unless it is blank. -/
def parse (line : List Byte) : Option Command :=
  let p := line.dropWhile (· == 0x20)
  if p = [] then none
  else
    let arg := (p.dropWhile (· != 0x20)).dropWhile (· == 0x20)
    some ⟨p.takeWhile (· != 0x20), if arg = [] then none else some arg⟩

/-- "exit", "quit" and "logout". -/
def quits : List (List Byte) :=
  [[0x65, 0x78, 0x69, 0x74], [0x71, 0x75, 0x69, 0x74], [0x6C, 0x6F, 0x67, 0x6F, 0x75, 0x74]]

/-- "\b \b", which takes a character back on the screen. -/
def erase : List Byte := [0x08, 0x20, 0x08]

namespace Session

def start : Session := ⟨[], false, [], [], [], []⟩

def send (s : Session) (bs : List Byte) : Session := { s with sent := s.sent ++ [bs] }

def sendIac (s : Session) (cmd opt : Byte) : Session := s.send [IAC, cmd, opt]

def execute (s : Session) : Session :=
  match parse s.cmd with
  | none => s
  | some c => { s with commands := s.commands ++ [c], quit := s.quit || quits.contains c.verb }

/-- `handle_iac` with a whole negotiation. -/
def handleIac (s : Session) (cmd opt : Byte) : Session :=
  if cmd = DO then
    if opt = OPT_ECHO ∨ opt = OPT_SUPPRESS_GA then s.sendIac WILL opt else s.sendIac WONT opt
  else if cmd = WILL then
    if opt = OPT_SUPPRESS_GA then s.sendIac DO opt else s.sendIac DONT opt
  else s

/-- The end of a line: the command is executed, and a prompt sent. -/
def enter (s : Session) : Session :=
  let s := { (s.send [0x0D, 0x0A]).execute with cmd := [] }
  if s.quit then s else s.send [0x3E, 0x20]

/-- The branches of `handle_char`. -/
def edit (s : Session) (c : Byte) : Session :=
  if c = 0x0D ∨ c = 0x0A then s.enter
  else if c = 127 ∨ c = 8 then
    if 0 < s.cmd.length then { s with cmd := s.cmd.dropLast }.send erase else s
  else if c = 3 then
    { s with cmd := [], sent := s.sent ++ List.replicate s.cmd.length erase }
  else if c = 4 then { s with quit := true }
  else if 32 ≤ c ∧ c < 127 ∧ s.cmd.length < CMD_MAX - 1 then
    { s with cmd := s.cmd ++ [c] }.send [c]
  else s

def handleChar (s : Session) (c : Byte) : Session :=
  let s := s.edit c
  { s with typed := s.typed ++ [c], lines := s.lines ++ [s.cmd] }

/-- What one receive brought, from `buf + i` on. -/
def handleBuf (s : Session) : List Byte → Session
  | [] => s
  | b :: rest =>
    if s.quit then s
    else if b = IAC then
      match rest with
      | cmd :: opt :: rest => handleBuf (s.handleIac cmd opt) rest
      -- fewer than three bytes left: the IAC alone is consumed
      | rest => handleBuf s rest
    else handleBuf (s.handleChar b) rest

/-- `run_session`, over what the receives bring until one brings nothing. -/
def run (s : Session) : List (List Byte) → Session
  | [] => s
  | buf :: bufs => if s.quit then s else (s.handleBuf buf).run bufs

end Session

/-! ## The client's stream -/

/-- What a client sends. -/
inductive Item where
  | data (c : Byte) (h : c ≠ IAC)
  | option (cmd opt : Byte)

namespace Item

def bytes : Item → List Byte
  | data c _ => [c]
  | option cmd opt => [IAC, cmd, opt]

/-- The character typed, if it is one. -/
def char : Item → Option Byte
  | data c _ => some c
  | option _ _ => none

/-- What a session does with one item. -/
def act (s : Session) : Item → Session
  | data c _ => s.handleChar c
  | option cmd opt => s.handleIac cmd opt

end Item

/-- The bytes of a stream. -/
def stream (items : List Item) : List Byte := items.flatMap Item.bytes

namespace Session

variable {s : Session}

theorem handleBuf_quit (h : s.quit = true) (buf : List Byte) : s.handleBuf buf = s := by
  cases buf with
  | nil => rfl
  | cons b rest =>
    rw [handleBuf.eq_def]
    dsimp only
    rw [if_pos h]

/-- **A whole item** is handled as one, whatever comes behind it. -/
theorem handleBuf_item (h : s.quit = false) (item : Item) (rest : List Byte) :
    s.handleBuf (item.bytes ++ rest) = (item.act s).handleBuf rest := by
  have hgo : ¬ s.quit = true := by simp [h]
  cases item with
  | data c hc =>
    change s.handleBuf (c :: rest) = _
    rw [handleBuf.eq_def]
    dsimp only
    rw [if_neg hgo, if_neg hc]
    rfl
  | option cmd opt =>
    change s.handleBuf (IAC :: cmd :: opt :: rest) = _
    rw [handleBuf.eq_def]
    dsimp only
    rw [if_neg hgo, if_pos rfl]
    rfl

/-- **Whole items first**, the rest after them. -/
theorem handleBuf_append (s : Session) (items : List Item) (rest : List Byte) :
    s.handleBuf (stream items ++ rest) = (s.handleBuf (stream items)).handleBuf rest := by
  induction items generalizing s with
  | nil => rfl
  | cons item items ih =>
    rw [stream, List.flatMap_cons, List.append_assoc]
    by_cases hquit : s.quit = true
    · rw [handleBuf_quit hquit, handleBuf_quit hquit, handleBuf_quit hquit]
    · have hgo : s.quit = false := by simpa using hquit
      rw [handleBuf_item hgo, handleBuf_item hgo]
      exact ih (item.act s)

/-- **Receives of whole items** add up to one receive of them all. -/
theorem run_eq_handleBuf (s : Session) {bufs : List (List Byte)}
    (h : ∀ buf ∈ bufs, ∃ items, buf = stream items) : s.run bufs = s.handleBuf bufs.flatten := by
  induction bufs generalizing s with
  | nil => rfl
  | cons buf bufs ih =>
    obtain ⟨items, rfl⟩ := h buf List.mem_cons_self
    rw [run, List.flatten_cons]
    by_cases hquit : s.quit = true
    · rw [if_pos hquit, handleBuf_quit hquit]
    · rw [if_neg hquit, handleBuf_append]
      exact ih _ fun buf hbuf => h buf (List.mem_cons_of_mem _ hbuf)

/-! ## What is typed -/

theorem typed_enter (s : Session) : s.enter.typed = s.typed := by
  have hexec : ∀ s : Session, s.execute.typed = s.typed := by
    intro s
    unfold execute
    split <;> rfl
  simp only [enter]
  split_ifs
  · exact hexec (s.send [0x0D, 0x0A])
  · exact hexec (s.send [0x0D, 0x0A])

theorem typed_edit (s : Session) (c : Byte) : (s.edit c).typed = s.typed := by
  unfold edit
  split_ifs
  · exact typed_enter s
  all_goals rfl

theorem typed_handleIac (s : Session) (cmd opt : Byte) : (s.handleIac cmd opt).typed = s.typed := by
  unfold handleIac
  split_ifs <;> rfl

theorem typed_act (s : Session) (item : Item) :
    (item.act s).typed = s.typed ++ item.char.toList := by
  cases item with
  | data c hc => exact congrArg (· ++ [c]) (typed_edit s c)
  | option cmd opt =>
    rw [Item.char, Option.toList_none, List.append_nil]
    exact typed_handleIac s cmd opt

/-- **Only data characters are typed**, all of them unless the session ends first. -/
theorem typed_handleBuf (s : Session) (items : List Item) :
    ∃ rest, s.typed ++ items.filterMap Item.char = (s.handleBuf (stream items)).typed ++ rest ∧
      ((s.handleBuf (stream items)).quit = false → rest = []) := by
  induction items generalizing s with
  | nil => exact ⟨[], rfl, fun _ => rfl⟩
  | cons item items ih =>
    by_cases hquit : s.quit = true
    · rw [handleBuf_quit hquit]
      exact ⟨_, rfl, fun hgo => absurd (hquit.symm.trans hgo) (by decide)⟩
    · obtain ⟨rest, htyped, hall⟩ := ih (item.act s)
      have hstream : s.handleBuf (stream (item :: items)) = (item.act s).handleBuf (stream items) :=
        handleBuf_item (by simpa using hquit) item (stream items)
      rw [hstream]
      refine ⟨rest, ?_, hall⟩
      rw [← htyped, typed_act, List.append_assoc]
      cases item <;> rfl

/-- A character, then DO SUPPRESS-GA. -/
def typing : List Item := [.data 0x61 (by decide), .option DO OPT_SUPPRESS_GA]

end Session

end KlaussRuntime.Freertos.Telnet

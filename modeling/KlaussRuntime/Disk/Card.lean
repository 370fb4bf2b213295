import KlaussRuntime.Machinery.Memory

/-!
# Disk/Card — an SD card on the SPI bus

What the driver may rely on.  A card takes part in an exchange of bytes: `Card.next c tx rx` is the card
after the host has sent `tx` and the card has sent `rx`, and `none` where no card would send that.  All
failures are left open: a command may be refused or not be answered, a data token may not come or be an
error token, a block may be rejected, and a busy period may last.  What is not open:

* an answer to a command comes within eight bytes, or the command was not taken;
* after the token of a read the card sends the 512 bytes of the sector, and two bytes of CRC;
* a card that is busy sends zeros and hears nothing;
* deselecting a card ends a read; a card deselected in the middle of a multi-block write stays in its
  receive state, and answers no command any more.
-/

namespace KlaussRuntime.Disk

open Machinery

/-- What a card goes back to after a busy period. -/
inductive Back where
  | idle
  /-- the receive state of a multi-block write, before sector `a` -/
  | receive (a : ℕ)
  | stuck
deriving DecidableEq

inductive Mode where
  /-- these bytes of a command have come -/
  | idle (cmd : List Byte)
  /-- a command is answered within so many bytes -/
  | answer (cmd : Byte) (arg : BitVec 32) (left : ℕ)
  /-- sector `a` is to be read -/
  | token (a : ℕ) (multi : Bool)
  /-- byte `i` of sector `a` and its CRC comes next -/
  | data (a : ℕ) (multi : Bool) (i : ℕ)
  /-- a read that has failed or been stopped -/
  | ended
  /-- a data token is awaited, for sector `a` -/
  | receive (a : ℕ) (multi : Bool)
  /-- `i` bytes of a block and its CRC have come, the block's last ones first -/
  | take (a : ℕ) (multi : Bool) (i : ℕ) (got : List Byte)
  /-- the data response comes next -/
  | respond (a : ℕ) (multi : Bool) (block : List Byte)
  | busy (back : Back)
  /-- the receive state of a write that was never stopped -/
  | stuck
deriving DecidableEq

def Back.mode : Back → Mode
  | .idle => .idle []
  | .receive a => .receive a true
  | .stuck => .stuck

def Back.receiving : Back → Bool
  | .receive _ => true
  | _ => false

structure Card where
  /-- OCR CCS: commands have block addresses, not byte addresses -/
  ccs : Bool
  disk : Mem
  mode : Mode
  /-- `CMD55` came just before -/
  app : Bool
  /-- how many sectors `ACMD23` has announced -/
  announced : ℕ
  /-- what erased sectors hold -/
  erased : Mem
  /-- the blocks the card has accepted, and where -/
  accepted : List (ℕ × List Byte)

namespace Card

/-- The sector a command addresses. -/
def sector (c : Card) (arg : BitVec 32) : ℕ := if c.ccs then arg.toNat else arg.toNat / 512

/-- The sectors announced may be erased when a multi-block write begins. -/
def erase (c : Card) (a : ℕ) : Card :=
  { c with
    disk := c.disk.write (512 * a) (c.erased.read (512 * a) (512 * c.announced))
    announced := 0 }

/-- The card answers a command with `r1`. -/
def execute (c : Card) (cmd : Byte) (arg : BitVec 32) (r1 : Byte) : Card :=
  if r1 ≠ 0 then { c with mode := .idle [], app := false }
  else if cmd = 0x51 then { c with mode := .token (c.sector arg) false, app := false }
  else if cmd = 0x52 then { c with mode := .token (c.sector arg) true, app := false }
  else if cmd = 0x58 then { c with mode := .receive (c.sector arg) false, app := false }
  else if cmd = 0x59 then { c.erase (c.sector arg) with mode := .receive (c.sector arg) true, app := false }
  else if cmd = 0x77 then { c with mode := .idle [], app := true }
  else if cmd = 0x57 ∧ c.app then { c with mode := .idle [], app := false, announced := arg.toNat }
  else { c with mode := .idle [], app := false }

/-- A block is accepted, and written. -/
def accept (c : Card) (a : ℕ) (block : List Byte) : Card :=
  { c with disk := c.disk.write (512 * a) block, accepted := c.accepted ++ [(a, block)] }

/-- The argument of a command, from its bytes. -/
def argument (b₁ b₂ b₃ b₄ : Byte) : BitVec 32 :=
  b₁.setWidth 32 <<< 24 ||| b₂.setWidth 32 <<< 16 ||| b₃.setWidth 32 <<< 8 ||| b₄.setWidth 32

/-- The card after an exchange of bytes. -/
def next (c : Card) (tx rx : Byte) : Option Card :=
  match c.mode with
  | .idle [] => some { c with mode := if tx &&& 0xC0 = 0x40 then .idle [tx] else .idle [] }
  | .idle [b₀, b₁, b₂, b₃, b₄] => some { c with mode := .answer b₀ (argument b₁ b₂ b₃ b₄) 8 }
  | .idle cmd => some { c with mode := .idle (cmd ++ [tx]) }
  | .answer cmd arg left =>
    if rx &&& 0x80 = 0 then some (c.execute cmd arg rx)
    else some { c with mode := if left ≤ 1 then .idle [] else .answer cmd arg (left - 1) }
  | .token a multi =>
    if multi ∧ tx = 0x4C then some { c with mode := .ended }
    else if rx = 0xFF then some c
    else some { c with mode := if rx = 0xFE then .data a multi 0 else .ended }
  | .data a multi i =>
    if multi ∧ tx = 0x4C then some { c with mode := .ended }
    else if i < 512 ∧ rx ≠ c.disk (512 * a + i) then none
    else if i < 513 then some { c with mode := .data a multi (i + 1) }
    else some { c with mode := if multi then .token (a + 1) true else .idle [] }
  | .ended => some c
  | .receive a multi =>
    if tx = (if multi then 0xFC else 0xFE) then some { c with mode := .take a multi 0 [] }
    else if multi ∧ tx = 0xFD then some { c with mode := .busy .idle }
    else some c
  | .take a multi i got =>
    if i < 512 then some { c with mode := .take a multi (i + 1) (tx :: got) }
    else if i < 513 then some { c with mode := .take a multi (i + 1) got }
    else some { c with mode := .respond a multi got.reverse }
  | .respond a multi block =>
    if rx &&& 0x1F = 0x05 then
      some { c.accept a block with mode := .busy (if multi then .receive (a + 1) else .idle) }
    else some { c with mode := .busy (if multi then .receive a else .idle) }
  | .busy back => some { c with
      mode := if rx = 0 then .busy back else if tx = 0xFD ∧ back.receiving then .busy .idle else back.mode }
  | .stuck => if rx &&& 0x80 = 0 then none else some c

/-- The card is deselected. -/
def deselect (c : Card) : Card :=
  { c with
    mode := match c.mode with
      | .idle _ | .answer _ _ _ | .token _ _ | .data _ _ _ => .idle []
      | .ended => .busy .idle
      | .receive _ _ | .take _ _ _ _ | .respond _ _ _ | .stuck => .stuck
      | .busy (.receive _) => .busy .stuck
      | .busy back => .busy back
    app := false
    announced := 0 }

/-! ## One card in changing modes -/

def inMode (c : Card) (m : Mode) : Card := { c with mode := m }

section

variable (c : Card) (a : ℕ) (multi : Bool) (tx rx : Byte)

theorem next_answer (cmd : Byte) (arg : BitVec 32) (left : ℕ) :
    (c.inMode (.answer cmd arg left)).next tx rx = if rx &&& 0x80 = 0 then some (c.execute cmd arg rx)
      else some (c.inMode (if left ≤ 1 then .idle [] else .answer cmd arg (left - 1))) := rfl

theorem next_token :
    (c.inMode (.token a multi)).next 0xFF rx = if rx = 0xFF then some (c.inMode (.token a multi))
      else some (c.inMode (if rx = 0xFE then .data a multi 0 else .ended)) := by
  cases multi <;> rfl

theorem next_data (i : ℕ) :
    (c.inMode (.data a multi i)).next 0xFF rx = if i < 512 ∧ rx ≠ c.disk (512 * a + i) then none
      else if i < 513 then some (c.inMode (.data a multi (i + 1)))
      else some (c.inMode (if multi then .token (a + 1) true else .idle [])) := by
  cases multi <;> rfl

theorem next_take (i : ℕ) (got : List Byte) :
    (c.inMode (.take a multi i got)).next tx rx
      = if i < 512 then some (c.inMode (.take a multi (i + 1) (tx :: got)))
      else if i < 513 then some (c.inMode (.take a multi (i + 1) got))
      else some (c.inMode (.respond a multi got.reverse)) := rfl

theorem next_respond (block : List Byte) :
    (c.inMode (.respond a multi block)).next tx rx = if rx &&& 0x1F = 0x05 then
        some ((c.accept a block).inMode (.busy (if multi then .receive (a + 1) else .idle)))
      else some (c.inMode (.busy (if multi then .receive a else .idle))) := rfl

theorem next_busy (back : Back) :
    (c.inMode (.busy back)).next tx rx = some (c.inMode (if rx = 0 then .busy back
      else if tx = 0xFD ∧ back.receiving then .busy .idle else back.mode)) := rfl

theorem next_busy_poll (back : Back) :
    (c.inMode (.busy back)).next 0xFF rx = some (c.inMode (if rx = 0 then .busy back else back.mode)) := rfl

theorem next_stuck :
    (c.inMode .stuck).next tx rx = if rx &&& 0x80 = 0 then none else some (c.inMode .stuck) := rfl

end

end Card

end KlaussRuntime.Disk

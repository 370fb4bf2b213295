import KlaussRuntime.Ssh.ShellPaths

/-!
# Ssh/CopyCommand — the shell's `cp`

`cmd_cp` resolves both paths, opens the source, opens and empties the destination, and then copies 256 bytes at a
time until a read brings nothing.  A read that fails ends the loop as the end of the file does, and a write that
takes only part of its bytes is counted and not looked at again; only a failed write makes the command fail.

When no read fails and no write is short, the bytes written are the source's (`copyLoop_eq`), and if the two
paths name different files the source is still what it was.
-/

namespace KlaussRuntime.Ssh.Cp

open Machinery

/-- How a read goes; one that succeeds brings 256 bytes, or what is left. -/
inductive Read where
  | fine
  | failed

/-- How a write goes; one that does not succeed has written `m` bytes at most. -/
inductive Write where
  | full
  | short (m : ℕ)
  | failed (m : ℕ)

/-- What the file system answers: to the two calls of `fs_open`, and in each round of the loop. -/
structure Answers where
  opensIn : Bool
  opensOut : Bool
  read : ℕ → Read
  write : ℕ → Write

/-- The files of the card.  `file` says which file a path names; several paths can name one. -/
structure Volume (F : Type) where
  file : List Byte → F
  content : F → Option (List Byte)

/-- `sizeof(buf)`. -/
def bufSize : ℕ := 256

/-- The loop from round `k` on, `fuel` rounds at most, with `rest` still to be read and `out` written: the return
code, and what the destination holds in the end. -/
def copyLoop (answers : Answers) : ℕ → ℕ → List Byte → List Byte → Option (ℤ × List Byte)
  | 0, _, _, _ => none
  | fuel + 1, k, rest, out =>
    match answers.read k with
    | .failed => some (0, out)
    | .fine =>
      if rest = [] then some (0, out)
      else
        match answers.write k with
        | .full => copyLoop answers fuel (k + 1) (rest.drop bufSize) (out ++ rest.take bufSize)
        | .short m => copyLoop answers fuel (k + 1) (rest.drop bufSize) (out ++ (rest.take bufSize).take m)
        | .failed m => some (-1, out ++ (rest.take bufSize).take m)

variable {F : Type} [DecidableEq F]

namespace Volume

/-- A file with new content. -/
def put (v : Volume F) (f : F) (bytes : List Byte) : Volume F :=
  { v with content := Function.update v.content f (some bytes) }

/-- `cmd_cp` with the resolved paths. -/
def copy (answers : Answers) (src dst : List Byte) (v : Volume F) : Option (ℤ × Volume F) :=
  if ¬ answers.opensIn ∨ v.content (v.file src) = none then some (-1, v)
  else if ¬ answers.opensOut then some (-1, v)
  else
    -- `FS_O_TRUNC`; from here on the source is what is left of it
    let v := v.put (v.file dst) []
    let bytes := (v.content (v.file src)).getD []
    (copyLoop answers (bytes.length + 1) 0 bytes []).map fun r => (r.1, v.put (v.file dst) r.2)

end Volume

/-- `cmd_cp`, in the working directory `cwd`. -/
def cmdCp (answers : Answers) (cwd source target : List Byte) (v : Volume F) : Option (ℤ × Volume F) :=
  v.copy answers (resolve cwd (some source) shellPathMax) (resolve cwd (some target) shellPathMax)

/-! ## What is copied -/

variable {answers : Answers} {fuel k : ℕ} {rest out : List Byte}

/-- **The loop comes to an end**: each round takes something off the source. -/
theorem isSome_copyLoop (h : rest.length < fuel) : (copyLoop answers fuel k rest out).isSome := by
  induction fuel generalizing k rest out with
  | zero => exact absurd h (Nat.not_lt_zero _)
  | succ fuel ih =>
    rw [copyLoop]
    split
    · rfl
    · split_ifs with hrest
      · rfl
      · have hlt : (rest.drop bufSize).length < fuel := by
          have hpos := List.length_pos_iff.mpr hrest
          rw [List.length_drop, bufSize]
          omega
        split
        · exact ih hlt
        · exact ih hlt
        · rfl

/-- No read fails, and no write is short. -/
structure Answers.Sound (answers : Answers) : Prop where
  read : ∀ k, answers.read k = .fine
  write : ∀ k m, answers.write k ≠ .short m

/-- **A loop that reports success has written all that was to be read.** -/
theorem copyLoop_eq (h : answers.Sound) {written : List Byte}
    (hok : copyLoop answers fuel k rest out = some (0, written)) : written = out ++ rest := by
  induction fuel generalizing k rest out with
  | zero => cases hok
  | succ fuel ih =>
    rw [copyLoop, h.read k] at hok
    dsimp only at hok
    by_cases hrest : rest = []
    · rw [if_pos hrest] at hok
      rw [hrest, List.append_nil]
      exact (Prod.mk.inj (Option.some.inj hok)).2.symm
    · rw [if_neg hrest] at hok
      cases hwrite : answers.write k with
      | full =>
        rw [hwrite] at hok
        rw [ih hok, List.append_assoc, List.take_append_drop]
      | short m => exact absurd hwrite (h.write k m)
      | failed m =>
        rw [hwrite] at hok
        cases hok

theorem isSome_copy (answers : Answers) (src dst : List Byte) (v : Volume F) :
    (v.copy answers src dst).isSome := by
  unfold Volume.copy
  split_ifs
  · rfl
  · dsimp only
    rw [Option.isSome_map]
    exact isSome_copyLoop (Nat.lt_succ_self _)
  · rfl

/-- A card on which every path names its own file; `/SD:/a` holds one byte. -/
def card : Volume (List Byte) := ⟨id, fun p => if p = ascii "/SD:/a" then some [7] else none⟩

/-- Everything succeeds. -/
def smooth : Answers := ⟨true, true, fun _ => .fine, fun _ => .full⟩

/-- The first read fails. -/
def unreadable : Answers := { smooth with read := fun _ => .failed }

/-- The card is full. -/
def full : Answers := { smooth with write := fun _ => .short 0 }

/-- The return code, and what `b` holds. -/
def outcome (answers : Answers) : Option (ℤ × Option (List Byte)) :=
  (cmdCp answers fsRootsl (ascii "a") (ascii "b") card).map fun r => (r.1, r.2.content (ascii "/SD:/b"))

end KlaussRuntime.Ssh.Cp

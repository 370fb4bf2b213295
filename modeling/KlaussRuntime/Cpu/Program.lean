import KlaussRuntime.Cpu.Core

/-!
# Cpu/Program — routines in memory, and running a piece of one

A `Program` is a family of routines with their addresses.  The machines that run one have a core and a PC among
other things; `Program.heads` takes such a machine through a straight piece of a routine, from what
`Safely` says of the piece alone.
-/

namespace KlaussRuntime.Cpu

open Machinery

/-- Routines, and where their instructions lie. -/
structure Program (R F : Type*) where
  code : R → List (Instr F)
  addr : R → ℕ → Address
  decode : Address → Option (R × ℕ)
  decode_addr : ∀ r i, i < (code r).length → decode (addr r i) = some (r, i)

namespace Program

variable {R F : Type*} {G : Program R F} {r : R} {i : ℕ} {ins : Instr F} {pc : Address}

def fetch (G : Program R F) (pc : Address) : Option (Instr F × R × ℕ) :=
  (G.decode pc).bind fun (r, i) => (G.code r)[i]?.map fun ins => (ins, r, i)

theorem fetch_addr (h : (G.code r)[i]? = some ins) : G.fetch (G.addr r i) = some (ins, r, i) := by
  rw [fetch, G.decode_addr r i (List.getElem?_eq_some_iff.mp h).1, Option.bind_some]
  change (G.code r)[i]?.map _ = _
  rw [h]
  rfl

theorem fetch_of_decode (h : G.decode pc = none) : G.fetch pc = none := by
  rw [fetch, h]
  rfl

theorem code_of_fetch (h : G.fetch pc = some (ins, r, i)) : (G.code r)[i]? = some ins := by
  obtain ⟨⟨r', i'⟩, -, hmap⟩ := Option.bind_eq_some_iff.mp h
  obtain ⟨ins', hins, heq⟩ := Option.map_eq_some_iff.mp hmap
  obtain ⟨rfl, rfl, rfl⟩ : ins' = ins ∧ r' = r ∧ i' = i := by simpa using heq
  exact hins

/-- **A straight piece of a routine**, in a machine `put core pc` that runs plain instructions on its core. -/
theorem heads {S : Type*} {exec : S → Option S} {P Q : S → Prop} (put : Core → Address → S)
    (hexec : ∀ core pc ins r i, G.fetch pc = some (.plain ins, r, i) →
      exec (put core pc) = some (put (core.exec ins) (G.addr r (i + 1))))
    {is : List Plain} {rest : List (Instr F)} (hcode : (G.code r).drop i = block is ++ rest)
    {I J : Core → Prop} {x : Core} (hsafe : Safely Core.exec I J is x)
    (hquiet : ∀ core pc ins r i, G.fetch pc = some (.plain ins, r, i) → I core → P (put core pc))
    (hend : ∀ core, J core → Heads exec P Q (put core (G.addr r (i + is.length)))) :
    Heads exec P Q (put x (G.addr r i)) := by
  induction is generalizing x i with
  | nil => exact hend x hsafe
  | cons ins is ih =>
    obtain ⟨hx, hsafe⟩ := hsafe
    have hget : (G.code r)[i]? = some (.plain ins) := by
      rw [← Nat.add_zero i, ← List.getElem?_drop, hcode]
      rfl
    have hfetch := fetch_addr hget
    refine .move (hquiet x _ ins r i hfetch hx) (hexec x _ ins r i hfetch) ?_
    refine ih ?_ hsafe fun core hcore => ?_
    · rw [← List.drop_drop, hcode]
      rfl
    · have hs := hend core hcore
      rwa [List.length_cons, ← Nat.add_assoc, Nat.add_right_comm] at hs

end Program

end KlaussRuntime.Cpu

import Mathlib.Data.List.Basic

/-!
# Machinery/Straight — code that is safe at every step

`Safely exec P Q is c` says of the instructions `is`, run from `c` by `exec`, that `P` holds before each of
them and `Q` at the end; a block is taken apart instruction by instruction, or by an invariant of what is
left of it (`Safely.each`).

`Heads exec P Q s` says the same of a machine that takes one step at a time: from `s` it comes to a state with
`Q`, and `P` holds until then.  It is kept by the machine's own steps (`Heads.next`), so it serves as an
invariant of everything that happens on the way.
-/

namespace Machinery

section Blocks

variable {I C A : Type*} {exec : I → C → C} {P Q R : C → Prop} {i : I} {is js : List I} {c : C}

def Safely (exec : I → C → C) (P Q : C → Prop) : List I → C → Prop
  | [], c => Q c
  | i :: is, c => P c ∧ Safely exec P Q is (exec i c)

namespace Safely

/-- **The same instruction for each of a list**, by an invariant of what is left of it. -/
theorem each {f : A → I} {as : List A} (Inv : List A → C → Prop) (h : Inv as c)
    (hstep : ∀ a as c, Inv (a :: as) c → P c ∧ Inv as (exec (f a) c))
    (hlast : ∀ c, Inv [] c → Q c) : Safely exec P Q (as.map f) c := by
  induction as generalizing c with
  | nil => exact hlast c h
  | cons a as ih => exact ⟨(hstep a as c h).1, ih (hstep a as c h).2⟩

end Safely

end Blocks

section Machines

variable {S : Type*} {exec : S → Option S} {P Q R : S → Prop} {s s' : S}

inductive Heads (exec : S → Option S) (P Q : S → Prop) : S → Prop
  | arrived {s : S} (h : Q s) : Heads exec P Q s
  | move {s s' : S} (hp : P s) (hstep : exec s = some s') (h : Heads exec P Q s') : Heads exec P Q s

namespace Heads

/-- **On the way, `P` holds and the machine's next step keeps heading there.** -/
theorem next (h : Heads exec P Q s) : Q s ∨ P s ∧ ∃ s', exec s = some s' ∧ Heads exec P Q s' := by
  cases h with
  | arrived h => exact .inl h
  | move hp hstep h => exact .inr ⟨hp, _, hstep, h⟩

end Heads

end Machines

end Machinery

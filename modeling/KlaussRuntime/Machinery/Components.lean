import Mathlib.Data.List.Basic

/-!
# Machinery/Components — paths as lists of components

A path is cut at a separator and empty pieces are dropped (`components`); `slashed` writes components out, each
behind a separator, and `components_slashed` reads them back.  `lexStep` processes one component: `here` stays,
`up` takes the last one away, anything else is added.  A list without `here` and `up` is its own result
(`foldl_lexStep_of_proper`).
-/

namespace Machinery

variable {α : Type*} [DecidableEq α]

/-- The nonempty pieces between separators. -/
def components (sep : α) (xs : List α) : List (List α) := (xs.splitOn sep).filter (· ≠ [])

/-- Components, each behind a separator. -/
def slashed (sep : α) (comps : List (List α)) : List α := comps.flatMap (sep :: ·)

variable {sep : α} {xs c : List α} {comps : List (List α)}

theorem mem_splitOn (h : c ∈ xs.splitOn sep) : sep ∉ c ∧ ∀ x ∈ c, x ∈ xs := by
  induction xs generalizing c with
  | nil =>
    rw [List.splitOn_nil, List.mem_singleton] at h
    subst h
    exact ⟨List.not_mem_nil, fun x hx => absurd hx List.not_mem_nil⟩
  | cons y xs ih =>
    rw [List.splitOn, List.splitOnP_cons_eq_if_modifyHead] at h
    change c ∈ if (y == sep) = true then [] :: xs.splitOn sep else (xs.splitOn sep).modifyHead (List.cons y) at h
    split_ifs at h with hy
    · rcases List.mem_cons.mp h with rfl | h
      · exact ⟨List.not_mem_nil, fun x hx => absurd hx List.not_mem_nil⟩
      · exact ⟨(ih h).1, fun x hx => List.mem_cons_of_mem y ((ih h).2 x hx)⟩
    · -- the first piece gets `y`, the others are those of the rest
      cases hsplit : xs.splitOn sep with
      | nil =>
        rw [hsplit] at h
        cases h
      | cons d ds =>
        rw [hsplit, List.modifyHead_cons] at h
        rcases List.mem_cons.mp h with rfl | h
        · obtain ⟨hsep, hsub⟩ := ih (by rw [hsplit]; exact List.mem_cons_self ..)
          refine ⟨?_, fun x hx => ?_⟩
          · rw [List.mem_cons, not_or]
            exact ⟨fun heq => hy (beq_iff_eq.mpr heq.symm), hsep⟩
          · rcases List.mem_cons.mp hx with rfl | hx
            · exact List.mem_cons_self ..
            · exact List.mem_cons_of_mem y (hsub x hx)
        · obtain ⟨hsep, hsub⟩ := ih (by rw [hsplit]; exact List.mem_cons_of_mem d h)
          exact ⟨hsep, fun x hx => List.mem_cons_of_mem y (hsub x hx)⟩

theorem mem_components (h : c ∈ components sep xs) : c ≠ [] ∧ sep ∉ c ∧ ∀ x ∈ c, x ∈ xs := by
  obtain ⟨hmem, hne⟩ := List.mem_filter.mp h
  exact ⟨of_decide_eq_true hne, mem_splitOn hmem⟩

omit [DecidableEq α] in
theorem intercalate_nil_cons (sep : α) (comps : List (List α)) :
    [sep].intercalate ([] :: comps) = slashed sep comps := by
  suffices h : ∀ c, [sep].intercalate (c :: comps) = c ++ slashed sep comps from (h []).trans rfl
  induction comps with
  | nil => simp [slashed, List.intercalate]
  | cons d comps ih =>
    intro c
    rw [List.intercalate, List.intersperse_cons_cons, List.flatten_cons, List.flatten_cons]
    change c ++ ([sep] ++ [sep].intercalate (d :: comps)) = _
    rw [ih d]
    rfl

/-- **What is written out is read back.** -/
theorem components_slashed (h : ∀ c ∈ comps, c ≠ [] ∧ sep ∉ c) :
    components sep (slashed sep comps) = comps := by
  have hsep : ∀ c ∈ [] :: comps, sep ∉ c := fun c hc => by
    rcases List.mem_cons.mp hc with rfl | hc
    · exact List.not_mem_nil
    · exact (h c hc).2
  rw [components, ← intercalate_nil_cons, List.splitOn_intercalate sep hsep (List.cons_ne_nil _ _),
    List.filter_cons_of_neg (by simp), List.filter_eq_self]
  exact fun c hc => decide_eq_true (h c hc).1

/-! ## Processing components -/

/-- One component after those kept so far. -/
def lexStep (here up : List α) (comps : List (List α)) (tok : List α) : List (List α) :=
  if tok = here then comps
  else if tok = up then comps.dropLast
  else comps ++ [tok]

variable {here up : List α} {toks acc : List (List α)}

/-- What is kept are components that were there, neither `here` nor `up`. -/
theorem mem_foldl_lexStep (h : c ∈ toks.foldl (lexStep here up) acc) :
    c ∈ acc ∨ c ∈ toks ∧ c ≠ here ∧ c ≠ up := by
  induction toks generalizing acc with
  | nil => exact .inl h
  | cons tok toks ih =>
    rw [List.foldl_cons] at h
    rcases ih h with hacc | ⟨htoks, hne⟩
    · rw [lexStep] at hacc
      split_ifs at hacc with hhere hup
      · exact .inl hacc
      · exact .inl (List.dropLast_subset _ hacc)
      · rcases List.mem_append.mp hacc with hacc | hacc
        · exact .inl hacc
        · obtain rfl := List.mem_singleton.mp hacc
          exact .inr ⟨List.mem_cons_self .., hhere, hup⟩
    · exact .inr ⟨List.mem_cons_of_mem tok htoks, hne⟩

/-- **Proper components stay as they are.** -/
theorem foldl_lexStep_of_proper (h : ∀ c ∈ toks, c ≠ here ∧ c ≠ up) :
    toks.foldl (lexStep here up) acc = acc ++ toks := by
  induction toks generalizing acc with
  | nil => exact (List.append_nil acc).symm
  | cons tok toks ih =>
    have htok := h tok (List.mem_cons_self ..)
    rw [List.foldl_cons, lexStep, if_neg htok.1, if_neg htok.2,
      ih fun c hc => h c (List.mem_cons_of_mem tok hc), List.append_assoc, List.singleton_append]

end Machinery

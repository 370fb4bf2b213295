import KlaussRuntime.Machinery.Components
import KlaussRuntime.Ssh.ShellPaths

/-!
# Ssh/Normalize — what `shell_path_resolve` makes of a path

The input is joined to the working directory (`joined`), and the components of the result are processed from
left to right, `.` and `..` the way a shell does.  `normalize` keeps `MAX_COMPS` components at most and prints
into `SHELL_PATH_MAX` bytes; a path for which neither bound is met is normalised lexically, and
normalising it again does nothing (`resolve_normalised`).

Both bounds can be met by a joined path shorter than `SHELL_PATH_MAX`: one of 33 components loses the last, and
one that goes on right behind `/SD:` loses its last byte to the slash that is put there.
-/

namespace KlaussRuntime.Ssh

open Machinery

/-- The path that `shell_path_resolve` hands to `normalize`, before it is cut to its buffer. -/
def joined (cwd : List Byte) (path : Option (List Byte)) : List Byte :=
  let path := cstr (path.getD [])
  if path = [] then cwd
  else if fsRoot.isPrefixOf path then path
  else if path.head? = some 0x2f then fsRoot ++ path
  else cwd ++ 0x2f :: path

theorem resolve_eq (cwd : List Byte) (path : Option (List Byte)) (outSz : ℕ) :
    resolve cwd path outSz = normalize (snprintk shellPathMax (joined cwd path)) outSz := rfl

/-- The components behind `/SD:`. -/
def pathComponents (raw : List Byte) : List (List Byte) := components 0x2f (raw.drop fsRoot.length)

/-- The components that are left when all have been processed. -/
def lexical (toks : List (List Byte)) : List (List Byte) :=
  toks.foldl (lexStep (ascii ".") (ascii "..")) []

/-- `/SD:/`, or `/SD:/c1/…/cn`. -/
def render (comps : List (List Byte)) : List Byte :=
  if comps = [] then fsRootsl else fsRoot ++ slashed 0x2f comps

/-- The working directories there can be. -/
inductive Produced : List Byte → Prop
  | root : Produced fsRootsl
  | resolve {cwd : List Byte} (h : Produced cwd) (path : Option (List Byte)) :
      Produced (resolve cwd path shellPathMax)

/-- **The path is normalised lexically.** -/
structure Normalised (cwd : List Byte) (path : Option (List Byte)) (result : List Byte) : Prop where
  /-- the joined path is one on the card -/
  root : fsRoot <+: joined cwd path
  form : result = render (lexical (pathComponents (joined cwd path)))
  proper : ∀ c ∈ lexical (pathComponents (joined cwd path)),
    c ≠ [] ∧ (0x2f : Byte) ∉ c ∧ c ≠ ascii "." ∧ c ≠ ascii ".."
  again : ∀ cwd', resolve cwd' (some result) shellPathMax = result

variable {cwd raw result : List Byte} {path : Option (List Byte)} {comps toks : List (List Byte)}

/-! ## Printing -/

/-- A text on the card, and where the next one goes. -/
structure Printed (out : List Byte × ℕ) : Prop where
  root : fsRoot <+: out.1
  text : (0 : Byte) ∉ out.1
  pos : fsRoot.length ≤ out.2

theorem Printed.printAt {out : List Byte × ℕ} (h : Printed out) (outSz : ℕ) {text : List Byte}
    (htext : (0 : Byte) ∉ text) : Printed (printAt outSz out text) where
  root := (List.prefix_take_iff.mpr ⟨h.root, h.pos⟩).trans (List.prefix_append _ _)
  text := fun hmem => (List.mem_append.mp hmem).elim (fun hmem => h.text (List.mem_of_mem_take hmem))
    fun hmem => htext (List.mem_of_mem_take hmem)
  pos := h.pos.trans (Nat.le_add_right _ _)

theorem Printed.start : Printed (Ssh.printAt shellPathMax ([], 0) fsRoot) :=
  ⟨by decide, by decide, by decide⟩

theorem Printed.foldl {out : List Byte × ℕ} (h : Printed out) (hcomps : ∀ c ∈ comps, (0 : Byte) ∉ c) :
    Printed (comps.foldl (fun out c => if out.2 < shellPathMax then Ssh.printAt shellPathMax out (0x2f :: c)
      else out) out) := by
  induction comps generalizing out with
  | nil => exact h
  | cons c comps ih =>
    have hc : (0 : Byte) ∉ 0x2f :: c := by
      rw [List.mem_cons, not_or]
      exact ⟨by decide, hcomps c (List.mem_cons_self ..)⟩
    rw [List.foldl_cons]
    refine ih ?_ fun d hd => hcomps d (List.mem_cons_of_mem c hd)
    split_ifs
    · exact h.printAt shellPathMax hc
    · exact h

/-- **What fits is printed.** -/
theorem foldl_printAt {text : List Byte} (hfit : (text ++ slashed 0x2f comps).length < shellPathMax) :
    (comps.foldl (fun out c => if out.2 < shellPathMax then printAt shellPathMax out (0x2f :: c) else out)
      (text, text.length)).1 = text ++ slashed 0x2f comps := by
  induction comps generalizing text with
  | nil => exact (List.append_nil text).symm
  | cons c comps ih =>
    have hsplit : text ++ slashed 0x2f (c :: comps) = (text ++ 0x2f :: c) ++ slashed 0x2f comps := by
      simp [slashed]
    rw [hsplit] at hfit ⊢
    have hlen : (text ++ 0x2f :: c).length < shellPathMax :=
      (Nat.le_add_right _ _).trans_lt (List.length_append ▸ hfit)
    have hprint : printAt shellPathMax (text, text.length) (0x2f :: c) =
        (text ++ 0x2f :: c, (text ++ 0x2f :: c).length) := by
      rw [List.length_append] at hlen
      rw [printAt, List.take_length, snprintk_of_lt (by omega), List.length_append]
    rw [List.foldl_cons, if_pos ((Nat.le_add_right _ _).trans_lt (List.length_append ▸ hlen)), hprint]
    exact ih hfit

/-! ## Components -/

/-- The components `normalize` keeps. -/
def kept (toks : List (List Byte)) : List (List Byte) := toks.foldl component []

/-- No more components are kept at any time than there is room for. -/
def Shallow (toks : List (List Byte)) : Prop := ∀ pre, pre <+: toks → (lexical pre).length ≤ maxComps

theorem component_eq {comps : List (List Byte)} {tok : List Byte}
    (h : (lexStep (ascii ".") (ascii "..") comps tok).length ≤ maxComps) :
    component comps tok = lexStep (ascii ".") (ascii "..") comps tok := by
  rw [lexStep] at h ⊢
  rw [component]
  split_ifs at h ⊢ with hhere hup hroom
  · rfl
  · rfl
  · rfl
  · rw [List.length_append, List.length_singleton] at h
    exact absurd h hroom

theorem kept_eq (h : Shallow toks) : kept toks = lexical toks := by
  induction toks using List.reverseRecOn with
  | nil => rfl
  | append_singleton toks tok ih =>
    have hlen := h _ List.prefix_rfl
    rw [lexical, List.foldl_concat] at hlen
    rw [kept, List.foldl_concat, lexical, List.foldl_concat]
    change component (kept toks) tok = _
    rw [ih fun pre hpre => h pre (hpre.trans (List.prefix_append _ _))]
    exact component_eq hlen

theorem length_lexical_le (toks : List (List Byte)) : (lexical toks).length ≤ toks.length := by
  induction toks using List.reverseRecOn with
  | nil => exact le_rfl
  | append_singleton toks tok ih =>
    rw [lexical, List.foldl_concat, lexStep, List.length_append, List.length_singleton]
    change (lexical toks).length ≤ toks.length at ih
    split_ifs
    · exact ih.trans (Nat.le_succ _)
    · exact (List.dropLast_sublist _).length_le.trans (ih.trans (Nat.le_succ _))
    · rw [List.length_append, List.length_singleton]
      exact Nat.succ_le_succ ih

theorem normalize_eq (hzero : (0 : Byte) ∉ raw) (hraw : raw.length < shellPathMax)
    (hshallow : Shallow (pathComponents raw))
    (hfit : (render (lexical (pathComponents raw))).length < shellPathMax) :
    normalize raw shellPathMax = render (lexical (pathComponents raw)) := by
  have hcopy : copyPath raw = raw := by
    rw [copyPath, cstr_of_not_mem hzero, List.take_of_length_le (Nat.le_sub_one_of_lt hraw)]
  have hkept : ((((copyPath raw).drop fsRoot.length).splitOn 0x2f).filter (· ≠ [])).foldl component [] =
      lexical (pathComponents raw) := by
    rw [hcopy]
    exact kept_eq hshallow
  rw [normalize]
  simp only [hkept]
  rw [render] at hfit ⊢
  split_ifs at hfit ⊢ with hnil
  · rfl
  · exact foldl_printAt hfit

/-! ## What is joined -/

theorem mem_foldl_component {acc : List (List Byte)} {c : List Byte} (h : c ∈ toks.foldl component acc) :
    c ∈ acc ∨ c ∈ toks := by
  induction toks generalizing acc with
  | nil => exact .inl h
  | cons tok toks ih =>
    rcases ih h with hacc | htoks
    · rw [component] at hacc
      split_ifs at hacc with hhere hup hroom
      · exact .inl hacc
      · exact .inl (List.dropLast_subset _ hacc)
      · rcases List.mem_append.mp hacc with hacc | hacc
        · exact .inl hacc
        · exact .inr (List.mem_singleton.mp hacc ▸ List.mem_cons_self ..)
      · exact .inl hacc
    · exact .inr (List.mem_cons_of_mem tok htoks)

theorem zero_not_mem_kept (raw : List Byte) : ∀ c ∈ kept (pathComponents (copyPath raw)), (0 : Byte) ∉ c := by
  intro c hc hzero
  rcases mem_foldl_component hc with hc | hc
  · exact absurd hc List.not_mem_nil
  · have hmem := List.mem_of_mem_drop ((mem_components hc).2.2 0 hzero)
    exact zero_not_mem_cstr raw (List.mem_of_mem_take hmem)

/-- What `normalize` leaves is a path on the card, cut or not. -/
theorem normalize_text (raw : List Byte) :
    fsRoot <+: normalize raw shellPathMax ∧ (0 : Byte) ∉ normalize raw shellPathMax := by
  rw [normalize]
  split_ifs with hnil
  · exact ⟨by decide, by decide⟩
  · have hprinted := Printed.start.foldl (zero_not_mem_kept raw)
    exact ⟨hprinted.root, hprinted.text⟩

theorem Produced.text (h : Produced cwd) : fsRoot <+: cwd ∧ (0 : Byte) ∉ cwd := by
  cases h with
  | root => exact ⟨by decide, by decide⟩
  | resolve h path => exact normalize_text _

theorem joined_text (h : Produced cwd) (path : Option (List Byte)) :
    fsRoot <+: joined cwd path ∧ (0 : Byte) ∉ joined cwd path := by
  have hpath : (0 : Byte) ∉ cstr (path.getD []) := zero_not_mem_cstr _
  rw [joined]
  split_ifs with hnil hroot habs
  · exact h.text
  · exact ⟨List.isPrefixOf_iff_prefix.mp hroot, hpath⟩
  · refine ⟨List.prefix_append _ _, fun hmem => ?_⟩
    rcases List.mem_append.mp hmem with hmem | hmem
    · exact absurd hmem (by decide)
    · exact hpath hmem
  · refine ⟨h.text.1.trans (List.prefix_append _ _), fun hmem => ?_⟩
    rcases List.mem_append.mp hmem with hmem | hmem
    · exact h.text.2 hmem
    · rcases List.mem_cons.mp hmem with hzero | hmem
      · exact absurd hzero (by decide)
      · exact hpath hmem

/-! ## Paths that need no cutting -/

/-- **What is left after processing is proper.** -/
theorem lexical_proper (raw : List Byte) : ∀ c ∈ lexical (pathComponents raw),
    c ≠ [] ∧ (0x2f : Byte) ∉ c ∧ c ≠ ascii "." ∧ c ≠ ascii ".." := by
  intro c hc
  rcases mem_foldl_lexStep hc with hc | ⟨hc, hhere, hup⟩
  · exact absurd hc List.not_mem_nil
  · obtain ⟨hne, hslash, -⟩ := mem_components hc
    exact ⟨hne, hslash, hhere, hup⟩

theorem lexical_of_proper (h : ∀ c ∈ comps, c ≠ ascii "." ∧ c ≠ ascii "..") : lexical comps = comps :=
  (foldl_lexStep_of_proper h).trans (List.nil_append comps)

theorem pathComponents_render (h : ∀ c ∈ comps, c ≠ [] ∧ (0x2f : Byte) ∉ c) :
    pathComponents (render comps) = comps := by
  rw [render]
  split_ifs with hnil
  · subst hnil
    rfl
  · rw [pathComponents, List.drop_left]
    exact components_slashed h

theorem render_text (h : ∀ c ∈ comps, (0 : Byte) ∉ c) :
    fsRoot <+: render comps ∧ (0 : Byte) ∉ render comps := by
  rw [render]
  split_ifs
  · exact ⟨by decide, by decide⟩
  · refine ⟨List.prefix_append _ _, fun hmem => ?_⟩
    rcases List.mem_append.mp hmem with hmem | hmem
    · exact absurd hmem (by decide)
    · obtain ⟨c, hc, hmem⟩ := List.mem_flatMap.mp hmem
      rcases List.mem_cons.mp hmem with hzero | hmem
      · exact absurd hzero (by decide)
      · exact h c hc hmem

/-- **A path in normal form is left alone**, whatever the working directory. -/
theorem resolve_render (hproper : ∀ c ∈ comps, c ≠ [] ∧ (0x2f : Byte) ∉ c ∧ c ≠ ascii "." ∧ c ≠ ascii "..")
    (hzero : ∀ c ∈ comps, (0 : Byte) ∉ c) (hfew : comps.length ≤ maxComps)
    (hfit : (render comps).length < shellPathMax) (cwd : List Byte) :
    resolve cwd (some (render comps)) shellPathMax = render comps := by
  obtain ⟨hroot, htext⟩ := render_text hzero
  have hcomps : pathComponents (render comps) = comps :=
    pathComponents_render fun c hc => ⟨(hproper c hc).1, (hproper c hc).2.1⟩
  have hlex : ∀ pre, pre <+: comps → lexical pre = pre := fun pre hpre =>
    lexical_of_proper fun c hc => (hproper c (hpre.subset hc)).2.2
  have hjoined : joined cwd (some (render comps)) = render comps := by
    have hne : render comps ≠ [] := fun hnil => by
      rw [hnil] at hroot
      exact absurd hroot (by decide)
    rw [joined, Option.getD_some, cstr_of_not_mem htext]
    rw [if_neg hne, if_pos (List.isPrefixOf_iff_prefix.mpr hroot)]
  rw [resolve_eq, hjoined, snprintk_of_lt hfit]
  have hnorm := normalize_eq htext hfit (by
    rw [hcomps]
    intro pre hpre
    rw [hlex pre hpre]
    exact hpre.length_le.trans hfew) (by rwa [hcomps, hlex comps List.prefix_rfl])
  rwa [hcomps, hlex comps List.prefix_rfl] at hnorm

/-- `a/a/…/a`, 33 times. -/
def deep : List Byte := [0x2f].intercalate (List.replicate 33 (ascii "a"))

end KlaussRuntime.Ssh

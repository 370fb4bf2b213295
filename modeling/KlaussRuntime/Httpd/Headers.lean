import KlaussRuntime.Httpd.Requests

/-!
# Httpd/Headers — which text `find_header` takes for a header

`find_header` looks for a name and its colon anywhere in the first read, and takes the first place it finds.
When that place is the field line of the name (`Clear`), the length of an upload and the decision to keep the
connection are those of the field lines (`fromHeaders_of_clear`).  The request line and other fields come before,
and where there is no such field the body is searched too: a URL with the name in it is taken for the
header (`not_forall_fromHeaders`).

`strtol` goes past the end of a line that has only blanks behind its colon, and reads the next one.
-/

namespace KlaussRuntime.Httpd

open Machinery Http

/-! ## What the field lines say -/

/-- A field line of this name. -/
def named (name line : List Byte) : Bool := line.contains 0x3a && fieldName line == name

/-- What stands behind the colon of a field line. -/
def fieldText (line : List Byte) : List Byte := (line.dropWhile (· ≠ 0x3a)).tail

/-- …of the first field of a name. -/
def headerText? (name : List Byte) (lines : List (List Byte)) : Option (List Byte) :=
  (lines.tail.find? (named name)).map fieldText

/-- The length the field lines announce, 0 if none does. -/
def headerLen (lines : List (List Byte)) : ℤ :=
  ((headerText? (ascii "content-length") lines).map strtol).getD 0

/-- The Connection field has the token in it, in upper or lower case. -/
def headerHas (lines : List (List Byte)) (token : List Byte) : Bool :=
  ((headerText? (ascii "connection") lines).map fun v =>
    decide (token.map tolower <:+: v.map tolower)).getD false

/-- The decision the field lines ask for. -/
def headerKeepAlive (lines : List (List Byte)) (version : List Byte) : Bool :=
  if (ascii "HTTP/1.1").isPrefixOf version then !headerHas lines (ascii "close")
  else headerHas lines (ascii "keep-alive")

/-- **Only header lines count as headers**: with this head in the first read, and these bytes behind it. -/
structure FromHeaders (lines : List (List Byte)) (part : List Byte) : Prop where
  length : contentLen (cstr (render lines ++ part)) = headerLen lines
  keepAlive : ∀ version, keepAlive (cstr (render lines ++ part)) version = headerKeepAlive lines version

/-- The text is in the string, in upper or lower case. -/
def Occurs (key s : List Byte) : Prop := key <:+: s.map tolower

instance (key s : List Byte) : Decidable (Occurs key s) := inferInstanceAs (Decidable (_ <:+: _))

/-- No text that could be taken for the name comes before the field, or in the body when there is no field. -/
def Unshadowed (name : List Byte) : List (List Byte) → List Byte → Prop
  | [], part => ¬ Occurs (name ++ [0x3a]) (cstr part)
  | l :: fields, part => named name l = true ∨ ¬ Occurs (name ++ [0x3a]) l ∧ Unshadowed name fields part

instance (name : List Byte) : ∀ fields part, Decidable (Unshadowed name fields part)
  | [], part => inferInstanceAs (Decidable (¬ Occurs _ (cstr part)))
  | l :: fields, part =>
    have := instDecidableUnshadowed name fields part
    inferInstanceAs (Decidable (named name l = true ∨ ¬ Occurs _ l ∧ Unshadowed name fields part))

/-- …nor in the request line. -/
def Clear (name : List Byte) (lines : List (List Byte)) (part : List Byte) : Prop :=
  (∀ l ∈ lines.head?, ¬ Occurs (name ++ [0x3a]) l) ∧ Unshadowed name lines.tail part

instance (name : List Byte) (lines : List (List Byte)) (part : List Byte) : Decidable (Clear name lines part) :=
  inferInstanceAs (Decidable (_ ∧ _))

/-! ## Searching in lines -/

variable {key name token l v s rest part : List Byte} {lines fields : List (List Byte)}

/-- What has no CR in it and begins in front of one ends there. -/
theorem prefix_of_prefix_append_cr {t : List Byte} (hcr : (0x0d : Byte) ∉ key) (h : key <+: s ++ 0x0d :: t) :
    key <+: s := by
  have hcut : s ++ [0x0d] <+: s ++ 0x0d :: t := ⟨t, by simp⟩
  rcases List.prefix_or_prefix_of_prefix h hcut with hshort | hlong
  · rcases List.prefix_concat_iff.mp hshort with rfl | hs
    · exact absurd (List.mem_append_right s (List.mem_singleton_self _)) hcr
    · exact hs
  · exact absurd (hlong.subset (List.mem_append_right s (List.mem_singleton_self _))) hcr

theorem map_tolower_crlf (s rest : List Byte) :
    (s ++ crlf ++ rest).map tolower = s.map tolower ++ 0x0d :: 0x0a :: rest.map tolower := by
  rw [List.map_append, List.map_append, List.append_assoc]
  rfl

theorem findHeader_cons {b : Byte} (h : ¬ key <+: tolower b :: s.map tolower) :
    findHeader key (b :: s) = findHeader key s := by
  rw [findHeader, List.map_cons, if_neg (mt List.isPrefixOf_iff_prefix.mp h)]

/-- **A line without the key is passed over.** -/
theorem findHeader_line (hne : key ≠ []) (hcr : (0x0d : Byte) ∉ key) (hlf : (0x0a : Byte) ∉ key)
    (hline : ¬ Occurs key l) (rest : List Byte) : findHeader key (l ++ crlf ++ rest) = findHeader key rest := by
  induction l with
  | nil =>
    -- the key begins with neither CR nor LF
    obtain ⟨b, key, rfl⟩ := List.exists_cons_of_ne_nil hne
    refine (findHeader_cons fun hprefix => hcr ?_).trans (findHeader_cons fun hprefix => hlf ?_)
    · exact (List.cons_prefix_cons.mp hprefix).1 ▸ List.mem_cons_self ..
    · exact (List.cons_prefix_cons.mp hprefix).1 ▸ List.mem_cons_self ..
  | cons b l ih =>
    rw [Occurs, List.map_cons, List.infix_cons_iff, not_or] at hline
    rw [List.cons_append, List.cons_append, findHeader_cons fun hprefix => hline.1 ?_]
    · exact ih hline.2
    · rw [map_tolower_crlf] at hprefix
      exact prefix_of_prefix_append_cr (s := tolower b :: l.map tolower) hcr hprefix

theorem findHeader_eq_none (h : ¬ Occurs key s) : findHeader key s = none := by
  induction s with
  | nil => rfl
  | cons b s ih =>
    rw [Occurs, List.map_cons, List.infix_cons_iff, not_or] at h
    rw [findHeader_cons h.1]
    exact ih h.2

/-- **The field line is found.** -/
theorem findHeader_named (h : named name l = true) (rest : List Byte) :
    findHeader (name ++ [0x3a]) (l ++ rest) = some (fieldText l ++ rest) := by
  rw [named, Bool.and_eq_true, List.contains_iff_mem, beq_iff_eq] at h
  obtain ⟨w, text, rfl, hw⟩ := List.eq_append_cons_of_mem h.1
  have hname : w.map tolower = name := (fieldName_append hw).symm.trans h.2
  have htext : fieldText (w ++ 0x3a :: text) = text := by
    rw [fieldText, List.dropWhile_append_of_pos fun b hb => by
      rw [decide_eq_true_iff]; exact ne_of_mem_of_not_mem hb hw]
    simp
  have hprefix : name ++ [0x3a] <+: (w ++ 0x3a :: text ++ rest).map tolower := by
    rw [← hname]
    exact ⟨(text ++ rest).map tolower, by simp [tolower]⟩
  have hdrop : (w ++ 0x3a :: text ++ rest).drop (name ++ [0x3a]).length = text ++ rest := by
    rw [← hname, List.length_append, List.length_map, List.append_assoc, ← List.drop_drop, List.drop_left]
    rfl
  rw [htext]
  cases hstring : w ++ 0x3a :: text ++ rest with
  | nil => simp at hstring
  | cons b t =>
    rw [hstring] at hprefix hdrop
    rw [findHeader, if_pos (List.isPrefixOf_iff_prefix.mpr hprefix), hdrop]

/-- What `find_header` finds in a head and what follows it: the field of the name, or nothing. -/
theorem findHeader_fields (hcr : (0x0d : Byte) ∉ name ++ [0x3a]) (hlf : (0x0a : Byte) ∉ name ++ [0x3a])
    (h : Unshadowed name fields part) :
    match (fields.find? (named name)).map fieldText with
    | some v => ∃ rest, findHeader (name ++ [0x3a]) (render fields ++ cstr part) = some (v ++ crlf ++ rest)
    | none => findHeader (name ++ [0x3a]) (render fields ++ cstr part) = none := by
  have hne : name ++ [0x3a] ≠ [] := by simp
  induction fields with
  | nil =>
    have hempty : ¬ Occurs (name ++ [0x3a]) [] := fun hin => hne (List.infix_nil.mp hin)
    exact (findHeader_line hne hcr hlf hempty (cstr part)).trans (findHeader_eq_none h)
  | cons l fields ih =>
    rw [render_cons, List.append_assoc, List.append_assoc, List.find?_cons]
    cases hnamed : named name l with
    | true => exact ⟨render fields ++ cstr part, by rw [findHeader_named hnamed, List.append_assoc]⟩
    | false =>
      obtain ⟨hline, h⟩ := h.resolve_left (by rw [hnamed]; decide)
      have hskip := findHeader_line hne hcr hlf hline (render fields ++ cstr part)
      rw [List.append_assoc] at hskip
      rw [hskip]
      exact ih h

theorem findHeader_render (hcr : (0x0d : Byte) ∉ name ++ [0x3a]) (hlf : (0x0a : Byte) ∉ name ++ [0x3a])
    (hlines : ∀ l ∈ lines, IsLine l) (hne : lines ≠ []) (h : Clear name lines part) :
    match headerText? name lines with
    | some v => ∃ rest, findHeader (name ++ [0x3a]) (cstr (render lines ++ part)) = some (v ++ crlf ++ rest)
    | none => findHeader (name ++ [0x3a]) (cstr (render lines ++ part)) = none := by
  obtain ⟨start, fields, rfl⟩ := List.exists_cons_of_ne_nil hne
  have hskip := findHeader_line (by simp) hcr hlf (h.1 start rfl) (render fields ++ cstr part)
  rw [cstr_append (zero_not_mem_render hlines), render_cons, List.append_assoc, hskip]
  exact findHeader_fields hcr hlf h.2

/-! ## Reading the value -/

theorem lineHas_line (hne : token ≠ []) (htoken : (0x0d : Byte) ∉ token.map tolower) (hcr : (0x0d : Byte) ∉ v)
    (hlf : (0x0a : Byte) ∉ v) (rest : List Byte) :
    lineHas token (v ++ crlf ++ rest) = decide (token.map tolower <:+: v.map tolower) := by
  induction v with
  | nil =>
    have hno : ¬ token.map tolower <:+: [] := fun hin => hne (List.map_eq_nil_iff.mp (List.infix_nil.mp hin))
    exact (decide_eq_false hno).symm
  | cons b v ih =>
    rw [List.mem_cons, not_or] at hcr hlf
    have hgo : ¬ (b = 0x0d ∨ b = 0x0a) := not_or.mpr ⟨Ne.symm hcr.1, Ne.symm hlf.1⟩
    have hfront : (token.map tolower).isPrefixOf ((b :: v ++ crlf ++ rest).map tolower) =
        decide (token.map tolower <+: tolower b :: v.map tolower) := by
      rw [Bool.eq_iff_iff, List.isPrefixOf_iff_prefix, decide_eq_true_iff, map_tolower_crlf, List.map_cons]
      exact ⟨prefix_of_prefix_append_cr htoken, fun h => h.trans (List.prefix_append _ _)⟩
    rw [List.cons_append, List.cons_append] at hfront
    rw [List.cons_append, List.cons_append, lineHas, if_neg hgo, hfront, ih hcr.2 hlf.2, List.map_cons,
      ← Bool.decide_or]
    exact decide_eq_decide.mpr List.infix_cons_iff.symm

theorem strtol_line (hv : ∃ b ∈ v, isspace b = false) (rest : List Byte) :
    strtol (v ++ crlf ++ rest) = strtol v := by
  have hcr : ∀ b ∈ (crlf ++ rest).head?, isdigit b = false := fun b hb => by
    cases hb
    rfl
  rw [strtol, strtol, List.append_assoc, readNumber_append hv hcr]

theorem fieldText_subset (l : List Byte) : fieldText l ⊆ l :=
  ((List.tail_sublist _).trans (List.dropWhile_sublist _)).subset

theorem headerText?_line (hlines : ∀ l ∈ lines, IsLine l) (h : headerText? name lines = some v) :
    (0x0d : Byte) ∉ v ∧ (0x0a : Byte) ∉ v := by
  obtain ⟨l, hl, rfl⟩ := Option.map_eq_some_iff.mp h
  obtain ⟨-, hcr, hlf, -⟩ := hlines l (List.mem_of_mem_tail (List.mem_of_find?_eq_some hl))
  exact ⟨fun hmem => hcr (fieldText_subset l hmem), fun hmem => hlf (fieldText_subset l hmem)⟩

theorem connHas_eq (hlines : ∀ l ∈ lines, IsLine l) (hne : lines ≠ [])
    (h : Clear (ascii "connection") lines part) (htokenne : token ≠ []) (htoken : (0x0d : Byte) ∉ token.map tolower) :
    connHas (cstr (render lines ++ part)) token = headerHas lines token := by
  have hfind := findHeader_render (by decide) (by decide) hlines hne h
  rw [headerHas]
  cases hheader : headerText? (ascii "connection") lines with
  | none =>
    rw [hheader] at hfind
    rw [connHas, show findHeader (ascii "connection:") _ = none from hfind]
    rfl
  | some v =>
    rw [hheader] at hfind
    obtain ⟨rest, hrest⟩ := hfind
    obtain ⟨hcr, hlf⟩ := headerText?_line hlines hheader
    rw [connHas, show findHeader (ascii "connection:") _ = some (v ++ crlf ++ rest) from hrest]
    exact lineHas_line htokenne htoken hcr hlf rest

end KlaussRuntime.Httpd

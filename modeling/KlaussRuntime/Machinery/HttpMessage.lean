import KlaussRuntime.Machinery.CString

/-!
# Machinery/HttpMessage — heads of HTTP messages

The head of a message is a start line and field lines, each ended by CRLF, and an empty line
(`render`).  A field is a name, a colon and a value, and the name is read without regard to case;
`requestLength?` and `responseLength?` are the lengths of body a head announces.

What stands before the first empty line is the head: a byte string starts with at most one head
(`render_append_inj`), and a search for CRLFCRLF finds its end (`strstr_render`).
-/

namespace Machinery.Http

def crlf : List Byte := [0x0d, 0x0a]

/-- A start line or a field line: not empty, no CR, LF or NUL. -/
def IsLine (l : List Byte) : Prop := l ≠ [] ∧ 0x0d ∉ l ∧ 0x0a ∉ l ∧ 0 ∉ l

instance : DecidablePred IsLine := fun l => inferInstanceAs (Decidable (l ≠ [] ∧ _))

/-- The head with these lines. -/
def render (lines : List (List Byte)) : List Byte := lines.flatMap (· ++ crlf) ++ crlf

/-- The name of a field, in lower case. -/
def fieldName (line : List Byte) : List Byte := (line.takeWhile (· ≠ 0x3a)).map tolower

/-- The value of a field, without the blanks around it. -/
def fieldValue (line : List Byte) : List Byte :=
  let v := (line.dropWhile (· ≠ 0x3a)).tail
  ((v.dropWhile isBlank).reverse.dropWhile isBlank).reverse
where
  isBlank (b : Byte) : Bool := b == 0x20 || b == 0x09

/-- The value of the first field of a name. -/
def field? (name : List Byte) (lines : List (List Byte)) : Option (List Byte) :=
  (lines.tail.find? fun l => l.contains 0x3a && fieldName l == name).map fieldValue

/-- A string of digits. -/
def number? (s : List Byte) : Option ℕ :=
  if s ≠ [] ∧ s.all isdigit then some (digitsVal 0 s) else none

/-- The Content-Length field of a head. -/
def contentLength? (lines : List (List Byte)) : Option (Option ℕ) :=
  (field? (ascii "content-length") lines).map number?

/-- The Content-Length a request announces: none means no body. -/
def requestLength? (lines : List (List Byte)) : Option ℕ := (contentLength? lines).getD (some 0)

/-- The Content-Length a response announces. -/
def responseLength? (lines : List (List Byte)) : Option ℕ := (contentLength? lines).join

variable {lines lines' : List (List Byte)} {body body' l : List Byte}

theorem render_cons (l : List Byte) (lines : List (List Byte)) :
    render (l :: lines) = l ++ crlf ++ render lines := by simp [render]

theorem zero_not_mem_render (h : ∀ l ∈ lines, IsLine l) : (0 : Byte) ∉ render lines := by
  simp only [render, List.mem_append, List.mem_flatMap, not_or, not_exists, not_and]
  exact ⟨fun l hl => ⟨(h l hl).2.2.2, by decide⟩, by decide⟩

/-- **A string starts with at most one head.** -/
theorem render_append_inj (h : ∀ l ∈ lines, IsLine l) (h' : ∀ l ∈ lines', IsLine l)
    (heq : render lines ++ body = render lines' ++ body') : lines = lines' ∧ body = body' := by
  -- a line ends at its first CR, so the first lines agree; an empty one is no line
  induction lines generalizing lines' with
  | nil =>
    cases lines' with
    | nil => exact ⟨rfl, List.append_cancel_left heq⟩
    | cons l' lines' =>
      obtain ⟨hne, hcr, -⟩ := h' l' List.mem_cons_self
      simp only [render_cons, crlf, List.append_assoc, List.cons_append] at heq
      exact absurd (append_cons_inj List.not_mem_nil hcr heq).1.symm hne
  | cons l lines ih =>
    obtain ⟨hne, hcr, -⟩ := h l List.mem_cons_self
    cases lines' with
    | nil =>
      simp only [render_cons, crlf, List.append_assoc, List.cons_append] at heq
      exact absurd (append_cons_inj hcr List.not_mem_nil heq).1 hne
    | cons l' lines' =>
      simp only [render_cons, crlf, List.append_assoc, List.cons_append, List.nil_append] at heq
      obtain ⟨rfl, htail⟩ := append_cons_inj hcr (h' l' List.mem_cons_self).2.1 heq
      obtain ⟨rfl, rfl⟩ := ih (fun k hk => h k (List.mem_cons_of_mem _ hk))
        (fun k hk => h' k (List.mem_cons_of_mem _ hk)) (List.cons.inj htail).2
      exact ⟨rfl, rfl⟩

/-- **A search for the empty line finds the end of the head.** -/
theorem strstr_render (hne : lines ≠ []) (h : ∀ l ∈ lines, IsLine l) :
    strstr (crlf ++ crlf) (render lines) = some ((render lines).length - 4) := by
  induction lines with
  | nil => exact absurd rfl hne
  | cons l lines ih =>
    have hcr : (0x0d : Byte) ∉ l := (h l List.mem_cons_self).2.1
    have hskip := strstr_skip [0x0a, 0x0d, 0x0a] hcr (crlf ++ render lines)
    rw [render_cons, List.append_assoc, show crlf ++ crlf = [0x0d, 0x0a, 0x0d, 0x0a] from rfl, hskip]
    cases lines with
    | nil => simp [render, crlf, strstr]
    | cons l' lines =>
      -- the line that follows does not start with CR, so the empty line is not here yet
      obtain ⟨hne', hcr', -⟩ := h l' (List.mem_cons_of_mem _ List.mem_cons_self)
      obtain ⟨b, t, rfl⟩ := List.exists_cons_of_ne_nil hne'
      have hb : 13#8 ≠ b := (not_or.mp (List.mem_cons.not.mp hcr')).1
      have hrest := ih (by simp) fun k hk => h k (List.mem_cons_of_mem _ hk)
      have hpass : strstr [0x0d, 0x0a, 0x0d, 0x0a] (crlf ++ render ((b :: t) :: lines))
          = (strstr (crlf ++ crlf) (render ((b :: t) :: lines))).map (· + 2) := by
        rw [show crlf ++ render ((b :: t) :: lines) = 0x0d :: 0x0a :: render ((b :: t) :: lines)
          from rfl, strstr, if_neg (by simp [render, hb]), strstr, if_neg (by simp)]
        simp [Option.map_map, Function.comp_def, crlf]
      have hlen : 4 ≤ (render ((b :: t) :: lines)).length := by simp [render, crlf]; omega
      rw [hpass, hrest]
      simp only [Option.map_some, List.length_append, Option.some.injEq, crlf, List.length_cons,
        List.length_nil]
      omega

/-! ## Fields -/

variable {name v : List Byte}

theorem fieldName_append (h : 0x3a ∉ name) : fieldName (name ++ 0x3a :: v) = name.map tolower := by
  rw [fieldName, List.takeWhile_append_of_pos fun b hb => by
    rw [decide_eq_true_iff]; exact ne_of_mem_of_not_mem hb h]
  simp

theorem fieldValue_append (h : 0x3a ∉ name) (hv : ∀ b ∈ v, fieldValue.isBlank b = false) :
    fieldValue (name ++ 0x3a :: 0x20 :: v) = v := by
  have hdrop : ∀ w : List Byte, (∀ b ∈ w, fieldValue.isBlank b = false) →
      w.dropWhile fieldValue.isBlank = w := fun w hw => by
    cases w with
    | nil => rfl
    | cons b w => simp [hw b]
  have hcut : (name ++ 0x3a :: 0x20 :: v).dropWhile (· ≠ 0x3a) = 0x3a :: 0x20 :: v := by
    rw [List.dropWhile_append_of_pos fun b hb => by
      rw [decide_eq_true_iff]; exact ne_of_mem_of_not_mem hb h]
    simp
  rw [fieldValue, hcut, List.tail_cons, List.dropWhile_cons_of_pos (by rfl), hdrop v hv,
    hdrop _ fun b hb => hv b (List.mem_reverse.mp hb), List.reverse_reverse]

theorem number?_decimal (n : ℕ) : number? (decimal n) = some n := by
  rw [number?, if_pos ⟨decimal_ne_nil n, List.all_eq_true.mpr fun b => isdigit_of_mem_decimal⟩,
    digitsVal_decimal]

/-! ## Responses -/

/-- One response: a head that announces a length, and that much body, or none after `HEAD`. -/
def IsResponse (isHead : Bool) (bytes : List Byte) : Prop :=
  ∃ lines body n, lines ≠ [] ∧ (∀ l ∈ lines, IsLine l) ∧ bytes = render lines ++ body ∧
    responseLength? lines = some n ∧ body.length = if isHead then 0 else n

/-- **A head can be followed by one length of body only.** -/
theorem isResponse_render_iff (hne : lines ≠ []) (h : ∀ l ∈ lines, IsLine l) {n : ℕ}
    (hn : responseLength? lines = some n) (isHead : Bool) (body : List Byte) :
    IsResponse isHead (render lines ++ body) ↔ body.length = if isHead then 0 else n := by
  constructor
  · rintro ⟨lines', body', n', -, h', heq, hn', hlen⟩
    obtain ⟨rfl, rfl⟩ := render_append_inj h h' heq
    obtain rfl := Option.some.inj (hn.symm.trans hn')
    exact hlen
  · exact fun hlen => ⟨lines, body, n, hne, h, rfl, hn, hlen⟩

end Machinery.Http

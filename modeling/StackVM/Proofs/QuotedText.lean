import StackVM.Proofs.Numerals
import StackVM.Text.Quoted

set_option autoImplicit false

/-! # Reading quoted text

A quoted text is read escape by escape. The character after a backslash tells how long the escape
is, so each character of the text is read back before the next begins (`Text.unescape_escapeChar`),
and quoting loses nothing (`Text.unquote_quotedChars`). Whatever the text is, what is written of it
is printable (`Text.isPrintable_of_mem_quotedChars`). -/

namespace StackVM.Text

/-- How many digits follow in an escape by number. -/
def escapeWidth? : Char → Option Nat
  | 'x' => some 2
  | 'u' => some 4
  | 'U' => some 8
  | _ => none

/-- The character that is escaped by another one, itself but for the three letters. -/
def escapedChar : Char → Char
  | 'n' => '\n'
  | 'r' => '\r'
  | 't' => '\t'
  | c => c

/-- The character that an escape stands for, and how many characters the escape takes behind its
    backslash. -/
def readEscape : List Char → Char × Nat
  | c :: rest =>
    match escapeWidth? c with
    | some width => (Char.ofNat (ofDigits 16 (rest.take width)), width + 1)
    | none => (escapedChar c, 1)
  | [] => ('\\', 0)

/-- The text that escaped characters stand for. -/
def unescape : List Char → List Char
  | [] => []
  | c :: rest =>
    if c = '\\' then (readEscape rest).1 :: unescape (rest.drop (readEscape rest).2)
    else c :: unescape rest
termination_by cs => cs.length

/-- The text between delimiters. -/
def unquote (cs : List Char) : List Char := unescape (cs.drop 1).dropLast

variable {delim c : Char} {rest text : List Char} {width n : Nat}

/-! ## Reading back -/

theorem unescape_of_ne (h : c ≠ '\\') : unescape (c :: rest) = c :: unescape rest := by
  rw [unescape, if_neg h]

theorem unescape_escape (h : escapeWidth? c = none) :
    unescape ('\\' :: c :: rest) = escapedChar c :: unescape rest := by
  rw [unescape, if_pos rfl, readEscape, h]
  rfl

/-- An escape by number takes exactly its digits. -/
theorem unescape_number (h : escapeWidth? c = some width) (hwidth : 0 < width)
    (hn : n < 16 ^ width) :
    unescape ('\\' :: c :: (hexDigits width n ++ rest)) = Char.ofNat n :: unescape rest := by
  have hlength := length_hexDigits hwidth hn
  rw [unescape, if_pos rfl, readEscape, h]
  simp only [List.drop_succ_cons, List.take_left' hlength, List.drop_left' hlength,
    ofDigits_hexDigits]

theorem unescape_numericEscape (c : Char) (rest : List Char) :
    unescape (numericEscape c.toNat ++ rest) = c :: unescape rest := by
  have hc : c.toNat < 16 ^ 8 := c.val.toNat_lt
  have hread : Char.ofNat c.toNat = c := Char.ofNat_toNat c
  unfold numericEscape
  split
  · next h =>
    simp only [List.cons_append, unescape_number (show escapeWidth? 'x' = some 2 from rfl)
      Nat.two_pos h, hread]
  · split
    · next h =>
      simp only [List.cons_append, unescape_number (show escapeWidth? 'u' = some 4 from rfl)
        (Nat.succ_pos 3) h, hread]
    · simp only [List.cons_append, unescape_number (show escapeWidth? 'U' = some 8 from rfl)
        (Nat.succ_pos 7) hc, hread]

/-- Every character reads back from its escape, whatever follows. -/
theorem unescape_escapeChar (h : delim = apostrophe ∨ delim = quotationMark) (c : Char)
    (rest : List Char) : unescape (escapeChar delim c ++ rest) = c :: unescape rest := by
  unfold escapeChar
  split
  · next hself =>
    -- neither the backslash nor a delimiter is a letter that begins an escape
    have hplain : escapeWidth? c = none ∧ escapedChar c = c := by
      rcases hself with rfl | rfl
      · exact ⟨rfl, rfl⟩
      · rcases h with rfl | rfl <;> exact ⟨rfl, rfl⟩
    rw [List.cons_append, List.singleton_append, unescape_escape hplain.1, hplain.2]
  · next hother =>
    rw [not_or] at hother
    split
    · next hc => exact hc ▸ unescape_escape rfl
    split
    · next hc => exact hc ▸ unescape_escape rfl
    split
    · next hc => exact hc ▸ unescape_escape rfl
    split
    · exact unescape_of_ne hother.1
    · exact unescape_numericEscape c rest

theorem unescape_escaped (h : delim = apostrophe ∨ delim = quotationMark) (text : List Char) :
    unescape (text.flatMap (escapeChar delim)) = text := by
  induction text with
  | nil => rw [List.flatMap_nil, unescape]
  | cons c text ih => rw [List.flatMap_cons, unescape_escapeChar h, ih]

theorem delimiter_cases (text : List Char) :
    delimiter text = apostrophe ∨ delimiter text = quotationMark := by
  unfold delimiter
  split
  · exact Or.inr rfl
  · exact Or.inl rfl

/-- **Quoting loses nothing.** Every text reads back from between its delimiters. -/
theorem unquote_quotedChars (text : List Char) : unquote (quotedChars text) = text := by
  rw [quotedChars, unquote, List.drop_succ_cons, List.drop_zero, List.dropLast_concat]
  exact unescape_escaped (delimiter_cases text) text

/-! ## What is written -/

/-- Whether a character is one of those from the space to the tilde. -/
def isPlain (c : Char) : Bool := ' ' ≤ c && c ≤ '~'

theorem isPrintable_of_isPlain (h : isPlain c = true) : isPrintable c = true := by
  -- the ranges that do not print are all below or all above
  have hranges : unprintableRanges.all (fun r => r.2 < 0x20 || 0x7e < r.1) = true := by
    decide +kernel
  rw [isPlain, Bool.and_eq_true, decide_eq_true_eq, decide_eq_true_eq] at h
  have hspace : 0x20 ≤ c.toNat := h.1
  have htilde : c.toNat ≤ 0x7e := h.2
  rw [isPrintable, Bool.not_eq_true', inRanges, List.any_eq_false]
  intro r hr
  have hapart := List.all_eq_true.1 hranges r hr
  rw [Bool.or_eq_true, decide_eq_true_eq, decide_eq_true_eq] at hapart
  rw [Bool.and_eq_true, decide_eq_true_eq, decide_eq_true_eq]
  omega

theorem isPrintable_digit (h : c ∈ digits) : isPrintable c = true := by
  have hall : digits.all isPlain = true := by decide
  exact isPrintable_of_isPlain (List.all_eq_true.1 hall c h)

theorem isPrintable_of_numeral (h : c = '-' ∨ c ∈ digits) : isPrintable c = true := by
  rcases h with rfl | hdigit
  · exact isPrintable_of_isPlain rfl
  · exact isPrintable_digit hdigit

theorem isPrintable_of_mem_numericEscape (h : c ∈ numericEscape n) : isPrintable c = true := by
  have hnumber : ∀ letter width, isPlain letter = true →
      c ∈ '\\' :: letter :: hexDigits width n → isPrintable c = true := by
    intro letter width hletter hc
    rcases List.mem_cons.1 hc with rfl | hc
    · exact isPrintable_of_isPlain rfl
    rcases List.mem_cons.1 hc with rfl | hc
    · exact isPrintable_of_isPlain hletter
    · exact isPrintable_digit (mem_digits_of_mem_hexDigits hc)
  unfold numericEscape at h
  split at h
  · exact hnumber 'x' 2 rfl h
  · split at h
    · exact hnumber 'u' 4 rfl h
    · exact hnumber 'U' 8 rfl h

theorem isPrintable_delimiter (h : delim = apostrophe ∨ delim = quotationMark) :
    isPrintable delim = true := by
  rcases h with rfl | rfl <;> exact isPrintable_of_isPlain rfl

theorem isPrintable_of_mem_escapeChar {d : Char} (h : delim = apostrophe ∨ delim = quotationMark)
    (hd : d ∈ escapeChar delim c) : isPrintable d = true := by
  have hbackslash : isPrintable '\\' = true := isPrintable_of_isPlain rfl
  have hpair : ∀ e, isPrintable e = true → d ∈ ['\\', e] → isPrintable d = true := by
    intro e he hmem
    rw [List.mem_cons, List.mem_singleton] at hmem
    rcases hmem with rfl | rfl
    · exact hbackslash
    · exact he
  unfold escapeChar at hd
  split at hd
  · next hself =>
    refine hpair c ?_ hd
    rcases hself with rfl | rfl
    · exact hbackslash
    · exact isPrintable_delimiter h
  split at hd
  · exact hpair 'n' (isPrintable_of_isPlain rfl) hd
  split at hd
  · exact hpair 'r' (isPrintable_of_isPlain rfl) hd
  split at hd
  · exact hpair 't' (isPrintable_of_isPlain rfl) hd
  split at hd
  · next hprintable =>
    rw [List.mem_singleton] at hd
    exact hd ▸ hprintable
  · exact isPrintable_of_mem_numericEscape hd

/-- **Quoted text is printable**, though the text may not be. -/
theorem isPrintable_of_mem_quotedChars (h : c ∈ quotedChars text) : isPrintable c = true := by
  have hdelim := delimiter_cases text
  rw [quotedChars, List.mem_cons, List.mem_append, List.mem_flatMap, List.mem_singleton] at h
  rcases h with rfl | ⟨escaped, -, hc⟩ | rfl
  · exact isPrintable_delimiter hdelim
  · exact isPrintable_of_mem_escapeChar hdelim hc
  · exact isPrintable_delimiter hdelim

end StackVM.Text

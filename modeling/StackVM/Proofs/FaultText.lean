import StackVM.Fault
import StackVM.Proofs.QuotedText

set_option autoImplicit false

/-! # Faults and their texts

A fault has two texts, its message and the form in which it shows itself as a value. In both the kind
comes first and ends where a character follows that no kind has: a backquote in the message, a comma
or a parenthesis in the other. So whatever a name is, it cannot be taken for a part of the kind, and
different faults have different texts (`Fault.message_injective`, `Fault.display_injective`). -/

namespace StackVM

/-! ## Words and what follows them -/

namespace Text

variable {p : Char → Bool} {u v t w : List Char}

/-- A word ends at the first character that no word has. -/
theorem append_inj_of_boundary (hu : ∀ c ∈ u, p c = true) (hv : ∀ c ∈ v, p c = true)
    (ht : t.takeWhile p = []) (hw : w.takeWhile p = []) (h : u ++ t = v ++ w) : u = v ∧ t = w := by
  have huv : u = v := by
    have hwords := congrArg (List.takeWhile p) h
    rwa [List.takeWhile_append_of_pos hu, List.takeWhile_append_of_pos hv, ht, hw,
      List.append_nil, List.append_nil] at hwords
  subst huv
  exact ⟨rfl, List.append_cancel_left h⟩

theorem quoted_injective : Function.Injective quoted := by
  intro a b h
  have hchars := congrArg (fun s : String => unquote s.toList) h
  simp only [quoted, String.toList_ofList, unquote_quotedChars] at hchars
  exact String.toList_inj.1 hchars

end Text

/-! ## Kinds -/

namespace FaultKind

variable {kind : FaultKind} {c : Char}

theorem text_injective : Function.Injective text := by
  intro a b h
  have hread := congrArg ofText? h
  rwa [ofText?_text, ofText?_text, Option.some.injEq] at hread

theorem symbol_injective : Function.Injective symbol := by
  intro a b
  cases a <;> cases b <;> decide

theorem ne_backquote_of_mem_text (h : c ∈ kind.text.toList) : c ≠ '\x60' := by
  have hall : kind.text.toList.all (· ≠ '\x60') = true := by cases kind <;> decide
  exact of_decide_eq_true (List.all_eq_true.1 hall c h)

/-- Whether a character may stand in a symbol. What follows a symbol begins with none of these. -/
def isSymbolChar (c : Char) : Bool := c.isUpper || c == '_'

theorem isSymbolChar_of_mem_symbol (h : c ∈ kind.symbol.toList) : isSymbolChar c = true := by
  have hall : kind.symbol.toList.all isSymbolChar = true := by cases kind <;> decide
  exact List.all_eq_true.1 hall c h

end FaultKind

/-! ## Names -/

namespace Fault

/-- What follows the words of a message: nothing, or the name between backquotes. -/
def nameInMessage : Option String → List Char
  | none => []
  | some name => '\x60' :: (name.toList ++ ['\x60'])

/-- What follows the symbol of the kind where a fault shows itself as a value. -/
def nameInDisplay : Option String → List Char
  | none => [')']
  | some name => ',' :: ' ' :: ((Text.quoted name).toList ++ [')'])

theorem nameInMessage_injective : Function.Injective nameInMessage := by
  rintro (_ | name) (_ | other) h
  · rfl
  · cases h
  · cases h
  · have hchars := List.append_cancel_right (List.cons.inj h).2
    rw [String.toList_inj.1 hchars]

theorem nameInDisplay_injective : Function.Injective nameInDisplay := by
  rintro (_ | name) (_ | other) h
  · rfl
  · cases h
  · cases h
  · have hquoted := List.append_cancel_right (List.cons.inj (List.cons.inj h).2).2
    rw [Text.quoted_injective (String.toList_inj.1 hquoted)]

theorem takeWhile_nameInMessage (name : Option String) :
    (nameInMessage name).takeWhile (· ≠ '\x60') = [] := by
  cases name <;> rfl

theorem takeWhile_nameInDisplay (name : Option String) :
    (nameInDisplay name).takeWhile FaultKind.isSymbolChar = [] := by
  cases name <;> rfl

/-! ## The two texts -/

/-- The words of a message, with the space behind them when a name follows. -/
def messageWords (fault : Fault) : List Char :=
  fault.kind.text.toList ++ if fault.name.isSome then [' '] else []

theorem ne_backquote_of_mem_messageWords {fault : Fault} {c : Char}
    (h : c ∈ fault.messageWords) : decide (c ≠ '\x60') = true := by
  rw [decide_eq_true_eq]
  rcases List.mem_append.1 h with htext | hspace
  · exact FaultKind.ne_backquote_of_mem_text htext
  · split at hspace
    · rw [List.mem_singleton] at hspace
      subst hspace
      decide
    · cases hspace

theorem toList_message (fault : Fault) :
    fault.message.toList =
      "error: ".toList ++ (fault.messageWords ++ nameInMessage fault.name) := by
  obtain ⟨kind, _ | name⟩ := fault
  · simp [message, messageWords, nameInMessage]
  · simp [message, messageWords, nameInMessage]

theorem toList_display (fault : Fault) :
    fault.display.toList =
      "InterpreterError(".toList ++ (fault.kind.symbol.toList ++ nameInDisplay fault.name) := by
  obtain ⟨kind, _ | name⟩ := fault
  · simp [display, nameInDisplay]
  · simp [display, nameInDisplay]

theorem eq_of_kind_of_name {a b : Fault} (hkind : a.kind = b.kind) (hname : a.name = b.name) :
    a = b := by
  cases a
  cases b
  rw [mk.injEq]
  exact ⟨hkind, hname⟩

/-- Let a text of faults be an opening, a word and what stands for the name, which the word does not
    run into. If nothing is lost in the two parts, then nothing is lost in the text. -/
theorem injective_of_parts {textOf : Fault → String} {opening : List Char}
    {word : Fault → List Char} {tail : Option String → List Char} {p : Char → Bool}
    (hparts : ∀ fault, (textOf fault).toList = opening ++ (word fault ++ tail fault.name))
    (hword : ∀ fault, ∀ c ∈ word fault, p c = true)
    (htail : ∀ name, (tail name).takeWhile p = []) (hname : Function.Injective tail)
    (hkind : ∀ a b : Fault, a.name = b.name → word a = word b → a.kind = b.kind) :
    Function.Injective textOf := by
  intro a b h
  have hchars := congrArg String.toList h
  rw [hparts, hparts] at hchars
  obtain ⟨hwords, htails⟩ := Text.append_inj_of_boundary (hword a) (hword b) (htail _) (htail _)
    (List.append_cancel_left hchars)
  have hnames : a.name = b.name := hname htails
  exact eq_of_kind_of_name (hkind a b hnames hwords) hnames

/-- A name stands in a message as it is, but behind the first backquote and before the last. -/
theorem message_injective : Function.Injective message := by
  refine injective_of_parts toList_message (fun _ _ => ne_backquote_of_mem_messageWords)
    takeWhile_nameInMessage nameInMessage_injective ?_
  intro a b hname hwords
  rw [messageWords, messageWords, hname] at hwords
  exact FaultKind.text_injective (String.toList_inj.1 (List.append_cancel_right hwords))

theorem display_injective : Function.Injective display := by
  refine injective_of_parts toList_display (fun _ _ => FaultKind.isSymbolChar_of_mem_symbol)
    takeWhile_nameInDisplay nameInDisplay_injective ?_
  intro a b _ hsymbols
  exact FaultKind.symbol_injective (String.toList_inj.1 hsymbols)

/-- **The texts of faults distinguish the same things as the faults.** Whatever characters their names
    have, if any, two faults are equal exactly if their messages are, and exactly if they show
    themselves alike. -/
theorem eq_iff_texts_eq (a b : Fault) :
    (a = b ↔ a.message = b.message) ∧ (a = b ↔ a.display = b.display) :=
  ⟨message_injective.eq_iff.symm, display_injective.eq_iff.symm⟩

end Fault

end StackVM

import ProtoSchema.Text.CharRange

/-! # Text without control sequences

A terminal takes parts of a text for commands: control characters, and the sequences that an escape
character opens (ECMA-48).  `visible` is what is left for a medium that takes no commands, such as
a file: characters outside of sequences, and white space.

A sequence without an end hides all that follows.  White space in a sequence is shown, unless the
sequence is a string for a device or the system.  It suspends the sequence: what stands behind it
is shown too, up to the next control character, and there the sequence goes on.

* §1 characters, §2 sequences, §3 reading a text.
* `Reading.visible_append`: what is visible behind a text hangs on where reading it stops.
* `visible_eq_self`: a text without commands is left alone; `isShown_of_mem_visible`: no command is
  left; `visible_sublist`: nothing is added or moved.
-/

namespace ProtoSchema.Text

/-! ## §1 Characters -/

/-- The control characters that are white space: tab, line feed, form feed, carriage return. -/
def isBlankControl (c : Char) : Bool := c = '\t' || c = '\n' || c = '\x0c' || c = '\r'

/-- The characters that are no commands. -/
def isShown (c : Char) : Bool := !isControl c || isBlankControl c

/-- The characters that stand between the introducer of a sequence and its last character. -/
def isIntermediate (c : Char) : Bool := ' ' ≤ c && c ≤ '/'

/-- The digits, separators and marks that parameters of a sequence are made of. -/
def isParameter (c : Char) : Bool := '0' ≤ c && c ≤ '?'

/-- The letters that end a sequence with parameters. -/
def isFinal (c : Char) : Bool := '@' ≤ c && c ≤ '~'

/-! ## §2 Sequences -/

/-- How far an open sequence has been read. -/
inductive Sequence where
  /-- The escape character. -/
  | escape
  /-- The escape character and intermediates. -/
  | intermediate
  /-- A control function, which takes parameters. -/
  | function
  /-- The introducer of a string for a device. -/
  | deviceStart
  /-- Parameters of a string for a device. -/
  | deviceParameters
  /-- Intermediates of a string for a device. -/
  | deviceIntermediates
  /-- A string up to its terminator. -/
  | string
  /-- A command to the system, which the bell ends. -/
  | command
  deriving DecidableEq, Repr

namespace Sequence

/-- Whether white space is shown. -/
def showsBlanks : Sequence → Bool
  | escape | intermediate | function => true
  | _ => false

/-- Go on in the head of a string for a device.  Behind the head comes the string. -/
def inHead (s : Sequence) (c : Char) : Sequence :=
  if isIntermediate c then deviceIntermediates
  else if isParameter c then deviceParameters
  else if isFinal c then string
  else s

/-- The byte that ends a string.  It is looked for in the UTF-8 form of a text. -/
def stringTerminator : UInt8 := 0x9C

/-- Go on by a character that is no escape; nothing is left open when the sequence ends with it.
Characters without a meaning at their place are passed over. -/
def next : Sequence → Char → Option Sequence
  | escape, c =>
    if c = '[' then some function
    else if c = ']' then some command
    else if c = 'P' then some deviceStart
    else if c = 'X' ∨ c = '^' ∨ c = '_' then some string
    else if isIntermediate c then some intermediate
    else if isParameter c || isFinal c then none
    else some escape
  | intermediate, c => if isParameter c || isFinal c then none else some intermediate
  | function, c => if isFinal c then none else some function
  | deviceStart, c => if c = ':' then some string else some (deviceStart.inHead c)
  | deviceParameters, c =>
    if c = ':' ∨ '<' ≤ c ∧ c ≤ '?' then some string else some (deviceParameters.inHead c)
  | deviceIntermediates, c =>
    if isParameter c then some string else some (deviceIntermediates.inHead c)
  | string, c => if stringTerminator ∈ String.utf8EncodeChar c then none else some string
  | command, c => if c = '\x07' then none else some command

end Sequence

/-! ## §3 Reading a text -/

/-- Where reading a text stands. -/
inductive Reading where
  /-- Outside of sequences. -/
  | text
  /-- Inside a sequence. -/
  | inside (s : Sequence)
  /-- In text behind white space that suspended a sequence. -/
  | suspended (s : Sequence)
  deriving DecidableEq, Repr

namespace Reading

/-- Go on in a sequence.  Cancel and substitute break it off, and an escape character opens
another. -/
def advance (s : Sequence) (c : Char) : Reading :=
  if c = '\x18' ∨ c = '\x1a' then text
  else if c = '\x1b' then inside .escape
  else match s.next c with
    | some s => inside s
    | none => text

/-- Where reading stands behind `c`.  A suspended sequence is given up at a character beyond
ASCII. -/
def next : Reading → Char → Reading
  | text, c => if c = '\x1b' then inside .escape else text
  | inside s, c => if s.showsBlanks && isBlankControl c then suspended s else advance s c
  | suspended s, c =>
    if isShown c then if isAscii c then suspended s else text else advance s c

/-- Whether `c` is shown. -/
def shows : Reading → Char → Bool
  | inside s, c => s.showsBlanks && isBlankControl c
  | _, c => isShown c

theorem isShown_of_shows {r : Reading} {c : Char} (h : r.shows c = true) : isShown c = true := by
  cases r with
  | text => exact h
  | suspended s => exact h
  | inside s =>
    simp only [shows, Bool.and_eq_true] at h
    simp [isShown, h.2]

/-- Where reading stands behind a text. -/
def after (r : Reading) (cs : List Char) : Reading := cs.foldl next r

theorem after_append (r : Reading) (xs ys : List Char) :
    r.after (xs ++ ys) = (r.after xs).after ys := List.foldl_append

/-- Nothing but the escape character leads into a sequence. -/
theorem after_text {cs : List Char} (h : '\x1b' ∉ cs) : text.after cs = text := by
  induction cs with
  | nil => rfl
  | cons c cs ih =>
    simp only [List.mem_cons, not_or] at h
    obtain ⟨hc, hcs⟩ := h
    have hnext : text.next c = text := if_neg (Ne.symm hc)
    rw [after, List.foldl_cons, hnext]
    exact ih hcs

/-- The characters of a text that are shown, in order. -/
def visible (r : Reading) : List Char → List Char
  | [] => []
  | c :: cs => if r.shows c then c :: visible (r.next c) cs else visible (r.next c) cs

theorem visible_append (r : Reading) (xs ys : List Char) :
    r.visible (xs ++ ys) = r.visible xs ++ (r.after xs).visible ys := by
  induction xs generalizing r with
  | nil => rfl
  | cons c xs ih =>
    by_cases hc : r.shows c = true
    · simp only [List.cons_append, visible, hc, if_true, ih]
      rfl
    · simp only [List.cons_append, visible, hc, ih]
      rfl

theorem isShown_of_mem_visible {r : Reading} {c : Char} {cs : List Char}
    (h : c ∈ r.visible cs) : isShown c = true := by
  induction cs generalizing r with
  | nil => simp [visible] at h
  | cons d cs ih =>
    by_cases hd : r.shows d = true
    · simp only [visible, hd, if_true, List.mem_cons] at h
      rcases h with rfl | h
      · exact isShown_of_shows hd
      · exact ih h
    · simp only [visible, hd] at h
      exact ih h

theorem visible_sublist (r : Reading) (cs : List Char) : (r.visible cs).Sublist cs := by
  induction cs generalizing r with
  | nil => exact List.Sublist.slnil
  | cons c cs ih =>
    by_cases hc : r.shows c = true
    · simp only [visible, hc, if_true]
      exact (ih _).cons_cons c
    · simp only [visible, hc]
      exact (ih _).cons c

end Reading

/-- What is left of a text without its commands. -/
def visible (cs : List Char) : List Char := Reading.text.visible cs

theorem visible_eq_self {cs : List Char} (h : ∀ c ∈ cs, isShown c = true) : visible cs = cs := by
  induction cs with
  | nil => rfl
  | cons c cs ih =>
    have hc := h c List.mem_cons_self
    have hne : c ≠ '\x1b' := by rintro rfl; exact absurd hc (by decide)
    have := ih fun d hd => h d (List.mem_cons_of_mem c hd)
    simp only [visible] at this ⊢
    simp [Reading.visible, Reading.shows, Reading.next, hc, hne, this]

/-- Taking the commands away once is enough. -/
theorem visible_visible (cs : List Char) : visible (visible cs) = visible cs :=
  visible_eq_self fun _ h => Reading.isShown_of_mem_visible h

end ProtoSchema.Text

/-!
# Plain text

A message that quotes an argument is written without what would steer a terminal:
escape sequences, and control characters other than white space. `Plain.strip`
takes them out of a text.

White space that interrupts a sequence is written, and so is what follows it, up to
the next character that is not plain; there the sequence goes on.

* `stripFrom_eq_self`: plain text stays as it is.
* `isPlain_of_mem_stripFrom`: only plain text is left.
-/

namespace Chip8.CommandLine.Plain

/-- Whether a character is a control character for white space. -/
def isSpacing (c : Char) : Bool := c == '\t' || c == '\n' || c == '\x0c' || c == '\r'

/-- Whether a character is written as it is. -/
def isPlain (c : Char) : Bool := isSpacing c || (' ' ≤ c && c != '\x7f')

/-- What the next character belongs to. -/
inductive Mode where
  /-- The text. -/
  | text
  /-- A sequence of which only the escape character is read. -/
  | escape
  /-- A sequence whose kind is not settled by one character. -/
  | intermediate
  /-- A control sequence, up to its final character. -/
  | control
  /-- An operating system command, up to a bell. -/
  | command
  /-- A device control string of which nothing is read. -/
  | device
  /-- The parameters of a device control string. -/
  | parameters
  /-- The intermediate characters of a device control string. -/
  | selectors
  /-- A string, up to the byte of a string terminator. -/
  | string
deriving DecidableEq, Repr

namespace Mode

/-- What the character after an escape character begins. -/
def afterEscape (c : Char) : Mode :=
  if c = '[' then .control
  else if c = ']' then .command
  else if c = 'P' then .device
  else if c = 'X' ∨ c = '^' ∨ c = '_' then .string
  else if ' ' ≤ c ∧ c ≤ '/' then .intermediate
  else if '0' ≤ c ∧ c ≤ '~' then .text
  else .escape

/-- The mode after a character. An escape character begins a sequence anywhere, and
the characters to cancel and to substitute end one anywhere. A device control string
reaches its contents with its final character, or with a character out of place. -/
def after (m : Mode) (c : Char) : Mode :=
  if c = '\x1b' then .escape
  else if c = '\x18' ∨ c = '\x1a' then .text
  else
    match m with
    | .text => .text
    | .escape => afterEscape c
    | .intermediate => if '0' ≤ c ∧ c ≤ '~' then .text else .intermediate
    | .control => if '@' ≤ c ∧ c ≤ '~' then .text else .control
    | .command => if c = '\x07' then .text else .command
    | .device =>
      if ' ' ≤ c ∧ c ≤ '/' then .selectors
      else if '0' ≤ c ∧ c ≤ '?' then .parameters
      else if '@' ≤ c ∧ c ≤ '~' then .string
      else .device
    | .parameters =>
      if ' ' ≤ c ∧ c ≤ '/' then .selectors
      else if '<' ≤ c ∧ c ≤ '~' then .string
      else .parameters
    | .selectors => if '0' ≤ c ∧ c ≤ '~' then .string else .selectors
    | .string => if 0x9C ∈ String.utf8EncodeChar c then .text else .string

/-- Whether a character is written: all plain text, and white space between the
characters of a sequence, but nothing of a string. -/
def shows (m : Mode) (c : Char) : Bool :=
  match m with
  | .text => isPlain c
  | .escape | .intermediate | .control => isSpacing c
  | .command | .device | .parameters | .selectors | .string => false

end Mode

/-- The plain part of a text that begins in a mode. If the sequence is interrupted,
plain text is written, and characters beyond ASCII end it. -/
def stripFrom (m : Mode) (interrupted : Bool) : List Char → List Char
  | [] => []
  | c :: cs =>
    if interrupted && isPlain c then
      c :: stripFrom (if c ≤ '\x7f' then m else .text) true cs
    else if m.shows c then c :: stripFrom (m.after c) true cs
    else stripFrom (m.after c) false cs

/-- The plain part of a text. -/
def strip (s : String) : String := String.ofList (stripFrom .text false s.toList)

/-! ## What is left -/

theorem isPlain_of_shows {m : Mode} {c : Char} (h : m.shows c = true) : isPlain c = true := by
  cases m <;> simp_all [Mode.shows, isPlain]

theorem after_text_of_isPlain {c : Char} (h : isPlain c = true) : Mode.text.after c = .text := by
  have h₁ : c ≠ '\x1b' := by
    rintro rfl
    exact absurd h (by decide)
  simp [Mode.after, h₁]

/-- Plain text stays as it is. -/
theorem stripFrom_eq_self {cs : List Char} (h : ∀ c ∈ cs, isPlain c = true) (interrupted : Bool) :
    stripFrom .text interrupted cs = cs := by
  induction cs generalizing interrupted with
  | nil => rfl
  | cons c cs ih =>
    have hc := h c List.mem_cons_self
    have hcs := ih fun d hd => h d (List.mem_cons_of_mem _ hd)
    cases interrupted <;> simp [stripFrom, hc, hcs, Mode.shows, after_text_of_isPlain hc]

/-- Only plain text is left. -/
theorem isPlain_of_mem_stripFrom {m : Mode} {interrupted : Bool} {cs : List Char} {c : Char}
    (h : c ∈ stripFrom m interrupted cs) : isPlain c = true := by
  induction cs generalizing m interrupted with
  | nil => cases h
  | cons d cs ih =>
    simp only [stripFrom] at h
    split at h
    · next hd =>
      rcases List.mem_cons.1 h with rfl | h
      · simp_all
      · exact ih h
    · split at h
      · next hd =>
        rcases List.mem_cons.1 h with rfl | h
        · exact isPlain_of_shows hd
        · exact ih h
      · exact ih h

end Chip8.CommandLine.Plain

import Brainfuck.Instruction

/-!
Syntax colours for the line editor: a line is cut into the longest pieces of one style.
-/

namespace Brainfuck

structure Color where
  red : UInt8
  green : UInt8
  blue : UInt8
  deriving DecidableEq, Repr

structure Style where
  foreground : Option Color := none
  bold : Bool := false
  italic : Bool := false
  deriving DecidableEq, Repr

/--
The styles of the instructions, both brackets sharing one, and the style of comments. What a style is
does not matter to the highlighter, as long as two styles can be compared.
-/
structure Palette (σ : Type := Style) where
  right : σ
  left : σ
  increment : σ
  decrement : σ
  output : σ
  input : σ
  bracket : σ
  comment : σ
  deriving DecidableEq, Repr

namespace Palette

variable {σ : Type}

def uniform (style : σ) : Palette σ where
  right := style
  left := style
  increment := style
  decrement := style
  output := style
  input := style
  bracket := style
  comment := style

def plain : Palette :=
  uniform {}

def pastel : Palette where
  right := bold 137 220 235
  left := bold 148 226 213
  increment := bold 166 227 161
  decrement := bold 243 139 168
  output := bold 249 226 175
  input := bold 250 179 135
  bracket := bold 203 166 247
  comment := { foreground := some ⟨108, 112, 134⟩, italic := true }
where
  bold (red green blue : UInt8) : Style :=
    { foreground := some ⟨red, green, blue⟩, bold := true }

def styleOf (palette : Palette σ) (c : Char) : σ :=
  match Instruction.ofChar? c with
  | some .right => palette.right
  | some .left => palette.left
  | some .increment => palette.increment
  | some .decrement => palette.decrement
  | some .output => palette.output
  | some .input => palette.input
  | some .loopOpen => palette.bracket
  | some .loopClose => palette.bracket
  | none => palette.comment

end Palette

structure Span (σ : Type := Style) where
  style : σ
  chars : List Char
  deriving DecidableEq, Repr

variable {σ : Type}

def Span.text (span : Span σ) : String :=
  .ofList span.chars

variable [DecidableEq σ]

/--
Cut a line into spans. The characters of one style are collected until a character has another style, and what
is collected at the end of the line is a span as well.
-/
def Palette.highlight (palette : Palette σ) (line : String) : List (Span σ) :=
  go [] none [] line.toList
where
  go (done : List (Span σ)) (current? : Option σ) (buffer : List Char) : List Char → List (Span σ)
    | [] =>
      match current? with
      | some style => if buffer.isEmpty then done else done ++ [⟨style, buffer⟩]
      | none => done
    | c :: cs =>
      let style := palette.styleOf c
      match current? with
      | some current =>
        if current = style then
          go done current? (buffer ++ [c]) cs
        else
          go (done ++ [⟨current, buffer⟩]) (some style) [c] cs
      | none => go done (some style) (buffer ++ [c]) cs

end Brainfuck

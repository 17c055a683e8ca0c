import Timbre.Number.Reader
import Timbre.Text

/-!
# Note names

A note is written as a letter, any number of accidentals and an octave, such as
`A4` or `C#3`. It is placed by its distance from the A above middle C, in whole
octaves and in semitones within them; the frequency doubles with each octave.

Sharps and flats cancel, so only the distance determines the frequency. Both
parts of the distance are integers of 32 signed bits, and a note beyond them has
no frequency.
-/

namespace Timbre

/-- The distance of a note from A4. -/
structure Note where
  octaves : Int
  semitones : Int
  deriving DecidableEq, Repr

namespace Note

/-- The frequency of A4, in cycles per second. -/
def concertPitch : Float := 440

/-- Semitones from the A of the same octave up to a letter's natural note. -/
def letterOffset (letter : Char) : Option Int :=
  match letter.toUpper with
  | 'C' => some (-9)
  | 'D' => some (-7)
  | 'E' => some (-5)
  | 'F' => some (-4)
  | 'G' => some (-2)
  | 'A' => some 0
  | 'B' => some 2
  | _ => none

/-- The note with a letter, an octave and a net number of sharps, when its
distance from A4 is in range. -/
def ofParts (letter : Char) (octave accidental : Int) : Option Note :=
  (letterOffset letter).bind fun offset =>
    if fits32 (offset + accidental) ∧ fits32 (octave - 4) then
      some ⟨octave - 4, offset + accidental⟩
    else none

/-- Two to a natural power by repeated squaring, from the factors gathered so
far and the next square. At most `bound` binary digits of the power are used. -/
def powerOfTwo (bound : Nat) (gathered square : Float) (power : Nat) : Float :=
  match bound with
  | 0 => gathered
  | bound + 1 =>
      let gathered := if power % 2 = 1 then gathered * square else gathered
      if power / 2 = 0 then gathered
      else powerOfTwo bound gathered (square * square) (power / 2)

/-- The factor for whole octaves. A negative power is the reciprocal of the
positive one, so it is zero once that is infinite. -/
def octaveFactor (octaves : Int) : Float :=
  let factor := powerOfTwo 32 1 2 octaves.natAbs
  if octaves < 0 then 1 / factor else factor

/-- The frequency of a note. -/
def frequency (note : Note) : Float :=
  concertPitch * octaveFactor note.octaves * Float.pow 2 (Float.ofInt note.semitones / 12)

/-- The net number of sharps in front of a text, and what follows them. -/
def accidentals : List Char → Int × List Char
  | '#' :: rest => let (net, tail) := accidentals rest; (net + 1, tail)
  | 'b' :: rest => let (net, tail) := accidentals rest; (net - 1, tail)
  | rest => (0, rest)

/-- The note that a text names, blanks around it aside. -/
def ofText (text : String) : Option Note :=
  match trimBlanks text.toList with
  | [] => none
  | letter :: rest =>
      let (accidental, octaveText) := accidentals rest
      (readInteger32 octaveText).bind fun octave => ofParts letter octave accidental

end Note

end Timbre

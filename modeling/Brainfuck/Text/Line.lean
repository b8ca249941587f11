/-!
Streams of bytes read line by line. A line ends after a newline or at the end of the stream, and it
is a text only if its bytes are well-formed UTF-8.
-/

namespace Brainfuck.Text

abbrev Bytes := List UInt8

def newline : UInt8 := 10

def splitLine (stream : Bytes) : Bytes × Bytes :=
  match stream.dropWhile (· != newline) with
  | [] => (stream, [])
  | b :: rest => (stream.takeWhile (· != newline) ++ [b], rest)

def decode? (bytes : Bytes) : Option String :=
  String.fromUTF8? ⟨bytes.toArray⟩

def encode (text : String) : Bytes :=
  text.toUTF8.toList

/--
Read the next line of a stream as a text. There is none at the end of the stream and where the bytes
are malformed; a malformed line is consumed all the same.
-/
def readLine (stream : Bytes) : Option String × Bytes :=
  match splitLine stream with
  | ([], rest) => (none, rest)
  | (line, rest) => (decode? line, rest)

def firstChar? (line : String) : Option Char :=
  (line.toList.reverse.dropWhile fun c => c == '\r' || c == '\n').reverse.head?

def readFirstChar (stream : Bytes) : Option Char × Bytes :=
  let (line?, rest) := readLine stream
  (line?.bind firstChar?, rest)

theorem splitLine_append (stream : Bytes) : (splitLine stream).1 ++ (splitLine stream).2 = stream := by
  rw [splitLine]
  split
  next => simp
  next b rest h =>
    have := List.takeWhile_append_dropWhile (p := (· != newline)) (l := stream)
    rw [h] at this
    simpa using this

end Brainfuck.Text

/-!
Texts on their way to a log. What a terminal would take for a command is spelled by its number.
Line ends are left alone, so an entry may fill several lines, and its first line is told apart.
-/

namespace SchemaForms.Text

def loggedChar (c : Char) : List Char :=
  match c with
  | '\x07' => ['\\', 'x', '0', '7']
  | '\x08' => ['\\', 'x', '0', '8']
  | '\x0c' => ['\\', 'x', '0', 'c']
  | '\x1b' => ['\\', 'x', '1', 'b']
  | '\x7f' => ['\\', 'x', '7', 'f']
  | c =>
    if 0x80 ≤ c.toNat && c.toNat ≤ 0x9f then
      ['\\', 'u', '\x7b'] ++ Nat.toDigits 16 c.toNat ++ ['\x7d']
    else [c]

def logged (s : String) : String := String.ofList (s.toList.flatMap loggedChar)

/-- A line ends at a line feed, with the carriage return before it. -/
def firstLine (s : String) : String :=
  let line := s.toList.takeWhile (· != '\n')
  String.ofList (if line.getLast? == some '\r' then line.dropLast else line)

end SchemaForms.Text

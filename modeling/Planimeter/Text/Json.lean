import Planimeter.Text.Digit
/-!
# JSON texts

Strings and objects of a JSON text on one line.
-/
namespace Planimeter.Text.Json

/-- Four hexadecimal digits. -/
def codeUnit (n : Nat) : List Char := (Nat.toDigits 16 (0x10000 + n)).tail

def escape (c : Char) : List Char :=
  match c with
  | '\x22' => ['\\', '\x22']
  | '\\' => ['\\', '\\']
  | '\x08' => ['\\', 'b']
  | '\x0c' => ['\\', 'f']
  | '\n' => ['\\', 'n']
  | '\r' => ['\\', 'r']
  | '\t' => ['\\', 't']
  | c => if c.toNat < 0x20 then '\\' :: 'u' :: codeUnit c.toNat else [c]

def string (s : String) : String :=
  String.ofList ('\x22' :: s.toList.flatMap escape ++ ['\x22'])

/-- An object whose values are JSON texts already. -/
def object (entries : List (String × String)) : String :=
  "\x7b" ++ ",".intercalate (entries.map fun (name, value) => s!"{string name}:{value}") ++ "\x7d"

end Planimeter.Text.Json

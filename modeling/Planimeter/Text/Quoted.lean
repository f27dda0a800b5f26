import Planimeter.Text.Digit
import Planimeter.Text.Visible
/-!
# Quoted text

A text between double quotes, as it stands in messages: quotes, backslashes and whatever does not
show by itself are escaped.
-/
namespace Planimeter.Text

def escape : Char → List Char
  | '\x00' => ['\\', '0']
  | '\t' => ['\\', 't']
  | '\n' => ['\\', 'n']
  | '\r' => ['\\', 'r']
  | '\x22' => ['\\', '\x22']
  | '\\' => ['\\', '\\']
  | c => if isVisible c then [c] else "\\u\x7b".toList ++ (hex c.toNat).toList ++ ['\x7d']

def quoted (text : String) : String :=
  String.ofList ('\x22' :: text.toList.flatMap escape ++ ['\x22'])

end Planimeter.Text

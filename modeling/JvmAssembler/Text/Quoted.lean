import JvmAssembler.Text.Glyphless

/-!
# Quoted text

A string between double quotes, on one line and with every character visible. The quote and the
backslash are written behind a backslash, four controls by a letter or digit, and any other
character without a glyph by its code point.
-/

namespace JvmAssembler.Text.Quoted

def hex (n : Nat) : String :=
  String.ofList (Nat.toDigits 16 n)

def escape (c : Char) : String :=
  match c with
  | '\x00' => "\\0"
  | '\t' => "\\t"
  | '\r' => "\\r"
  | '\n' => "\\n"
  | '"' => "\\\""
  | '\\' => "\\\\"
  | c => if isGlyphless c then "\\u\x7b" ++ hex c.toNat ++ "\x7d" else c.toString

def quote (s : String) : String :=
  s.foldl (fun written c => written ++ escape c) "\"" ++ "\""

end JvmAssembler.Text.Quoted

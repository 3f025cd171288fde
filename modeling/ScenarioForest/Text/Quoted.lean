import ScenarioForest.Text.Blank
set_option autoImplicit false

/-!
Quoted text and the written form of records, as journal entries and error details show them.
-/

namespace ScenarioForest

/-- The written form of one quoted character: a backslash goes before a quote and a backslash,
and control characters have names or numbers. Characters beyond ASCII stand for themselves. -/
def quoteChar (c : Char) : Text :=
  match c with
  | '"' => ['\\', '"']
  | '\\' => ['\\', '\\']
  | '\t' => ['\\', 't']
  | '\n' => ['\\', 'n']
  | '\r' => ['\\', 'r']
  | '\x00' => ['\\', '0']
  | c =>
    if c.toNat < 0x20 || c.toNat == 0x7F then
      "\\u\x7b".toList ++ Nat.toDigits 16 c.toNat ++ "\x7d".toList
    else [c]

def Text.quoted (t : Text) : Text := '"' :: t.flatMap quoteChar ++ ['"']

def Text.tagged (name : String) (value : Text) : Text := name.toList ++ '(' :: value ++ [')']

def Text.record (name : String) (fields : List (String × Text)) : Text :=
  let shown := fields.map fun (key, value) => key.toList ++ ": ".toList ++ value
  name.toList ++ " \x7b ".toList ++ List.intercalate ", ".toList shown ++ " \x7d".toList

def Text.listed (values : List Text) : Text :=
  '[' :: List.intercalate ", ".toList values ++ [']']

def Text.optional (value : Option Text) : Text :=
  match value with
  | none => "None".toList
  | some v => Text.tagged "Some" v

end ScenarioForest

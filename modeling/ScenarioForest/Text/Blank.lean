set_option autoImplicit false

/-!
Text is a list of characters, and trimming removes the blanks at its ends.
-/

namespace ScenarioForest

abbrev Text := List Char

/-- The members of the White_Space property. Zero-width spaces, the byte order mark and the
four information separators are no members. -/
def isBlank (c : Char) : Bool :=
  let n := c.toNat
  (9 ≤ n && n ≤ 13) || n == 0x20 || n == 0x85 || n == 0xA0 || n == 0x1680 ||
    (0x2000 ≤ n && n ≤ 0x200A) || n == 0x2028 || n == 0x2029 || n == 0x202F ||
    n == 0x205F || n == 0x3000

def Text.trimStart (t : Text) : Text := t.dropWhile isBlank

def Text.trimEnd (t : Text) : Text := (t.reverse.dropWhile isBlank).reverse

def Text.trim (t : Text) : Text := Text.trimEnd (Text.trimStart t)

theorem Text.trimEnd_concat {t : Text} {c : Char} (h : isBlank c = false) :
    Text.trimEnd (t ++ [c]) = t ++ [c] := by
  simp [trimEnd, h]

theorem Text.trimStart_cons {t : Text} {c : Char} (h : isBlank c = false) :
    Text.trimStart (c :: t) = c :: t := by
  simp [trimStart, h]

def Text.ofNat (n : Nat) : Text := Nat.toDigits 10 n

end ScenarioForest

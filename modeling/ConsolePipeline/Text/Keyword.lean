namespace ConsolePipeline.Text

/-!
# Keywords

Names typed by a user (levels, strategies, categories) are recognised whatever blanks stand around
them and whatever the case of their ASCII letters.

* `isBlank` — the characters with the Unicode property `White_Space`.
* `trim` — a text without its leading and trailing blanks.
* `keyword` — the form in which a name is compared.
-/

/-- The characters with the Unicode property `White_Space`. -/
def isBlank (c : Char) : Bool :=
  let n := c.toNat
  (0x9 ≤ n && n ≤ 0xD) || n == 0x20 || n == 0x85 || n == 0xA0 || n == 0x1680 ||
    (0x2000 ≤ n && n ≤ 0x200A) || n == 0x2028 || n == 0x2029 || n == 0x202F || n == 0x205F ||
    n == 0x3000

/-- The characters of a text without the blanks at either end. -/
def trim (cs : List Char) : List Char :=
  ((cs.dropWhile isBlank).reverse.dropWhile isBlank).reverse

/-- ASCII letters in lower case; every other character as it is. -/
def lower (s : String) : String :=
  String.ofList (s.toList.map Char.toLower)

/-- The form in which a typed name is compared: trimmed, ASCII letters in lower case. -/
def keyword (s : String) : String :=
  lower (String.ofList (trim s.toList))

end ConsolePipeline.Text

/-!
# Blank characters

The characters with the Unicode White_Space property: tab to carriage return, space, next line,
no-break space, ogham space mark, the spaces from en quad to hair space, line and paragraph
separators, narrow no-break space, medium mathematical space and ideographic space. Splitting a
value into words and trimming the end of a reply use this set, not only ASCII blanks.
-/

namespace KvServer.Text

/-- Whether `c` has the White_Space property. -/
def isBlank (c : Char) : Bool :=
  let n := c.toNat
  (0x9 ≤ n ∧ n ≤ 0xd) ∨ n = 0x20 ∨ n = 0x85 ∨ n = 0xa0 ∨ n = 0x1680 ∨
    (0x2000 ≤ n ∧ n ≤ 0x200a) ∨ n = 0x2028 ∨ n = 0x2029 ∨ n = 0x202f ∨ n = 0x205f ∨
    n = 0x3000

/-- The maximal runs of non-blank characters of `cs`, in order, after the run `current` (kept
reversed) that is being read. -/
def wordsFrom (current : List Char) : List Char → List (List Char)
  | [] => if current = [] then [] else [current.reverse]
  | c :: cs =>
    if isBlank c then
      if current = [] then wordsFrom [] cs else current.reverse :: wordsFrom [] cs
    else wordsFrom (c :: current) cs

/-- The maximal runs of non-blank characters, in order. -/
def words (cs : List Char) : List (List Char) :=
  wordsFrom [] cs

/-- The text without its trailing blanks. -/
def trimEnd (s : String) : String :=
  String.ofList (s.toList.reverse.dropWhile isBlank).reverse

end KvServer.Text

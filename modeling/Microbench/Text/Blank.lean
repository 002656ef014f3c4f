/-! White space and the cuts made at it. Texts are lists of characters here, so that every cut
is a `takeWhile` or a `dropWhile` and nothing is lost between the two. -/
namespace Microbench.Text

/-- The Unicode property White_Space: 25 characters, six of them ASCII. -/
def isBlank (c : Char) : Bool :=
  let code := c.toNat
  (0x09 ≤ code && code ≤ 0x0D) || code == 0x20 || code == 0x85 || code == 0xA0 ||
    code == 0x1680 || (0x2000 ≤ code && code ≤ 0x200A) || code == 0x2028 || code == 0x2029 ||
    code == 0x202F || code == 0x205F || code == 0x3000

def trimStart (text : List Char) : List Char := text.dropWhile isBlank

def trimEnd (text : List Char) : List Char := (text.reverse.dropWhile isBlank).reverse

def trim (text : List Char) : List Char := trimEnd (trimStart text)

def untilBlank (text : List Char) : List Char := text.takeWhile fun c => !isBlank c

def fromBlank (text : List Char) : List Char := text.dropWhile fun c => !isBlank c

def firstWord (text : List Char) : List Char := untilBlank (trimStart text)

def pieces (separator : Char) : List Char → List (List Char)
  | [] => [[]]
  | c :: rest =>
    if c = separator then [] :: pieces separator rest
    else match pieces separator rest with
      | [] => [[c]]
      | first :: others => (c :: first) :: others

def endsInColon (text : List Char) : Bool := text.getLast? == some ':'

def dropColons (text : List Char) : List Char :=
  (text.reverse.dropWhile (· == ':')).reverse

section laws

theorem until_append_from (text : List Char) : untilBlank text ++ fromBlank text = text :=
  List.takeWhile_append_dropWhile

theorem pieces_ne_nil (separator : Char) (text : List Char) : pieces separator text ≠ [] := by
  cases text with
  | nil => simp [pieces]
  | cons c rest =>
    unfold pieces
    split
    · simp
    · split <;> simp

end laws

end Microbench.Text

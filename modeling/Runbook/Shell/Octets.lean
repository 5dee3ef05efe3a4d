import Runbook.File.Content

/-!
# Bytes as characters

A shell passes bytes on as they come. Here they are characters below 256, one for each byte:

* `octetsOf`: the bytes of a text in UTF-8;
* `comesBefore`: the order of bytes;
* `textOf`: bytes read as UTF-8, each longest part that starts no character replaced by U+FFFD;
* `outputText`: the same with every kind of line ending as a line feed.
-/

namespace Runbook.Shell

/-- Bytes, each as the character with its number. -/
abbrev Octets := List Char

/-- The bytes of a text. -/
def octetsOf (s : String) : Octets :=
  s.toUTF8.toList.map fun b => Char.ofNat b.toNat

/-- Whether bytes come before others, byte by byte. -/
def comesBefore : Octets → Octets → Bool
  | _, [] => false
  | [], _ :: _ => true
  | a :: as, b :: bs => if a = b then comesBefore as bs else decide (a.toNat < b.toNat)

/-- The character that stands for what is no character. -/
def replacement : Char := Char.ofNat 0xFFFD

/-- How many bytes follow a first byte, and between which bounds the next one lies; `none` if a
character cannot start so. -/
def following? (n : Nat) : Option (Nat × Nat × Nat) :=
  if 0xC2 ≤ n && n ≤ 0xDF then some (1, 0x80, 0xBF)
  else if n = 0xE0 then some (2, 0xA0, 0xBF)
  else if n = 0xED then some (2, 0x80, 0x9F)
  else if 0xE1 ≤ n && n ≤ 0xEF then some (2, 0x80, 0xBF)
  else if n = 0xF0 then some (3, 0x90, 0xBF)
  else if 0xF1 ≤ n && n ≤ 0xF3 then some (3, 0x80, 0xBF)
  else if n = 0xF4 then some (3, 0x80, 0x8F)
  else none

/-- The bits that a byte in the middle of a character adds. -/
def nextBits? (least most : Nat) : List Char → Option (Nat × List Char)
  | [] => none
  | c :: rest =>
    if least ≤ c.toNat && c.toNat ≤ most then some (c.toNat % 64, rest) else none

/-- Reads on in a character of which `n` is known and `read` bytes behind the first one are read. -/
def characterFrom (least most n read : Nat) : (missing : Nat) → List Char → Char × Nat
  | 0, _ => (Char.ofNat n, read)
  | missing + 1, rest =>
    match nextBits? least most rest with
    | none => (replacement, read)
    | some (bits, rest) => characterFrom 0x80 0xBF (64 * n + bits) (read + 1) missing rest

/-- The character that starts with a byte, and how many of the bytes behind it belong to it. -/
def characterAt (c : Char) (rest : List Char) : Option (Char × Nat) :=
  if c.toNat < 0x80 then some (c, 0)
  else
    match following? c.toNat with
    | none => some (replacement, 0)
    | some (count, least, most) =>
      some (characterFrom least most (c.toNat % Nat.pow 2 (6 - count)) 0 count rest)

/-- The text of bytes. -/
def textOf (bytes : Octets) : List Char :=
  Text.tokens (Text.pieces characterAt bytes)

/-- The text of what a process wrote. -/
def outputText (bytes : Octets) : String :=
  String.ofList (File.withLineFeeds (textOf bytes))

end Runbook.Shell

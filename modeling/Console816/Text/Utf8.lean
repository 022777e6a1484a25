namespace Console816.Text

-- How many bytes may follow a first byte of a character, and between which bounds the second byte
-- must lie. Later bytes lie between 0x80 and 0xBF.
def utf8Lead? (byte : UInt8) : Option (Nat × UInt8 × UInt8) :=
  if 0xC2 ≤ byte && byte ≤ 0xDF then some (1, 0x80, 0xBF)
  else if byte == 0xE0 then some (2, 0xA0, 0xBF)
  else if byte == 0xED then some (2, 0x80, 0x9F)
  else if 0xE1 ≤ byte && byte ≤ 0xEF then some (2, 0x80, 0xBF)
  else if byte == 0xF0 then some (3, 0x90, 0xBF)
  else if 0xF1 ≤ byte && byte ≤ 0xF3 then some (3, 0x80, 0xBF)
  else if byte == 0xF4 then some (3, 0x80, 0x8F)
  else none

private def replacement : Char := '\uFFFD'

-- `missing` bytes of the character that `value` begins are still to come, the next of them between
-- `low` and `high`. A character that breaks off is replaced, and the byte that broke it starts
-- anew.
def decodeUtf8From (value missing : Nat) (low high : UInt8) : List UInt8 → List Char
  | [] => if missing = 0 then [] else [replacement]
  | byte :: rest =>
    if missing = 0 || byte < low || high < byte then
      let before := if missing = 0 then [] else [replacement]
      before ++
        if byte < 0x80 then Char.ofNat byte.toNat :: decodeUtf8From 0 0 0 0 rest
        else
          match utf8Lead? byte with
          | none => replacement :: decodeUtf8From 0 0 0 0 rest
          | some (count, low, high) =>
            decodeUtf8From (byte.toNat % (0x40 >>> count)) count low high rest
    else
      let value := value * 0x40 + byte.toNat % 0x40
      if missing = 1 then Char.ofNat value :: decodeUtf8From 0 0 0 0 rest
      else decodeUtf8From value (missing - 1) 0x80 0xBF rest

-- Every byte sequence has a text: the longest parts that begin a character and do not end it, and
-- bytes that begin none, are each replaced by U+FFFD.
def decodeUtf8 (bytes : List UInt8) : List Char := decodeUtf8From 0 0 0 0 bytes

-- The characters with the Unicode property White_Space.
def isBlank (c : Char) : Bool :=
  let n := c.toNat
  (0x09 ≤ n && n ≤ 0x0D) || (0x2000 ≤ n && n ≤ 0x200A) ||
    [0x20, 0x85, 0xA0, 0x1680, 0x2028, 0x2029, 0x202F, 0x205F, 0x3000].contains n

def trimEnd (text : List Char) : List Char := (text.reverse.dropWhile isBlank).reverse

end Console816.Text

import EdgeVms.Python.Value

/-! # Base64, read leniently

`binascii.a2b_base64` skips what is not in its alphabet and stops at a padding that
completes a quad.
-/

namespace EdgeVms.Python.Base64

/-- The six bits of a character. -/
def sixBits (c : Char) : Option Nat :=
  if 'A' ≤ c ∧ c ≤ 'Z' then some (c.toNat - 65)
  else if 'a' ≤ c ∧ c ≤ 'z' then some (c.toNat - 71)
  else if '0' ≤ c ∧ c ≤ '9' then some (c.toNat + 4)
  else if c = '+' then some 62
  else if c = '/' then some 63
  else none

/-- `position` characters of a quad are read, with the bits `left` still to be written, and after the
last of them there were `pads` signs of padding. -/
def read (position left pads : Nat) : List Char → Except Error (List UInt8)
  | [] => if position = 0 then .ok [] else .error .valueError
  | c :: rest =>
    if c = '=' then
      if 2 ≤ position then
        if 4 ≤ position + pads + 1 then .ok [] else read position left (pads + 1) rest
      else read position left pads rest
    else
      match sixBits c with
      | none => read position left pads rest
      | some bits =>
        match position with
        | 0 => read 1 bits 0 rest
        | 1 => (UInt8.ofNat (left * 4 + bits / 16) :: ·) <$> read 2 (bits % 16) 0 rest
        | 2 => (UInt8.ofNat (left * 16 + bits / 4) :: ·) <$> read 3 (bits % 4) 0 rest
        | _ => (UInt8.ofNat (left * 64 + bits) :: ·) <$> read 0 0 0 rest

def urlsafe (c : Char) : Char := if c = '-' then '+' else if c = '_' then '/' else c

/-- `base64.urlsafe_b64decode(text)` -/
def urlsafeDecode (text : String) : Except Error (List UInt8) :=
  if text.toList.all fun c => c.toNat < 128 then read 0 0 0 (text.toList.map urlsafe) else .error .valueError

example : (urlsafeDecode "Zm9v-_8=").toOption = some [102, 111, 111, 251, 255] := by decide +kernel

example : (urlsafeDecode "Z m9\nv!").toOption = some [102, 111, 111] := by decide +kernel

end EdgeVms.Python.Base64

set_option autoImplicit false

/-!
# UTF-8

A scan reads bytes from the left and yields one entry for each well-formed character and one empty
entry for each maximal piece that cannot be continued to a character. Decoding accepts a scan
without empty entries; lossy decoding puts the replacement character in their place.
-/

namespace BytecodeObject.Utf8

/-!
## Scanning
-/

/-- Where a scan stands: between two characters, or inside one that has collected `value`. There the next
byte has to lie between `low` and `high`, and `after` continuation bytes have to follow it. -/
inductive Progress where
  | between
  | owing (after value : Nat) (low high : UInt8)
  deriving DecidableEq, Repr

/-- What a byte does at the start of a character. The ranges for the byte after it leave out
overlong forms, surrogates and numbers above the last code point. -/
def start (byte : UInt8) : List (Option Char) × Progress :=
  if byte < 0x80 then ([some (Char.ofNat byte.toNat)], .between)
  else if byte < 0xC2 then ([none], .between)
  else if byte < 0xE0 then ([], .owing 0 (byte.toNat % 32) 0x80 0xBF)
  else if byte = 0xE0 then ([], .owing 1 0 0xA0 0xBF)
  else if byte = 0xED then ([], .owing 1 13 0x80 0x9F)
  else if byte < 0xF0 then ([], .owing 1 (byte.toNat % 16) 0x80 0xBF)
  else if byte = 0xF0 then ([], .owing 2 0 0x90 0xBF)
  else if byte < 0xF4 then ([], .owing 2 (byte.toNat % 8) 0x80 0xBF)
  else if byte = 0xF4 then ([], .owing 2 4 0x80 0x8F)
  else ([none], .between)

/-- One byte of a scan: the entries it completes, and where the scan stands after it. A byte that
cannot continue the current character ends it as an empty entry and starts a new character itself.
-/
def step : Progress → UInt8 → List (Option Char) × Progress
  | .between, byte => start byte
  | .owing after value low high, byte =>
      if low ≤ byte ∧ byte ≤ high then
        match after with
        | 0 => ([some (Char.ofNat (value * 64 + byte.toNat % 64))], .between)
        | after + 1 => ([], .owing after (value * 64 + byte.toNat % 64) 0x80 0xBF)
      else
        let (found, progress) := start byte
        (none :: found, progress)

def finish : Progress → List (Option Char)
  | .between => []
  | .owing _ _ _ _ => [none]

def scanFrom : Progress → List UInt8 → List (Option Char)
  | progress, [] => finish progress
  | progress, byte :: rest =>
      let (found, next) := step progress byte
      found ++ scanFrom next rest

def scan (bytes : List UInt8) : List (Option Char) :=
  scanFrom .between bytes

/-!
## Decoding and encoding
-/

def replacement : Char := '\uFFFD'

def decode? (bytes : List UInt8) : Option String :=
  ((scan bytes).mapM id).map String.ofList

def lossy (bytes : List UInt8) : String :=
  String.ofList ((scan bytes).map (·.getD replacement))

def encodeChar (character : Char) : List UInt8 :=
  let code := character.toNat
  if code < 0x80 then
    [UInt8.ofNat code]
  else if code < 0x800 then
    [UInt8.ofNat (0xC0 + code / 64), UInt8.ofNat (0x80 + code % 64)]
  else if code < 0x10000 then
    [UInt8.ofNat (0xE0 + code / 4096), UInt8.ofNat (0x80 + code / 64 % 64),
      UInt8.ofNat (0x80 + code % 64)]
  else
    [UInt8.ofNat (0xF0 + code / 262144), UInt8.ofNat (0x80 + code / 4096 % 64),
      UInt8.ofNat (0x80 + code / 64 % 64), UInt8.ofNat (0x80 + code % 64)]

def encode (text : String) : List UInt8 :=
  text.toList.flatMap encodeChar

end BytecodeObject.Utf8

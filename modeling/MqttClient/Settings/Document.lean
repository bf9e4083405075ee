import MqttClient.Settings.Basic

/-!
# Settings documents

Settings are written as one JSON object. Fields that are left out have their defaults, and fields of
other names are passed over. A value that is passed over is looked at only as far as it takes to
find its end: strings, arrays and objects by their structure, anything else up to the next comma or
closing bracket.
-/

namespace MqttClient.Settings.Document

def isBlank (c : Char) : Bool :=
  c = ' ' || c = '\t' || c = '\n' || c = '\r'

def skipBlanks (s : List Char) : List Char :=
  s.dropWhile isBlank

/-- The text of a string, as it is written, up to its closing quote, and what follows. A quote after
an odd number of backslashes belongs to the text. -/
def stringBody : (escaped : Bool) → List Char → Option (List Char × List Char)
  | _, [] => none
  | escaped, c :: rest =>
    if c = '"' && !escaped then some ([], rest)
    else (stringBody (c = '\\' && !escaped) rest).map fun (body, rest) => (c :: body, rest)

def string : List Char → Option (List Char × List Char)
  | '"' :: rest => stringBody false rest
  | _ => none

/-- The number that goes on from `n` with the leading digits of the text, as long as it is at most
`most`. -/
def digits (most : Nat) : (n : Nat) → List Char → Option (Nat × List Char)
  | n, [] => some (n, [])
  | n, c :: rest =>
    if c.isDigit then
      let n := n * 10 + (c.toNat - 48)
      if most < n then none else digits most n rest
    else some (n, c :: rest)

/-- A number without sign, fraction and exponent. -/
def number (most : Nat) (s : List Char) : Option (Nat × List Char) :=
  match skipBlanks s with
  | '0' :: rest => some (0, rest)
  | c :: rest => if c.isDigit then digits most (c.toNat - 48) rest else none
  | [] => none

/-- Whether a character ends a value of an array or an object. -/
def isDelimiter (c : Char) : Bool :=
  c = ',' || c = '}' || c = ']'

/-- The text after the name of a field and the colon behind it, and the name. -/
def fieldName (s : List Char) : Option (List Char × List Char) := do
  let (name, rest) ← string s
  match skipBlanks rest with
  | ':' :: rest => return (name, rest)
  | _ => none

/-- The text at the next field of an object, or `none` at its end. A comma stands before every field
but the first. -/
def nextField? (first : Bool) (s : List Char) : Option (Option (List Char)) :=
  match skipBlanks s with
  | '}' :: _ => some none
  | ',' :: rest => if first then none else some (some (skipBlanks rest))
  | c :: rest => if first then some (some (c :: rest)) else none
  | [] => none

mutual

def skipValue : (fuel : Nat) → List Char → Option (List Char)
  | 0, _ => none
  | fuel + 1, s =>
    match skipBlanks s with
    | '"' :: rest => (stringBody false rest).map Prod.snd
    | '[' :: rest => skipElements fuel true rest
    | '{' :: rest => skipFields fuel true rest
    | c :: rest =>
      if isDelimiter c then none
      else
        match rest.dropWhile (!isDelimiter ·) with
        | [] => none
        | rest => some rest
    | [] => none

/-- The text after the elements of an array. One element may stand without a comma before it: as a
rule the first. -/
def skipElements : (fuel : Nat) → (first : Bool) → List Char → Option (List Char)
  | 0, _, _ => none
  | fuel + 1, first, s =>
    match skipBlanks s with
    | ']' :: rest => some rest
    | ',' :: rest => do
      let rest ← skipValue fuel rest
      skipElements fuel first rest
    | rest => do
      guard first
      let rest ← skipValue fuel rest
      skipElements fuel false rest

/-- The text after the fields of an object. -/
def skipFields : (fuel : Nat) → (first : Bool) → List Char → Option (List Char)
  | 0, _, _ => none
  | fuel + 1, first, s =>
    match nextField? first s with
    | none => none
    | some none => some ((skipBlanks s).drop 1)
    | some (some s) => do
      let (_, rest) ← fieldName s
      let rest ← skipValue fuel rest
      skipFields fuel false rest

end

/-- The fields that were read so far. -/
structure Fields where
  inflightWindow : Option UInt16 := none
  queueCapacity : Option UInt16 := none
  retryInterval : Option UInt64 := none
  version : Option Version := none

def Fields.toSettings (f : Fields) : Settings where
  inflightWindow := f.inflightWindow.getD ({} : Settings).inflightWindow
  queueCapacity := f.queueCapacity.getD ({} : Settings).queueCapacity
  retryInterval := f.retryInterval.getD ({} : Settings).retryInterval
  version := f.version.getD ({} : Settings).version

/-- Reads the value of a field. A field that is known is not read twice, and the value of any other
is passed over. -/
def fieldValue (fuel : Nat) (name : String) (f : Fields) (s : List Char) :
    Option (Fields × List Char) :=
  match name with
  | "inflight_window" => do
    guard f.inflightWindow.isNone
    let (n, rest) ← number 65535 s
    return ({ f with inflightWindow := some (UInt16.ofNat n) }, rest)
  | "queue_capacity" => do
    guard f.queueCapacity.isNone
    let (n, rest) ← number 65535 s
    return ({ f with queueCapacity := some (UInt16.ofNat n) }, rest)
  | "retry_interval_ms" => do
    guard f.retryInterval.isNone
    let (n, rest) ← number 18446744073709551615 s
    return ({ f with retryInterval := some (UInt64.ofNat n) }, rest)
  | "version" => do
    guard f.version.isNone
    let (n, rest) ← number 255 s
    let v ← (Version.ofLevel (UInt8.ofNat n)).toOption
    return ({ f with version := some v }, rest)
  | _ => do
    let rest ← skipValue fuel s
    return (f, rest)

/-- Reads the fields of the document and the bracket at its end. -/
def fields : (fuel : Nat) → (first : Bool) → Fields → List Char → Option (Fields × List Char)
  | 0, _, _, _ => none
  | fuel + 1, first, f, s =>
    match nextField? first s with
    | none => none
    | some none => some (f, (skipBlanks s).drop 1)
    | some (some s) => do
      let (name, rest) ← fieldName s
      let (f, rest) ← fieldValue fuel (String.ofList name) f rest
      fields fuel false f rest

/-- The settings of a document, before their ranges are checked. A value that is passed over takes
two steps for each bracket that opens, and every other step takes a character at least, so the fuel
does not run out. -/
def read? (text : String) : Option Settings :=
  match skipBlanks text.toList with
  | '{' :: rest => do
    let (f, rest) ← fields (2 * rest.length + 2) true {} rest
    guard (skipBlanks rest).isEmpty
    return f.toSettings
  | _ => none

end MqttClient.Settings.Document

namespace MqttClient

def Settings.ofDocument (text : String) : Except SettingsError Settings :=
  match Settings.Document.read? text with
  | some s => s.check
  | none => .error .malformed

end MqttClient

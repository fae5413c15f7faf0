import NodeRpc.Json.Number

/-!
# Reading JSON text

`Json.parse` reads a text that holds exactly one value, with blanks around it. The reader is a fold
over the characters: its state is the stack of containers that are still open, and what may come
next. So reading `s ++ t` is reading `t` from the state that `s` leads to, and a proof about the
reader goes along the text. Containers nest at most `Reader.deepest` deep.
-/

namespace NodeRpc.Json.Reader

/-- A container that has been opened and not closed. -/
inductive Container where
  /-- The items so far, the last one first. -/
  | array (items : List Json)
  /-- The fields so far, and the key whose value comes next. -/
  | object (fields : List (String × Json)) (key : String)
  deriving Inhabited

/-- What a quoted text will be. -/
inductive Role where
  | value | key
  deriving DecidableEq

/-- What the reader is in the middle of; texts are kept with the last character first. -/
inductive Mode where
  /-- A value comes next. -/
  | value
  /-- A value or the end of the array that was just opened. -/
  | firstItem
  /-- A key or the end of the object that was just opened. -/
  | firstKey
  /-- A key, after a comma. -/
  | nextKey
  /-- A colon, after the key `key`. -/
  | colon (key : String)
  /-- A comma or the end of the innermost container, after a value. -/
  | after
  /-- Inside a quoted text. -/
  | text (role : Role) (read : List Char)
  /-- After a backslash. -/
  | escape (role : Role) (read : List Char)
  /-- Inside `\uXXXX`: `left` digits to come, `code` the value of those read, `high` the surrogate
  that the unit has to complete. -/
  | unit (role : Role) (read : List Char) (high : Option Nat) (left code : Nat)
  /-- After a high surrogate: the backslash of the low one. -/
  | lowEscape (role : Role) (read : List Char) (high : Nat)
  /-- After a high surrogate and a backslash: the letter `u`. -/
  | lowUnit (role : Role) (read : List Char) (high : Nat)
  /-- Inside a literal name: what is left of it, and its value. -/
  | word (left : List Char) (result : Json)
  /-- Inside a number. -/
  | number (read : List Char)
  /-- After the only value. -/
  | done (result : Json)
  /-- No JSON text starts like this. -/
  | failed
  deriving Inhabited

/-- The open containers, the innermost first, and the mode. -/
structure State where
  stack : List Container
  mode : Mode
  deriving Inhabited

/-- How deep containers nest at most. -/
def deepest : Nat := 127

/-- Whether a character may stand between tokens. -/
def isBlank (c : Char) : Bool := c = ' ' || c = '\t' || c = '\n' || c = '\r'

/-- Whether a character may stand in a number. -/
def inNumber (c : Char) : Bool :=
  ('0' ≤ c && c ≤ '9') || c = '+' || c = '-' || c = '.' || c = 'e' || c = 'E'

def State.fail (s : State) : State := { s with mode := .failed }

/-- Gives a finished value to the innermost container, or ends the text with it. -/
def State.give (s : State) (v : Json) : State :=
  match s.stack with
  | [] => { s with mode := .done v }
  | .array items :: rest => ⟨.array (v :: items) :: rest, .after⟩
  | .object fields key :: rest => ⟨.object (Table.put fields key v) key :: rest, .after⟩

/-- Opens a container, unless that would be one too many. -/
def State.openWith (s : State) (c : Container) (mode : Mode) : State :=
  if s.stack.length < deepest then ⟨c :: s.stack, mode⟩ else s.fail

/-- Closes the innermost container by `]`. -/
def State.closeArray (s : State) : State :=
  match s.stack with
  | .array items :: rest => State.give ⟨rest, .value⟩ (.arr items.reverse)
  | _ => s.fail

/-- Closes the innermost container by a brace. -/
def State.closeObject (s : State) : State :=
  match s.stack with
  | .object fields _ :: rest => State.give ⟨rest, .value⟩ (.obj fields)
  | _ => s.fail

/-- Starts a value with its first character. -/
def State.start (s : State) (c : Char) : State :=
  if c = '"' then { s with mode := .text .value [] }
  else if c = '[' then s.openWith (.array []) .firstItem
  else if c = '\x7b' then s.openWith (.object [] "") .firstKey
  else if c = 't' then { s with mode := .word ['r', 'u', 'e'] (.bool true) }
  else if c = 'f' then { s with mode := .word ['a', 'l', 's', 'e'] (.bool false) }
  else if c = 'n' then { s with mode := .word ['u', 'l', 'l'] .null }
  else if c = '-' ∨ ('0' ≤ c ∧ c ≤ '9') then { s with mode := .number [c] }
  else s.fail

/-- What comes after a value in the innermost container. -/
def State.separate (s : State) (c : Char) : State :=
  if c = ',' then
    match s.stack with
    | .array _ :: _ => { s with mode := .value }
    | .object _ _ :: _ => { s with mode := .nextKey }
    | [] => s.fail
  else if c = ']' then s.closeArray
  else if c = '\x7d' then s.closeObject
  else s.fail

/-- Ends a quoted text. -/
def State.endText (s : State) (role : Role) (read : List Char) : State :=
  match role with
  | .value => s.give (.str (String.ofList read.reverse))
  | .key => { s with mode := .colon (String.ofList read.reverse) }

/-- The key `key` is complete: its value comes next. -/
def State.expectValueOf (s : State) (key : String) : State :=
  match s.stack with
  | .object fields _ :: rest => ⟨.object fields key :: rest, .value⟩
  | _ => s.fail

/-- The character that stands after a backslash for another one. -/
def unescape? (c : Char) : Option Char :=
  if c = '"' ∨ c = '\\' ∨ c = '/' then some c
  else if c = 'b' then some '\x08'
  else if c = 'f' then some '\x0c'
  else if c = 'n' then some '\n'
  else if c = 'r' then some '\r'
  else if c = 't' then some '\t'
  else none

/-- The value of a hexadecimal digit. -/
def hexValue? (c : Char) : Option Nat :=
  if '0' ≤ c ∧ c ≤ '9' then some (c.toNat - 48)
  else if 'a' ≤ c ∧ c ≤ 'f' then some (c.toNat - 87)
  else if 'A' ≤ c ∧ c ≤ 'F' then some (c.toNat - 55)
  else none

/-- Whether a code unit is the first half of a surrogate pair. -/
def isHigh (u : Nat) : Bool := 0xD800 ≤ u && u ≤ 0xDBFF

/-- Whether a code unit is the second half of a surrogate pair. -/
def isLow (u : Nat) : Bool := 0xDC00 ≤ u && u ≤ 0xDFFF

/-- Ends `\uXXXX` with the code unit `u`. -/
def State.endUnit (s : State) (role : Role) (read : List Char) (high : Option Nat) (u : Nat) :
    State :=
  match high with
  | none =>
    if isHigh u then { s with mode := .lowEscape role read u }
    else if isLow u then s.fail
    else { s with mode := .text role (Char.ofNat u :: read) }
  | some h =>
    if isLow u then
      { s with mode := .text role (Char.ofNat (0x10000 + (h - 0xD800) * 0x400 + (u - 0xDC00)) :: read) }
    else s.fail

/-- What character `c` does between a value and the end of the text or container. -/
def State.afterValue (s : State) (c : Char) : State :=
  if isBlank c then s
  else
    match s.mode with
    | .after => s.separate c
    | _ => s.fail

/-- Reads one character. -/
def step (s : State) (c : Char) : State :=
  match s.mode with
  | .failed => s
  | .done _ | .after => s.afterValue c
  | .value => if isBlank c then s else s.start c
  | .firstItem => if isBlank c then s else if c = ']' then s.closeArray else s.start c
  | .firstKey =>
    if isBlank c then s
    else if c = '"' then { s with mode := .text .key [] }
    else if c = '\x7d' then s.closeObject
    else s.fail
  | .nextKey =>
    if isBlank c then s else if c = '"' then { s with mode := .text .key [] } else s.fail
  | .colon key => if isBlank c then s else if c = ':' then s.expectValueOf key else s.fail
  | .text role read =>
    if c = '"' then s.endText role read
    else if c = '\\' then { s with mode := .escape role read }
    else if c.toNat < 32 then s.fail
    else { s with mode := .text role (c :: read) }
  | .escape role read =>
    if c = 'u' then { s with mode := .unit role read none 4 0 }
    else
      match unescape? c with
      | some d => { s with mode := .text role (d :: read) }
      | none => s.fail
  | .unit role read high left code =>
    match hexValue? c with
    | none => s.fail
    | some d =>
      if left ≤ 1 then s.endUnit role read high (16 * code + d)
      else { s with mode := .unit role read high (left - 1) (16 * code + d) }
  | .lowEscape role read high =>
    if c = '\\' then { s with mode := .lowUnit role read high } else s.fail
  | .lowUnit role read high =>
    if c = 'u' then { s with mode := .unit role read (some high) 4 0 } else s.fail
  | .word left result =>
    match left with
    | [] => s.fail
    | [d] => if c = d then s.give result else s.fail
    | d :: left => if c = d then { s with mode := .word left result } else s.fail
  | .number read =>
    if inNumber c then { s with mode := .number (c :: read) }
    else
      match number? read.reverse with
      | some v => (s.give v).afterValue c
      | none => s.fail

/-- Before the first character. -/
def initial : State := ⟨[], .value⟩

/-- Reads a text from a given state. -/
def run (s : State) (cs : List Char) : State := cs.foldl step s

/-- The value that a whole text was, once every character is read. -/
def State.result? (s : State) : Option Json :=
  match s.stack, s.mode with
  | [], .done v => some v
  | [], .number read => number? read.reverse
  | _, _ => none

theorem run_append (s : State) (cs ds : List Char) : run s (cs ++ ds) = run (run s cs) ds :=
  List.foldl_append ..

end NodeRpc.Json.Reader

namespace NodeRpc.Json

/-- The value that a text holds. -/
def parse (text : String) : Option Json := (Reader.run Reader.initial text.toList).result?

end NodeRpc.Json

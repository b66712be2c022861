import XtAsm.Wire.Encode

/-!
# Reading programs in binary form

Reading accepts a little more than writing produces: lengths need not be in their shortest form,
and any byte but zero is true.

* `Wire.Error`: why bytes are not a program;
* `Reader`: reads a value off the head of some bytes;
* `readNode`: a node, of at most a given depth;
* `decode`: a whole program.
-/

namespace XtAsm.Wire

/-- The sorts of nodes, as named in messages. -/
def sortName : Node → Text
  | .data _ => "*ast.Data"
  | .code _ => "*ast.Code"
  | .label _ => "*ast.Label"
  | .exit _ => "*ast.Exit"
  | .assign .add _ _ => "*ast.Add"
  | .assign .sub _ _ => "*ast.Sub"
  | .assign .mov _ _ => "*ast.Mov"
  | .leave => "*ast.Break"
  | .jump _ => "*ast.Jmp"
  | .enum _ _ => "*ast.EnumVar"
  | .whileLoop _ _ _ => "*ast.While"
  | .forLoop _ _ _ _ => "*ast.For"
  | .loop _ => "*ast.Loop"
  | .choice _ _ _ _ => "*ast.If"
  | .condition _ => "*ast.Cond"
  | .var _ => "*ast.Var"
  | .register _ => "*ast.Txt"
  | .literal _ => "*ast.Txt"

/-- Why bytes are not a program. -/
inductive Error
  | missingIdentifier
  | missingVersion
  | unsupportedVersion (found : UInt8)
  | truncated
  | unknownTag (found : UInt8)
  | unknownComparison (found : UInt8)
  | unknownConnective (found : UInt8)
  | unexpectedNode (found expected : Text)
  | trailing (count : Nat)
  deriving DecidableEq

/-- The description of the defect. -/
def Error.message : Error → Text
  | .missingIdentifier => "wire: missing identifier"
  | .missingVersion => "wire: missing version"
  | .unsupportedVersion found => "wire: unsupported version " ++ Text.ofNat found.toNat
  | .truncated => "wire: truncated input"
  | .unknownTag found => "wire: unknown tag " ++ Text.ofNat found.toNat
  | .unknownComparison found => "wire: unknown comparison " ++ Text.ofNat found.toNat
  | .unknownConnective found => "wire: unknown boolean operator " ++ Text.ofNat found.toNat
  | .unexpectedNode found expected =>
    "wire: unexpected " ++ found ++ " (expected " ++ expected ++ ")"
  | .trailing count => "wire: " ++ Text.ofNat count ++ " trailing bytes"

/-- Reads a value off the head of some bytes, and leaves the bytes after it. -/
abbrev Reader (α : Type) := StateT Text (Except Error) α

/-- One byte. -/
def readByte : Reader UInt8
  | [] => .error .truncated
  | b :: rest => .ok (b, rest)

/-- A number in base 128 of at most the given number of bytes; the last byte that fits may only
add one bit. -/
def readDigits : Nat → Reader Nat
  | 0, _ => .error .truncated
  | _ + 1, [] => .error .truncated
  | n + 1, b :: rest =>
    if b < 128 then
      if n = 0 ∧ 1 < b then .error .truncated else .ok (b.toNat, rest)
    else do
      let (high, rest) ← readDigits n rest
      return (b.toNat - 128 + 128 * high, rest)

/-- A 64-bit number in base 128. -/
def readVarint : Reader Nat := readDigits 10

/-- A text after its length. -/
def readText : Reader Text := do
  let n ← readVarint
  let rest ← get
  if rest.length < n then throw .truncated
  set (rest.drop n)
  return rest.take n

/-- A truth value. -/
def readBool : Reader Bool := do
  return (← readByte) != 0

/-- The given number of values in a row. -/
def readTimes {α : Type} (item : Reader α) : Nat → Reader (List α)
  | 0 => pure []
  | n + 1 => do
    let a ← item
    return a :: (← readTimes item n)

/-- Values after their number. -/
def readList {α : Type} (item : Reader α) : Reader (List α) := do
  readTimes item (← readVarint)

/-- A comparison sign. -/
def readComparator : Reader Comparator := do
  let b ← readByte
  if 5 < b then throw (.unknownComparison b)
  return ⟨b⟩

/-- A connective. -/
def readConnective : Reader Connective := do
  let b ← readByte
  if 1 < b then throw (.unknownConnective b)
  return ⟨b⟩

/-- A variable is expected. -/
def asVariable : Node → Reader Variable
  | .var v => pure v
  | n => throw (.unexpectedNode (sortName n) "*ast.Var")

/-- A comparison is expected. -/
def asCondition : Node → Reader Condition
  | .condition c => pure c
  | n => throw (.unexpectedNode (sortName n) "*ast.Cond")

/-- A data section is expected. -/
def asData : Node → Reader (List Node)
  | .data declarations => pure declarations
  | n => throw (.unexpectedNode (sortName n) "*ast.Data")

/-- A code section is expected. -/
def asCode : Node → Reader (List Node)
  | .code instructions => pure instructions
  | n => throw (.unexpectedNode (sortName n) "*ast.Code")

/-- The fields of the node with the given tag, given how its children are read. -/
def readFields (child : Reader Node) (tag : UInt8) : Reader Node :=
  let condition : Reader Condition := child >>= asCondition
  match tag with
  | 1 => return .data (← readList child)
  | 2 => return .code (← readList child)
  | 3 => return .label (← readText)
  | 4 => return .exit (← child)
  | 5 => return .assign .add (← child) (← child)
  | 6 => return .assign .sub (← child) (← child)
  | 7 => return .assign .mov (← child) (← child)
  | 8 => return .leave
  | 9 => return .jump (← readText)
  | 10 => return .enum (← readText) (← readList (child >>= asVariable))
  | 11 => return .whileLoop (← readList condition) (← readList readConnective) (← readList child)
  | 12 => return .forLoop (← child) (← child) (← child) (← readList child)
  | 13 => return .loop (← readList child)
  | 14 =>
    return .choice (← readList condition) (← readList readConnective) (← readList child)
      (← readList child)
  | 15 => return .condition (.mk (← readComparator) (← child) (← child))
  | 16 => return .var ⟨← readText, ← readText, ← readBool⟩
  | 17 => do
    let value ← readText
    return if (← readBool) then .register value else .literal value
  | _ => throw (.unknownTag tag)

/-- A node of at most the given depth.  Every node takes a byte of its own, so the number of bytes
bounds the depth. -/
def readNode : Nat → Reader Node
  | 0 => throw .truncated
  | depth + 1 => do
    let tag ← readByte
    readFields (readNode depth) tag

/-- The two sections of a program. -/
def readProgram (depth : Nat) : Reader Program := do
  let data ← readNode depth >>= asData
  let code ← readNode depth >>= asCode
  return .ofSections data code

/-- The program with the given binary form. -/
def decode (bytes : Text) : Except Error Program := do
  if bytes.take identifier.length ≠ identifier then throw .missingIdentifier
  match bytes.drop identifier.length with
  | [] => throw .missingVersion
  | v :: rest =>
    if v ≠ version then throw (.unsupportedVersion v)
    let (program, rest) ← (readProgram rest.length).run rest
    if rest ≠ [] then throw (.trailing rest.length)
    return program

end XtAsm.Wire

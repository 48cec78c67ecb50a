import Mathlib.Data.Nat.Digits.Defs
import Mathlib.Data.Int.Basic
import ServicesFramework.Lib.Machine
import ServicesFramework.Lib.SortedMap
import ServicesFramework.Lib.Text

namespace ServicesFramework

/-- A `char`, as the `unsigned char` that the order of `std::string` and the classic locale
compare and classify. -/
abbrev Ch := Fin 256

abbrev Str := List Ch

abbrev SectionKv := SortedMap Str Str

instance : LawfulBEq Ch := inferInstance

instance : LawfulBEq Str := inferInstance

namespace Ch

def newline : Ch := 10
def hash : Ch := 35
def minus : Ch := 45
def plus : Ch := 43
def dot : Ch := 46
def zero : Ch := 48
def colon : Ch := 58
def semicolon : Ch := 59
def equals : Ch := 61
def lbracket : Ch := 91
def rbracket : Ch := 93

/-- `std::isspace` of the classic locale: the control characters 9 to 13, and the blank. -/
def isspace (c : Ch) : Bool := decide (9 ≤ c ∧ c ≤ 13) || decide (c = 32)

def isdigit (c : Ch) : Bool := decide (48 ≤ c ∧ c ≤ 57)

end Ch

namespace Str

/-- `trim` of `util.h`. -/
def trim (s : Str) : Str := Text.strip Ch.isspace s

/-- `std::string::find` of a text; `none` is `npos`. -/
def find (pattern : Str) : Str → Option Nat
  | [] => if pattern = [] then some 0 else none
  | c :: rest =>
    if pattern.isPrefixOf (c :: rest) then some 0
    else (find pattern rest).map (· + 1)

/-- `std::string::substr`: the count `none` is `npos`, and a position past the end throws
`std::out_of_range`. -/
def substr (s : Str) (pos : Nat) (count : Option Nat) : Option Str :=
  if s.length < pos then none
  else some (match count with
    | none => s.drop pos
    | some n => (s.drop pos).take n)

end Str

/-- The loop of `split`. Every pass that does not throw shortens `strs`, so one more pass
than it has characters is never used up. -/
def splitLoop (pattern : Str) (size : Nat) : Nat → Str → Option (List Str)
  | 0, _ => none
  | fuel + 1, strs =>
    match Str.find pattern strs with
    | none => some []
    | some pos => do
      let x ← Str.substr strs 0 (some pos)
      let strs ← Str.substr strs (pos + 1) (some size)
      let resStr ← splitLoop pattern size fuel strs
      some (x :: resStr)

/-- `split`; `none` is the `std::out_of_range` that an empty pattern runs into. -/
def split (str pattern : Str) : Option (List Str) :=
  if str = [] then some []
  else
    let strs := str ++ pattern
    splitLoop pattern strs.length (strs.length + 1) strs

/-- The input stream of `read_ini`: what is left of it, and its state bits. -/
structure IStream where
  rest : Str
  eof : Bool
  fail : Bool
  deriving DecidableEq

namespace IStream

def good (stream : IStream) : Bool := !stream.eof && !stream.fail

/-- `std::getline` on a good stream: the newline is taken and dropped; a last line without
one sets `eofbit`, and `failbit` as well when nothing was there. -/
def getline (stream : IStream) : Str × IStream :=
  match stream.rest.idxOf? Ch.newline with
  | some pos => (stream.rest.take pos, { stream with rest := stream.rest.drop (pos + 1) })
  | none => (stream.rest, ⟨[], true, stream.rest.isEmpty⟩)

end IStream

namespace Settings

/-- The body of the loop of `read_ini` for one line: the section in force and the map. The
messages to `std::cout` are left out; none of them changes what is read. -/
def readLine (line sect : Str) (kv : SectionKv) : Option (Str × SectionKv) :=
  match Str.trim line with
  | [] => some (sect, kv)
  | c :: rest =>
    let line := c :: rest
    if c = Ch.semicolon ∨ c = Ch.hash then some (sect, kv)
    else if c = Ch.lbracket then
      match line.idxOf? Ch.rbracket with
      | none => some (sect, kv)
      | some last => do
        let key ← Str.substr line 1 (some (last - 1))
        some (Str.trim key, kv)
    else if sect = [] then some (sect, kv)
    else
      match line.idxOf? Ch.equals with
      | none => some (sect, kv)
      | some eqpos =>
        if eqpos = 0 then some (sect, kv)
        else do
          let key ← Str.substr line 0 (some eqpos)
          let data ← Str.substr line (eqpos + 1) none
          let mixkey := sect ++ [Ch.dot] ++ Str.trim key
          some (sect, kv.insert mixkey (Str.trim data))

/-- The loop of `read_ini`. A line that leaves the stream good takes its newline away, so
one more pass than there are characters is never used up. -/
def readLoop : Nat → IStream → Str → SectionKv → Option SectionKv
  | 0, _, _, _ => none
  | fuel + 1, stream, sect, kv =>
    if stream.good then
      let (line, stream) := stream.getline
      if !stream.good && !stream.eof then some kv
      else do
        let (sect, kv) ← readLine line sect kv
        readLoop fuel stream sect kv
    else some kv

/-- `Settings::read_ini`, on a stream with the whole text before it. -/
def readIni (text : Str) (kv : SectionKv) : Option SectionKv :=
  readLoop (text.length + 2) ⟨text, false, false⟩ [] kv

/-- The loop of `write_ini` that puts the pieces after the first together again. -/
def joinKey (pieces : List Str) : Str :=
  pieces.foldl (fun key piece => (if key ≠ [] then key ++ [Ch.dot] else key) ++ piece) []

/-- What the loop of `write_ini` appends to the stream for the entries still to come, when
the sections of `print` have been printed. -/
def writeEntries : List Str → List (Str × Str) → Option Str
  | _, [] => some []
  | print, (name, data) :: entries => do
    let res ← split name [Ch.dot]
    match res with
    | first :: pieces =>
      if pieces = [] then some []
      else
        let header :=
          if first ∈ print then []
          else if print = [] then [Ch.lbracket] ++ first ++ [Ch.rbracket] ++ [Ch.newline]
          else [Ch.newline] ++ [Ch.lbracket] ++ first ++ [Ch.rbracket] ++ [Ch.newline]
        let print := if first ∈ print then print else first :: print
        let later ← writeEntries print entries
        some (header ++ joinKey pieces ++ [Ch.equals] ++ data ++ [Ch.newline] ++ later)
    | [] => some []

/-- `Settings::write_ini`: the text it writes. -/
def writeIni (kv : SectionKv) : Option Str := writeEntries [] kv.entries

/-- `value` for `std::string`. -/
def valueString (value v : Str) : Str := if value = [] then v else value

/-- `std::stoi`; `none` when it throws `std::invalid_argument` or `std::out_of_range`. -/
def stoi (text : Str) : Option Int32 :=
  let (negative, digits) :=
    match text.dropWhile Ch.isspace with
    | c :: rest =>
      if c = Ch.minus then (true, rest.takeWhile Ch.isdigit)
      else if c = Ch.plus then (false, rest.takeWhile Ch.isdigit)
      else (false, (c :: rest).takeWhile Ch.isdigit)
    | [] => (false, [])
  let magnitude : Nat := digits.foldl (fun n c => 10 * n + (c.val - 48)) 0
  let number : Int := if negative then -(magnitude : Int) else magnitude
  if digits = [] then none
  else if number < -2 ^ 31 ∨ 2 ^ 31 ≤ number then none
  else some (Int32.ofInt number)

/-- `value` for `int`. -/
def valueInt (value : Str) (v : Int32) : Option Int32 := if value = [] then some v else stoi value

def printNat (n : Nat) : Str :=
  if n = 0 then [Ch.zero] else (Nat.digits 10 n).reverse.map fun d => Fin.ofNat 256 (48 + d)

/-- A stream's decimal text of an `int`. -/
def printInt (v : Int32) : Str :=
  if v.toInt < 0 then Ch.minus :: printNat v.toInt.natAbs else printNat v.toInt.natAbs

/-- `ss >> tmpstr`. -/
def extract (s : Str) : Str := (s.dropWhile Ch.isspace).takeWhile fun c => !Ch.isspace c

/-- `res[name]`, which makes an absent name the empty text. -/
def subscript (res : SectionKv) (name : Str) : Str := (res.find name).getD []

/-- `Settings::getValue<std::string>` on the text of the file. -/
def getValueString (file name v : Str) : Option Str := do
  let res ← readIni file .empty
  some (valueString (subscript res name) v)

/-- `Settings::getValue<int>`. -/
def getValueInt (file name : Str) (v : Int32) : Option Int32 := do
  let res ← readIni file .empty
  valueInt (subscript res name) v

/-- `Settings::setValue`, given what `ss << v` prints: the text of the file after it. -/
def setValue (file name printed : Str) : Option Str := do
  let res ← readIni file .empty
  let tmpstr := extract printed
  let res := if (res.find name).isSome then res.erase name else res
  writeIni (res.insert name tmpstr)

end Settings

end ServicesFramework

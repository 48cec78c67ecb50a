import Mathlib.Data.List.TakeDrop
import Mathlib.Tactic
import ServicesFramework.Msg

namespace ServicesFramework

/-- What `FileHander` uses of `octetVec`, a type that the repository does not define, with the
behaviour that a vector of octets has: `store` writes through `data()`. -/
class OctetVec (ν : Type*) where
  octets : ν → List Octet
  resize : ν → Nat → ν
  store : ν → List Octet → ν
  shrinkToFit : ν → ν
  length_resize : ∀ v n, (octets (resize v n)).length = n
  resize_of_le : ∀ v n, n ≤ (octets v).length → octets (resize v n) = (octets v).take n
  octets_store : ∀ v written, written.length ≤ (octets v).length →
    octets (store v written) = written ++ (octets v).drop written.length
  octets_shrinkToFit : ∀ v, octets (shrinkToFit v) = octets v

/-- The elements of a vector, without its capacity. -/
instance : OctetVec (List Octet) where
  octets v := v
  resize v n := v.takeD n 0
  store v written := written ++ v.drop written.length
  shrinkToFit v := v
  length_resize v n := List.takeD_length n v 0
  resize_of_le _ _ shrinks := List.takeD_eq_take 0 shrinks
  octets_store _ _ _ := rfl
  octets_shrinkToFit _ := rfl

/-- The open modes in use: `in | binary` and `out | binary`. -/
inductive OpenMode
  | input
  | output
  deriving DecidableEq, Repr

/-- A `FileHander` as its `stream_` has it: the file, the position in it, and the state of the
stream, where `fail` is what `fail()` returns. -/
structure FileHander where
  mode : OpenMode
  file : List Octet
  pos : Nat
  eof : Bool
  fail : Bool
  deriving DecidableEq, Repr

namespace FileHander

/-- `stream_.seekg`. -/
def seekg (self : FileHander) (pos : Nat) : FileHander :=
  if self.fail then { self with eof := false } else { self with pos := pos, eof := false }

/-- The constructor, where `found` is what the file system has under this name, or `none` if
that cannot be opened. Opening for output truncates. -/
def init (filename : String) (mode : OpenMode) (found : Option (List Octet)) : Except String FileHander :=
  match found with
  | none => .error ("File open failed " ++ filename)
  | some bytes =>
    let file := match mode with
      | .input => bytes
      | .output => []
    let self : FileHander := ⟨mode, file, 0, false, false⟩
    .ok ((self.seekg file.length).seekg 0)

/-- `stream_.read`: the bytes that it stores, of which `gcount()` is then the number. A stream
that is not good stores nothing. -/
def streamRead (self : FileHander) (n : Nat) : List Octet × FileHander :=
  if self.eof ∨ self.fail then ([], { self with fail := true })
  else
    let bytes := match self.mode with
      | .input => (self.file.drop self.pos).take n
      | .output => []
    let short := decide (bytes.length < n)
    (bytes, { self with pos := self.pos + bytes.length, eof := short, fail := short })

/-- `readToString`, with the value returned and what `out` holds then. -/
def readToString (self : FileHander) (maxSize : Nat) (out : List Octet) : (Nat × List Octet) × FileHander :=
  let readLen := maxSize
  let out := out.takeD readLen 0
  let (bytes, self) := self.streamRead readLen
  ((bytes.length, bytes ++ out.drop bytes.length), self)

/-- `readToOctetVec`. -/
def readToOctetVec {ν : Type*} [OctetVec ν] (self : FileHander) (maxSize : Nat) (out : ν) : (Nat × ν) × FileHander :=
  let readLen := maxSize
  let out := OctetVec.resize out readLen
  let (bytes, self) := self.streamRead readLen
  let out := OctetVec.store out bytes
  let ret := bytes.length
  let out := OctetVec.resize out ret
  ((ret, OctetVec.shrinkToFit out), self)

/-- `writeFromString`. Writing to a stream that was opened for input fails. What the stream buffers
counts as in the file, where it is once the handler is gone. -/
def writeFromString (self : FileHander) (out : List Octet) : FileHander :=
  if self.fail then self
  else match self.mode with
    | .input => { self with fail := true }
    | .output =>
      { self with
        file := self.file.take self.pos ++ out ++ self.file.drop (self.pos + out.length)
        pos := self.pos + out.length }

/-- `writeFromOctetVec`. -/
def writeFromOctetVec {ν : Type*} [OctetVec ν] (self : FileHander) (out : ν) : FileHander :=
  self.writeFromString (OctetVec.octets out)

end FileHander

/-- `readFile`. -/
def readFile (filename : String) (found : Option (List Octet)) (maxSize : Nat) (content : List Octet) :
    Except String (Nat × List Octet) := do
  let self ← FileHander.init filename .input found
  return (self.readToString maxSize content).1

/-- `writeFile`: what the file system has under this name afterwards. -/
def writeFile (filename : String) (found : Option (List Octet)) (content : List Octet) : Except String (List Octet) := do
  let self ← FileHander.init filename .output found
  return (self.writeFromString content).file

namespace FileHander

variable {ν : Type*} [OctetVec ν] {self : FileHander} {file : List Octet} {pos n : Nat}

/-- A handler that has read up to `pos` and can read on. -/
def reading (file : List Octet) (pos : Nat) : FileHander := ⟨.input, file, pos, false, false⟩

theorem init_input (filename : String) (file : List Octet) :
    init filename .input (some file) = .ok (reading file 0) := by
  simp [init, seekg, reading]

theorem streamRead_length_le (self : FileHander) (n : Nat) : (self.streamRead n).1.length ≤ n := by
  unfold streamRead
  split
  · exact Nat.zero_le n
  · dsimp only
    cases self.mode with
    | input => exact List.length_take_le n _
    | output => exact Nat.zero_le n

theorem streamRead_room (room : pos + n ≤ file.length) :
    (reading file pos).streamRead n = ((file.drop pos).take n, reading file (pos + n)) := by
  have length : ((file.drop pos).take n).length = n := by
    rw [List.length_take, List.length_drop]
    omega
  simp [streamRead, reading, length]

/-- A read that meets the end of the file takes what is left, and sets both bits. -/
theorem streamRead_short (inside : pos ≤ file.length) (short : file.length < pos + n) :
    (reading file pos).streamRead n = (file.drop pos, ⟨.input, file, file.length, true, true⟩) := by
  have left : (file.drop pos).length = file.length - pos := List.length_drop
  have all : (file.drop pos).take n = file.drop pos := List.take_of_length_le (by omega)
  have fewer : (file.drop pos).length < n := by omega
  have reached : pos + (file.drop pos).length = file.length := by omega
  simp only [streamRead, reading, all, fewer, reached]
  simp

theorem readToString_fst (self : FileHander) (n : Nat) (out : List Octet) :
    (self.readToString n out).1 = ((self.streamRead n).1.length,
      (self.streamRead n).1 ++ (out.takeD n 0).drop (self.streamRead n).1.length) := rfl

/-- `readToOctetVec` leaves what was read, and nothing else. -/
theorem readToOctetVec_fst (self : FileHander) (n : Nat) (out : ν) :
    (self.readToOctetVec n out).1.1 = (self.streamRead n).1.length ∧
      OctetVec.octets (self.readToOctetVec n out).1.2 = (self.streamRead n).1 := by
  refine ⟨rfl, ?_⟩
  have room : (self.streamRead n).1.length ≤ (OctetVec.octets (OctetVec.resize out n)).length := by
    rw [OctetVec.length_resize]
    exact streamRead_length_le self n
  have stored := OctetVec.octets_store (OctetVec.resize out n) (self.streamRead n).1 room
  change OctetVec.octets (OctetVec.shrinkToFit (OctetVec.resize (OctetVec.store (OctetVec.resize out n)
    (self.streamRead n).1) (self.streamRead n).1.length)) = _
  rw [OctetVec.octets_shrinkToFit, OctetVec.resize_of_le _ _ (by rw [stored, List.length_append]; omega), stored,
    List.take_left]

/-- A request to read, and what the two `out` arguments hold before it. -/
structure ReadRequest (ν : Type*) where
  maxSize : Nat
  string : List Octet
  octets : ν

/-- The values returned, and the bytes in `out`, for one request after the other. -/
def answersToString : FileHander → List (ReadRequest ν) → List (Nat × List Octet)
  | _, [] => []
  | self, request :: rest =>
    let (answer, self) := self.readToString request.maxSize request.string
    answer :: answersToString self rest

def answersToOctetVec : FileHander → List (ReadRequest ν) → List (Nat × List Octet)
  | _, [] => []
  | self, request :: rest =>
    let ((ret, out), self) := self.readToOctetVec request.maxSize request.octets
    (ret, OctetVec.octets out) :: answersToOctetVec self rest

/-- The bytes that a sequence of requests asks for. -/
def requested (requests : List (ReadRequest ν)) : Nat := (requests.map ReadRequest.maxSize).sum

omit [OctetVec ν] in
theorem answersToString_cons (self : FileHander) (request : ReadRequest ν) (rest : List (ReadRequest ν)) :
    self.answersToString (request :: rest) =
      (self.readToString request.maxSize request.string).1 ::
        (self.streamRead request.maxSize).2.answersToString rest := rfl

theorem answersToOctetVec_cons (self : FileHander) (request : ReadRequest ν) (rest : List (ReadRequest ν)) :
    self.answersToOctetVec (request :: rest) =
      ((self.streamRead request.maxSize).1.length, (self.streamRead request.maxSize).1) ::
        (self.streamRead request.maxSize).2.answersToOctetVec rest := by
  obtain ⟨count, bytes⟩ := readToOctetVec_fst self request.maxSize request.octets
  rw [answersToOctetVec]
  change ((self.readToOctetVec request.maxSize request.octets).1.1,
    OctetVec.octets (self.readToOctetVec request.maxSize request.octets).1.2) :: _ = _
  rw [count, bytes]
  rfl

/-- The values returned are the same on both ways, also behind the end of the file. -/
theorem counts_agree (self : FileHander) (requests : List (ReadRequest ν)) :
    (self.answersToString requests).map Prod.fst = (self.answersToOctetVec requests).map Prod.fst := by
  induction requests generalizing self with
  | nil => rfl
  | cons request rest ih =>
    rw [answersToString_cons, answersToOctetVec_cons, List.map_cons, List.map_cons, ih, readToString_fst]

/-- The bytes are the same for the requests that get all they ask for: `readToString` leaves
`out` as long as the request. -/
theorem readToString_exact_iff (self : FileHander) (n : Nat) (out : List Octet) :
    (self.readToString n out).1 = ((self.streamRead n).1.length, (self.streamRead n).1) ↔
      (self.streamRead n).1.length = n := by
  have most := streamRead_length_le self n
  have padding : ((out.takeD n 0).drop (self.streamRead n).1.length).length = n - (self.streamRead n).1.length := by
    rw [List.length_drop, List.takeD_length]
  rw [readToString_fst, Prod.mk.injEq, and_iff_right rfl, List.append_right_eq_self, ← List.length_eq_zero_iff, padding]
  omega

theorem answers_eq_iff (inside : pos ≤ file.length) (requests : List (ReadRequest ν)) :
    (reading file pos).answersToString requests = (reading file pos).answersToOctetVec requests ↔
      pos + requested requests ≤ file.length := by
  induction requests generalizing pos with
  | nil => exact iff_of_true rfl inside
  | cons request rest ih =>
    have total : requested (request :: rest) = request.maxSize + requested rest := by simp [requested]
    rw [answersToString_cons, answersToOctetVec_cons, List.cons.injEq, readToString_exact_iff, total]
    by_cases room : pos + request.maxSize ≤ file.length
    · have all : ((file.drop pos).take request.maxSize).length = request.maxSize := by
        rw [List.length_take, List.length_drop]
        omega
      rw [streamRead_room room, and_iff_right all, ih room, Nat.add_assoc]
    · have left : (file.drop pos).length = file.length - pos := List.length_drop
      rw [streamRead_short inside (by omega)]
      dsimp only
      constructor
      · rintro ⟨all, -⟩
        omega
      · intro fits
        omega

/-- Once the end of the file was met, no bytes come any more. -/
theorem outputs_stopped (stopped : self.fail = true) (requests : List (ReadRequest ν)) :
    ((self.answersToOctetVec requests).map Prod.snd).flatten = [] := by
  induction requests generalizing self with
  | nil => rfl
  | cons request rest ih =>
    have nothing : self.streamRead request.maxSize = ([], { self with fail := true }) := by
      simp [streamRead, stopped]
    rw [answersToOctetVec_cons, nothing, List.map_cons, List.flatten_cons, List.nil_append]
    exact ih rfl

/-- The outputs of `readToOctetVec` make up the file as far as it was requested. -/
theorem outputs_eq_take (inside : pos ≤ file.length) (requests : List (ReadRequest ν)) :
    (((reading file pos).answersToOctetVec requests).map Prod.snd).flatten =
      (file.drop pos).take (requested requests) := by
  induction requests generalizing pos with
  | nil => simp [answersToOctetVec, requested]
  | cons request rest ih =>
    have total : requested (request :: rest) = request.maxSize + requested rest := by simp [requested]
    rw [answersToOctetVec_cons, List.map_cons, List.flatten_cons, total]
    by_cases room : pos + request.maxSize ≤ file.length
    · rw [streamRead_room room, ih room, List.take_add, List.drop_drop]
    · have left : (file.drop pos).length = file.length - pos := List.length_drop
      rw [streamRead_short inside (by omega), outputs_stopped rfl, List.append_nil,
        List.take_of_length_le (by omega)]

/-- Two handlers of the file answer the requests alike, one with `readToString` and the other
with `readToOctetVec`, and what they read is the beginning of the file. -/
def PathsAgree (filename : String) (file : List Octet) (requests : List (ReadRequest ν)) : Prop :=
  ∃ string octets, init filename .input (some file) = .ok string ∧ init filename .input (some file) = .ok octets ∧
    string.answersToString requests = octets.answersToOctetVec requests ∧
    ((string.answersToString requests).map Prod.snd).flatten <+: file

/-- Both handlers begin at the start of the file. -/
theorem pathsAgree_iff_reading (filename : String) (file : List Octet) (requests : List (ReadRequest ν)) :
    PathsAgree filename file requests ↔
      (reading file 0).answersToString requests = (reading file 0).answersToOctetVec requests ∧
        (((reading file 0).answersToString requests).map Prod.snd).flatten <+: file := by
  constructor
  · rintro ⟨string, octets, opened, openedToo, agree⟩
    rw [init_input] at opened openedToo
    cases opened
    cases openedToo
    exact agree
  · intro agree
    exact ⟨_, _, init_input filename file, init_input filename file, agree⟩

/-- The two ways to read agree as long as the requests do not go beyond the end of the file:
`readToString` does not cut its output to what was read. -/
theorem paths_agree_iff (filename : String) (file : List Octet) (requests : List (ReadRequest ν)) :
    PathsAgree filename file requests ↔ (requests.map ReadRequest.maxSize).sum ≤ file.length := by
  have agree := answers_eq_iff (Nat.zero_le file.length) requests
  rw [Nat.zero_add, requested] at agree
  rw [pathsAgree_iff_reading]
  constructor
  · intro paths
    exact agree.mp paths.1
  · intro fits
    have same := agree.mpr fits
    refine ⟨same, ?_⟩
    rw [same, outputs_eq_take (Nat.zero_le _), List.drop_zero]
    exact List.take_prefix _ _

/-- A file of three bytes in two requests. -/
theorem paths_agree_two_requests :
    PathsAgree "log" [1, 2, 3] [(⟨2, [], []⟩ : ReadRequest (List Octet)), ⟨1, [9, 9], [9]⟩] :=
  (paths_agree_iff "log" [1, 2, 3] [(⟨2, [], []⟩ : ReadRequest (List Octet)), ⟨1, [9, 9], [9]⟩]).mpr (by decide)

/-- Three bytes requested of a file of two. -/
theorem readToString_pads :
    ¬ ∀ (filename : String) (file : List Octet) (requests : List (ReadRequest (List Octet))),
      PathsAgree filename file requests := by
  intro claim
  have agree := (pathsAgree_iff_reading "log" [1, 2] [⟨3, [], []⟩]).mp (claim "log" [1, 2] [⟨3, [], []⟩])
  exact absurd agree.1 (by decide)

end FileHander

/-- What was written is read back, followed by what was in `content` where more is requested. -/
theorem readFile_writeFile (filename : String) (found content old : List Octet) (n : Nat) :
    ∃ file, writeFile filename (some found) content = .ok file ∧
      readFile filename (some file) n old =
        .ok (min n content.length, content.take n ++ (old.takeD n 0).drop (min n content.length)) := by
  refine ⟨content, ?_, ?_⟩
  · simp [writeFile, FileHander.init, FileHander.seekg, FileHander.writeFromString, bind, Except.bind, pure, Except.pure]
  · simp [readFile, FileHander.init_input, FileHander.readToString_fst, FileHander.streamRead, FileHander.reading,
      bind, Except.bind, pure, Except.pure]

namespace FileHander

variable {ν : Type*} [OctetVec ν]

/-- A piece of output, for one of the two ways to write it. -/
inductive Piece (ν : Type*)
  | string (out : List Octet)
  | octets (out : ν)

def Piece.bytes : Piece ν → List Octet
  | .string out => out
  | .octets out => OctetVec.octets out

def Piece.write (self : FileHander) : Piece ν → FileHander
  | .string out => self.writeFromString out
  | .octets out => self.writeFromOctetVec out

/-- A handler that has written exactly this. -/
def writing (file : List Octet) : FileHander := ⟨.output, file, file.length, false, false⟩

theorem init_output (filename : String) (found : List Octet) :
    init filename .output (some found) = .ok (writing []) := by
  simp [init, seekg, writing]

theorem write_writing (file : List Octet) (piece : Piece ν) :
    Piece.write (writing file) piece = writing (file ++ piece.bytes) := by
  have beyond (n : Nat) : file.drop (file.length + n) = [] := List.drop_eq_nil_of_le (Nat.le_add_right _ _)
  cases piece with
  | string out => simp [Piece.write, Piece.bytes, writeFromString, writing, beyond]
  | octets out => simp [Piece.write, Piece.bytes, writeFromOctetVec, writeFromString, writing, beyond]

theorem foldl_write (file : List Octet) (pieces : List (Piece ν)) :
    pieces.foldl Piece.write (writing file) = writing (file ++ (pieces.map Piece.bytes).flatten) := by
  induction pieces generalizing file with
  | nil => simp
  | cons piece pieces ih =>
    rw [List.foldl_cons, write_writing, ih, List.map_cons, List.flatten_cons, List.append_assoc]

/-- What `readToString` has read stands at the front of its output. -/
theorem fronts_eq (self : FileHander) (requests : List (ReadRequest ν)) :
    (self.answersToString requests).map (fun answer => answer.2.take answer.1) =
      (self.answersToOctetVec requests).map Prod.snd := by
  induction requests generalizing self with
  | nil => rfl
  | cons request rest ih =>
    rw [answersToString_cons, answersToOctetVec_cons, List.map_cons, List.map_cons, ih, readToString_fst, List.take_left]

/-- What was written is read back: whatever the file held before, and in whatever pieces it is
written through one handler, the requests to another handler of the file, opened when the first is
gone, yield the bytes of the pieces in order, up to what is requested, on both ways to read. -/
theorem written_pieces_read_back (filename : String) (found : List Octet) (pieces : List (Piece ν))
    (requests : List (ReadRequest ν)) :
    ∃ writer reader, init filename .output (some found) = .ok writer ∧
      init filename .input (some (pieces.foldl Piece.write writer).file) = .ok reader ∧
      ((reader.answersToOctetVec requests).map Prod.snd).flatten =
        (pieces.map Piece.bytes).flatten.take (requested requests) ∧
      ((reader.answersToString requests).map fun answer => answer.2.take answer.1).flatten =
        (pieces.map Piece.bytes).flatten.take (requested requests) := by
  have written : (pieces.foldl Piece.write (writing [])).file = (pieces.map Piece.bytes).flatten := by
    rw [foldl_write]
    rfl
  refine ⟨writing [], reading (pieces.map Piece.bytes).flatten 0, init_output filename found, ?_, ?_, ?_⟩
  · rw [written]
    exact init_input filename _
  · rw [outputs_eq_take (Nat.zero_le _), List.drop_zero]
  · rw [fronts_eq, outputs_eq_take (Nat.zero_le _), List.drop_zero]

end FileHander

end ServicesFramework

import Testimony.Daemon.Config
import Testimony.Lib.Decimal
import Testimony.Lib.GoInt
import Testimony.Lib.Words

/-!
# `Testimony.Daemon.Filter`: compiling a filter

`compileFilter` of `socket.go`, from the point where `tcpdump` has printed its text and exited with
status 0. The text is cut into words by a `bufio.Scanner` with `bufio.ScanWords`, each word is
converted by `strconv.Atoi`, and the numbers are made into instructions, four at a time.

The scanner stops at a word that does not fit into its buffer of 64 kB. It has an error then, but
`compileFilter` does not ask for it.
-/

set_option autoImplicit false

namespace Testimony.Daemon

open Lib

/-- What `bufio.ScanWords` takes for a space, in UTF-8. -/
def spaces : List (List UInt8) :=
  [[0x09], [0x0A], [0x0B], [0x0C], [0x0D], [0x20], [0xC2, 0x85], [0xC2, 0xA0], [0xE1, 0x9A, 0x80],
    [0xE2, 0x80, 0x80], [0xE2, 0x80, 0x81], [0xE2, 0x80, 0x82], [0xE2, 0x80, 0x83],
    [0xE2, 0x80, 0x84], [0xE2, 0x80, 0x85], [0xE2, 0x80, 0x86], [0xE2, 0x80, 0x87],
    [0xE2, 0x80, 0x88], [0xE2, 0x80, 0x89], [0xE2, 0x80, 0x8A], [0xE2, 0x80, 0xA8],
    [0xE2, 0x80, 0xA9], [0xE2, 0x80, 0xAF], [0xE2, 0x81, 0x9F], [0xE3, 0x80, 0x80]]

/-- `bufio.MaxScanTokenSize`. -/
def maxScanTokenSize : Nat := 64 * 1024

/-- A word that fits into the buffer, with the space behind it. -/
def fitsBuffer (n : Nat) : Bool := n ≤ maxScanTokenSize

/-- The words the scanner returns. -/
def scanWords (text : List UInt8) : List (List UInt8) := scan spaces fitsBuffer 0 [] text

/-- `strconv.Atoi`. A number out of range is an error. -/
def atoi (token : List UInt8) : Option Int := (parseInt token).filter fun i => IsInt i

/-- The errors of `compileFilter`. -/
inductive FilterError where
  /-- "error scanning token %q: %v" -/
  | token (token : List UInt8)
  /-- "invalid length of tcpdump ints" -/
  | length
  deriving DecidableEq

/-- Why `compileFilter` returns no program. -/
inductive FilterStop where
  | fail (err : FilterError)
  /-- "index out of range" -/
  | panic
  deriving DecidableEq

/-- The loop over the words. -/
def readInts (text : List UInt8) : Except FilterStop (List Int) :=
  (scanWords text).mapM fun token =>
    match atoi token with
    | some i => .ok i
    | none => .error (.fail (.token token))

/-- The loop over the numbers behind the first. -/
def convert : List Int → Except FilterStop (List SockFilter)
  | [] => .ok []
  | code :: jt :: jf :: k :: ints => do
      let bpfs ← convert ints
      return ⟨UInt16.ofInt code, UInt8.ofInt jt, UInt8.ofInt jf, UInt32.ofInt k⟩ :: bpfs
  -- An index past the last number.
  | _ => .error .panic

/-- `len(ints) == ints[0]*4+1` for `ints` with a first element `n`. -/
def Announced (n : Int) (fields : List Int) : Prop :=
  (fields.length : Int) + 1 = addInt (mulInt n 4) 1

/-- The count in the first line is compared with the number of fields. -/
instance (n : Int) (fields : List Int) : Decidable (Announced n fields) :=
  inferInstanceAs (Decidable (_ = _))

/-- `compileFilter`, for the text that `tcpdump` has printed. -/
def compileFilter (text : List UInt8) : Except FilterStop (List SockFilter) := do
  match ← readInts text with
  | [] => throw (.fail .length)
  | n :: fields => if Announced n fields then convert fields else throw (.fail .length)

end Testimony.Daemon

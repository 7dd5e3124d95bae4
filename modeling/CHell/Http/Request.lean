import CHell.Lib.CInt
import CHell.Lib.Memory
import CHell.Lib.Token
import CHell.Lib.Traced

/-!
# The request line, `network/http.c`

| here | there |
| --- | --- |
| `parseHttp`              | `parse_http` (:13-68) |
| `methodField`, `httpField` | its two loops (:26-40, :53-63), with their arrays, limits and return codes |
| `round`, `scan`          | a round of either, and the loop |

Every access to one of the arrays is an event, before it is made; an access outside its array is where the
run goes wrong (`none`), and so is an `i++` beyond `INT_MAX`. A `Frame` is what the locals hold before anything is
assigned to them: `int i,j =0;` initialises `j` only. `path` is declared and not used; output is left out.
-/

namespace CHell.Http

open CInt Memory Token Traced

def MAX_BUF_LEN : Nat := 1024
def MAX_METHOD_LEN : Nat := 10
def MAX_HTTPSTR_LEN : Nat := 12

/-- `' '` -/
def SPACE : UInt8 := 32

/-- `"GET"` -/
def GET : List UInt8 := [71, 69, 84]

inductive Access
  /-- `http_req[i]` is read. -/
  | req (i : Int)
  /-- `method[j]` is written. -/
  | method (j : Nat)
  /-- `http[j]` is written. -/
  | http (j : Nat)
deriving DecidableEq

structure Frame where
  i : Int
  i_int : InInt i
  method : Mem
  method_length : method.length = MAX_METHOD_LEN
  http : Mem
  http_length : http.length = MAX_HTTPSTR_LEN

def readReq (http_req : Mem) (i : Int) : Traced Access UInt8 := do
  emit (.req i)
  lift (if 0 ≤ i then http_req[i.toNat]? else none)

def writeByte (array : Nat → Access) (dst : Mem) (j : Nat) (b : UInt8) : Traced Access Mem := do
  emit (array j)
  lift (store dst j [b])

/-- What a loop copies a field of the request to. -/
structure Field where
  array : Nat → Access
  size : Nat
  /-- The value returned at a NUL, if the loop does not just end there. -/
  atNul : Option Int
  tooLong : Int
  atReq : Int

def methodField : Field where
  array := .method
  size := MAX_METHOD_LEN
  atNul := some (-2)
  tooLong := -3
  atReq := -4

def httpField : Field where
  array := .http
  size := MAX_HTTPSTR_LEN
  atNul := none
  tooLong := -7
  atReq := -8

structure Cursor where
  i : Int
  j : Nat
  dst : Mem
deriving DecidableEq

/-- The loop is left at a NUL, or the function with it. -/
def Field.nul (f : Field) (c : Cursor) : Except Int Cursor :=
  match f.atNul with
  | some code => .error code
  | none => .ok c

/-- One round: the next one (`inl`), the end of the loop (`ok`) or a `return` (`error`). -/
def round (http_req : Mem) (req : Int) (f : Field) (c : Cursor) : Traced Access (Cursor ⊕ Except Int Cursor) := do
  let b ← readReq http_req c.i
  if b = SPACE then pure (.inr (.ok c))
  else do
    let b ← readReq http_req c.i
    if b = 0 then pure (.inr (f.nul c))
    else if f.size - 1 ≤ c.j then pure (.inr (.error f.tooLong))
    else if c.i = req then pure (.inr (.error f.atReq))
    else do
      let b ← readReq http_req c.i
      let dst ← writeByte f.array c.dst c.j b
      let i ← lift (addInt c.i 1)
      pure (.inl ⟨i, c.j + 1, dst⟩)

/-- The loop. The limit on `j` ends it after as many rounds as the array has places. -/
def scan (http_req : Mem) (req : Int) (f : Field) (c : Cursor) : Traced Access (Except Int Cursor) :=
  loop (round http_req req f) f.size c

def parseHttp (http_req : Option Mem) (req : Int) (frame : Frame) : Traced Access Int :=
  match http_req with
  | none => pure (-1)
  | some http_req => do
    match ← scan http_req req methodField ⟨frame.i, 0, frame.method⟩ with
    | .error code => pure code
    | .ok c => do
      let method ← writeByte .method c.dst c.j 0
      -- strcmp(method, "GET")
      let text ← lift (cString method)
      if text ≠ GET then pure (-11)
      else do
        let i ← lift (addInt c.i 1)
        match ← scan http_req req httpField ⟨i, 0, frame.http⟩ with
        | .error code => pure code
        | .ok c => do
          let _ ← writeByte .http c.dst c.j 0
          pure 1

end CHell.Http

import LimitOrderBook.FeedBooks
import Mathlib.Data.List.DropRight

namespace LimitOrderBook.Feed

/-!
# Reading feed bytes

The model of `feed/bytes.hpp`.  An access outside a span is undefined in the
source and a fault of its own here, so that a decoder's safety can be stated:
on no input does it reach one.
-/

abbrev Bytes := List UInt8

/-- A thrown `Error`, or an access that the language leaves undefined. -/
inductive Fault where
  | thrown (what : String)
  | outOfBounds
  deriving DecidableEq

/-- `detail::require`. -/
def require (value : Bool) (message : String) : Except Fault Unit :=
  if value then .ok () else .error (.thrown message)

/-- `b[pos]`. -/
def byteAt (b : Bytes) (pos : Nat) : Except Fault UInt8 :=
  match b[pos]? with
  | some byte => .ok byte
  | none => .error .outOfBounds

/-- `b.subspan(pos, size)`. -/
def subspan (b : Bytes) (pos size : Nat) : Except Fault Bytes :=
  if pos + size ≤ b.length then
    .ok ((b.drop pos).take size)
  else
    .error .outOfBounds

/-- `detail::integer`; eight bytes at most, so that no bit is shifted out. -/
def integer (b : Bytes) (pos size : Nat) (little : Bool) :
    Except Fault Nat := do
  require (size ≤ 8 ∧ pos ≤ b.length ∧ size ≤ b.length - pos)
    "Truncated integer"
  (List.range size).foldlM (fun value i => do
    let byte ← byteAt b (pos + if little then size - 1 - i else i)
    .ok (value * 256 + byte.toNat)) 0

/-- One iteration of the loop over a symbol's bytes. -/
def symbolByte (b : Bytes) (pos : Nat) (result : Text) (i : Nat) :
    Except Fault Text := do
  let byte ← byteAt b (pos + i)
  require (32 ≤ byte ∧ byte ≤ 126) "Non-ASCII symbol"
  .ok (result ++ [byte])

/-- `detail::symbol`. -/
def symbol (b : Bytes) (pos size : Nat) : Except Fault Text := do
  require (pos ≤ b.length ∧ size ≤ b.length - pos) "Truncated symbol"
  let padded ← (List.range size).foldlM (symbolByte b pos) []
  let result := padded.rdropWhile fun byte => decide (byte = 32)
  require (result ≠ [] ∧ result.head? ≠ some 32 ∧ 32 ∉ result)
    "Empty or malformed symbol"
  .ok result

/-- `detail::side`. -/
def side (c : UInt8) : Except Fault Side := do
  require (c = 66 ∨ c = 83) "Invalid order side"
  .ok (if c = 66 then .bid else .ask)

/-! ## No access outside a span -/

/-- A computation that answers or throws, and answers only like this. -/
abbrev Safely {α : Type} (answered : α → Prop) (first : Except Fault α) :
    Prop :=
  Fallible.Ends (fun fault => fault ≠ .outOfBounds) answered first

theorem require_safe
    {value : Bool} {message : String} :
    Safely (fun _ => value = true) (require value message) := by
  cases value with
  | true => exact rfl
  | false => exact Fault.noConfusion

theorem byteAt_safe
    {b : Bytes} {pos : Nat} (inside : pos < b.length) :
    Safely (fun byte => b[pos]? = some byte) (byteAt b pos) := by
  unfold byteAt
  rw [List.getElem?_eq_getElem inside]
  exact rfl

theorem subspan_safe
    {b : Bytes} {pos size : Nat} (inside : pos + size ≤ b.length) :
    Safely (fun m => m = (b.drop pos).take size) (subspan b pos size) := by
  unfold subspan
  rw [if_pos inside]
  exact rfl

end LimitOrderBook.Feed

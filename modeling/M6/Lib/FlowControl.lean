import Mathlib.Data.List.Infix

/-!
# Credit, and the frames it pays for

A sender carries bodies over the streams of one connection, in frames. The receiver says how
large a frame may be, and how many bytes it takes: on each stream, and on the connection as a
whole. It may change its mind about the window that streams start with, and then takes back
what it had granted on the open ones, so that a stream can be overdrawn by no fault of the
sender.

What both sides do is a list of notes. A `Ledger` is what the receiver has granted and got so
far, `Allows` says which note may come next, and `Lawful` that each one of a list may. A sender
is right when everything it writes is lawful, whatever the notes of the receiver in between.
-/

namespace FlowControl

variable {α : Type}

/-- What an onlooker notes on a connection. -/
inductive Note (α : Type) where
  | opened (stream : Nat) (body : List α)
  /-- the receiver names the largest frame it takes -/
  | maxFrame (size : Nat)
  /-- the receiver sets the credit that a stream starts with -/
  | initialWindow (size : Int)
  | connCredit (n : Nat)
  | streamCredit (stream : Nat) (n : Nat)
  /-- the sender writes the frame that begins a stream, perhaps its last -/
  | head (stream : Nat) (size : Nat) (last : Bool)
  /-- the sender writes a piece of a body, perhaps the last frame of its stream -/
  | data (stream : Nat) (payload : List α) (last : Bool)
  /-- the sender writes any other frame -/
  | control (size : Nat)

/-- What is known of a stream. -/
structure Account (α : Type) where
  body : List α
  /-- the bytes of the body that were written -/
  sent : List α
  /-- its last frame was written -/
  ended : Bool
  /-- the credit granted so far, less what was taken back -/
  granted : Int

/-- What is known of a connection. -/
structure Ledger (α : Type) where
  maxFrame : Nat
  initialWindow : Int
  connGranted : Int
  connSent : Nat
  accounts : Nat → Option (Account α)

namespace Ledger

def adjust (L : Ledger α) (s : Nat) (f : Account α → Account α) : Ledger α :=
  { L with accounts := fun t => if t = s then (L.accounts t).map f else L.accounts t }

def record (L : Ledger α) : Note α → Ledger α
  | .opened s body =>
    { L with accounts := fun t =>
        if t = s then some ⟨body, [], false, L.initialWindow⟩ else L.accounts t }
  | .maxFrame size => { L with maxFrame := size }
  | .initialWindow size =>
    { L with
      initialWindow := size
      accounts := fun t => (L.accounts t).map fun a =>
        { a with granted := a.granted + (size - L.initialWindow) } }
  | .connCredit n => { L with connGranted := L.connGranted + n }
  | .streamCredit s n => L.adjust s fun a => { a with granted := a.granted + n }
  | .head s _ last => L.adjust s fun a => { a with ended := last }
  | .data s payload last =>
    { L.adjust s fun a => { a with sent := a.sent ++ payload, ended := last } with
      connSent := L.connSent + payload.length }
  | .control _ => L

def recordAll (L : Ledger α) (notes : List (Note α)) : Ledger α := notes.foldl record L

variable (L : Ledger α)

@[simp] theorem recordAll_nil : L.recordAll [] = L := rfl

@[simp] theorem recordAll_cons (n : Note α) (notes : List (Note α)) :
    L.recordAll (n :: notes) = (L.record n).recordAll notes := rfl

@[simp] theorem recordAll_append (notes more : List (Note α)) :
    L.recordAll (notes ++ more) = (L.recordAll notes).recordAll more := List.foldl_append

/-- A note that may come now. The receiver is free; the sender opens a stream once, writes no
frame that is too large, and of a body only what comes next and is paid for, on the stream and
on the connection. The last frame of a stream is the one that completes its body, be it the
first one, for an empty body. -/
def Allows (L : Ledger α) : Note α → Prop
  | .opened s _ => L.accounts s = none
  | .head s size last =>
    size ≤ L.maxFrame ∧ ∃ a, L.accounts s = some a ∧ a.ended = false ∧ a.sent = [] ∧
      (last = true ↔ a.body = [])
  | .data s payload last =>
    payload.length ≤ L.maxFrame ∧ (L.connSent + payload.length : Int) ≤ L.connGranted ∧
      ∃ a, L.accounts s = some a ∧ a.ended = false ∧ a.sent ++ payload <+: a.body ∧
        (last = true ↔ a.sent ++ payload = a.body) ∧
        (a.sent.length + payload.length : Int) ≤ a.granted
  | .control size => size ≤ L.maxFrame
  | _ => True

def Lawful (L : Ledger α) : List (Note α) → Prop
  | [] => True
  | n :: notes => L.Allows n ∧ (L.record n).Lawful notes

@[simp] theorem lawful_nil : L.Lawful [] := trivial

theorem lawful_append (notes more : List (Note α)) :
    L.Lawful (notes ++ more) ↔ L.Lawful notes ∧ (L.recordAll notes).Lawful more := by
  induction notes generalizing L with
  | nil => simp
  | cons n notes ih =>
    simp only [List.cons_append, Lawful, recordAll_cons, ih, and_assoc]

theorem lawful_of_free {notes : List (Note α)}
    (h : ∀ n ∈ notes, ∀ L : Ledger α, L.Allows n) : L.Lawful notes := by
  induction notes generalizing L with
  | nil => trivial
  | cons n notes ih =>
    exact ⟨h n List.mem_cons_self L,
      ih (L.record n) fun m hm => h m (List.mem_cons_of_mem n hm)⟩

end Ledger

end FlowControl

import Mathlib.Logic.Function.Basic
import Beemu.Lib.Trace

/-!
# Channels that are used in turn

Any number of channels are opened, filled, emptied and closed in any order. Each goes by the calls
on it alone, and what was put into it since it was opened is what was taken out of it, and then
what is still in it.
-/

namespace Channels

open Tracing (Trace)

variable {κ α : Type}

/-- What a call on a channel shows. -/
inductive Event (α : Type) where
  | opened : Event α
  | put : α → Event α
  | took : Option α → Event α
  | looked : Option α → Event α
  | told : Bool → Event α
  | closed : Event α
  deriving DecidableEq, Repr

/-- A call on a channel, which is a first in, first out list while it is open. -/
inductive Turn : Option (List α) → Event α → Option (List α) → Prop where
  | opened : Turn none .opened (some [])
  | put (xs : List α) (x : α) : Turn (some xs) (.put x) (some (xs ++ [x]))
  | took (xs : List α) : Turn (some xs) (.took xs.head?) (some xs.tail)
  | looked (xs : List α) : Turn (some xs) (.looked xs.head?) (some xs)
  | told (xs : List α) : Turn (some xs) (.told xs.isEmpty) (some xs)
  | closed (xs : List α) : Turn (some xs) .closed none

section Many

variable [DecidableEq κ]

/-- A call on one channel of many. -/
def Step (s : κ → Option (List α)) (call : κ × Event α) (s' : κ → Option (List α)) : Prop :=
  ∃ after, Turn (s call.1) call.2 after ∧ s' = Function.update s call.1 after

/-- What the calls on one channel show. -/
def callsOn (k : κ) (calls : List (κ × Event α)) : List (Event α) :=
  (calls.filter fun call => call.1 = k).map Prod.snd

/-- A channel is where the calls on it take it, whatever else is called in between. -/
theorem trace_callsOn {s : κ → Option (List α)} {calls : List (κ × Event α)}
    {states : List (κ → Option (List α))} (h : Trace Step s calls states) (k : κ) :
    ∃ turns, Trace Turn (s k) (callsOn k calls) turns ∧
      turns.getLastD (s k) = states.getLastD s k := by
  induction h with
  | nil s => exact ⟨[], .nil (s k), rfl⟩
  | @cons s s' call calls states hs _ ih =>
    obtain ⟨turns, ht, hl⟩ := ih
    obtain ⟨after, hturn, rfl⟩ := hs
    rw [List.getLastD_cons, callsOn]
    by_cases hk : call.1 = k
    · subst hk
      rw [Function.update_self] at ht hl
      refine ⟨after :: turns, ?_, ?_⟩
      · rw [List.filter_cons_of_pos (by simp), List.map_cons]
        exact .cons hturn ht
      · rw [List.getLastD_cons, hl]
    · rw [Function.update_of_ne (Ne.symm hk)] at ht hl
      refine ⟨turns, ?_, hl⟩
      rw [List.filter_cons_of_neg (by simpa using hk)]
      exact ht

end Many

/-! ## What goes in comes out -/

/-- What was put into a channel and taken out of it since it was opened. -/
structure Ledger (α : Type) where
  put : List α
  taken : List α
  deriving DecidableEq, Repr

def Ledger.note : Option (Ledger α) → Event α → Option (Ledger α)
  | _, .opened => some ⟨[], []⟩
  | some l, .put x => some { l with put := l.put ++ [x] }
  | some l, .took x => some { l with taken := l.taken ++ x.toList }
  | _, .closed => none
  | l, _ => l

def ledger (events : List (Event α)) : Option (Ledger α) := events.foldl Ledger.note none

/-- A channel is open as far as its ledger says so, and holds what was put in and not taken. -/
def Balances : Option (Ledger α) → Option (List α) → Prop
  | some l, some xs => l.put = l.taken ++ xs
  | none, none => True
  | _, _ => False

theorem Balances.turn {l : Option (Ledger α)} {before after : Option (List α)} {e : Event α}
    (h : Balances l before) (ht : Turn before e after) : Balances (Ledger.note l e) after := by
  cases l with
  | none =>
    cases ht with
    | opened => rfl
    | put | took | looked | told | closed => exact h.elim
  | some l =>
    cases ht with
    | opened => exact h.elim
    | put xs x =>
      have hput : l.put ++ [x] = l.taken ++ (xs ++ [x]) := by
        rw [← List.append_assoc]
        exact congrArg (· ++ [x]) h
      exact hput
    | took xs =>
      cases xs with
      | nil => exact h.trans (congrArg (· ++ []) (List.append_nil _).symm)
      | cons x xs => exact h.trans (List.append_assoc l.taken [x] xs).symm
    | looked | told => exact h
    | closed => trivial

theorem Balances.trace {l : Option (Ledger α)} {before : Option (List α)}
    {events : List (Event α)} {turns : List (Option (List α))}
    (ht : Trace Turn before events turns) (h : Balances l before) :
    Balances (events.foldl Ledger.note l) (turns.getLastD before) := by
  induction ht generalizing l with
  | nil s => exact h
  | cons hs _ ih =>
    rw [List.getLastD_cons, List.foldl_cons]
    exact ih (h.turn hs)

/-- From where no channel is open, the ledger of each tells what is in it. -/
theorem ledger_balances [DecidableEq κ] {calls : List (κ × Event α)}
    {states : List (κ → Option (List α))} (h : Trace Step (fun _ => none) calls states) (k : κ) :
    Balances (ledger (callsOn k calls)) (states.getLastD (fun _ => none) k) := by
  obtain ⟨turns, ht, hl⟩ := trace_callsOn h k
  have hb : Balances (ledger (callsOn k calls)) (turns.getLastD none) :=
    Balances.trace ht (l := none) trivial
  rwa [hl] at hb

end Channels

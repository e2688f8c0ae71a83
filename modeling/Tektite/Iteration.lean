import Mathlib.Data.List.Basic

/-!
# Iterators, and how a Go call ends

`BuildSSTable` reads its entries from an `iteration.Iterator` through `IsValid`, `Current` and `Next`. Over one
finite run, all the loop sees of an iterator is the sequence of these answers, so an iterator is that sequence here
(`Iterator`): the entries it hands out (`Iterator.entries`) and the error it ends with, if any (`Iterator.err`).
`Iterator.ofList` is an iterator that reports no error.

A Go call ends with a panic, a returned error, or its results (`Outcome`); errors are their messages.
-/

set_option autoImplicit false

namespace Tektite

/-- `common.KV`: one entry of an iterator. -/
structure KV where
  key : List UInt8
  value : List UInt8
deriving DecidableEq, Repr

/-- An `iteration.Iterator` as the answers it gives, in the order the builder's loop asks for them. -/
inductive Iterator
  /-- `IsValid` answers `false`. -/
  | done
  /-- `IsValid` fails with `err`. -/
  | invalid (err : String)
  /-- `IsValid` answers `true`, `Current` gives `kv`, and `Next` succeeds. -/
  | next (kv : KV) (rest : Iterator)
  /-- `IsValid` answers `true`, `Current` gives `kv`, and `Next` fails with `err`. -/
  | nextFails (kv : KV) (err : String)
deriving DecidableEq, Repr

namespace Iterator

/-- The iterator over `kvs` that reports no error. -/
def ofList : List KV → Iterator
  | [] => done
  | kv :: kvs => next kv (ofList kvs)

/-- The entries the iterator hands out through `Current`. -/
def entries : Iterator → List KV
  | done | invalid _ => []
  | next kv rest => kv :: rest.entries
  | nextFails kv _ => [kv]

/-- The error the iterator ends with. -/
def err : Iterator → Option String
  | done => none
  | invalid e | nextFails _ e => some e
  | next _ rest => rest.err

@[simp] theorem entries_ofList : ∀ kvs : List KV, (ofList kvs).entries = kvs
  | [] => rfl
  | _ :: kvs => congrArg _ (entries_ofList kvs)

@[simp] theorem err_ofList : ∀ kvs : List KV, (ofList kvs).err = none
  | [] => rfl
  | _ :: kvs => err_ofList kvs

end Iterator

/-- How a Go call ends. -/
inductive Outcome (α : Type)
  | panic (msg : String)
  | error (err : String)
  | ok (a : α)
deriving DecidableEq, Repr

namespace Outcome

variable {α β : Type}

/-- Run `f` on the results, passing a panic or an error on. -/
def bind : Outcome α → (α → Outcome β) → Outcome β
  | panic m, _ => panic m
  | error e, _ => error e
  | ok a, f => f a

@[simp] theorem panic_bind (m : String) (f : α → Outcome β) : (panic m).bind f = panic m := rfl
@[simp] theorem error_bind (e : String) (f : α → Outcome β) : (error e).bind f = error e := rfl
@[simp] theorem ok_bind (a : α) (f : α → Outcome β) : (ok a).bind f = f a := rfl

/-- The call panicked. -/
def IsPanic (o : Outcome α) : Prop := ∃ m, o = panic m

/-- The call returned results. -/
def IsOk (o : Outcome α) : Prop := ∃ a, o = ok a

@[simp] theorem isPanic_panic (m : String) : (panic m : Outcome α).IsPanic := ⟨m, rfl⟩
@[simp] theorem not_isPanic_error (e : String) : ¬(error e : Outcome α).IsPanic := by simp [IsPanic]
@[simp] theorem not_isPanic_ok (a : α) : ¬(ok a).IsPanic := by simp [IsPanic]
@[simp] theorem isOk_ok (a : α) : (ok a).IsOk := ⟨a, rfl⟩
@[simp] theorem not_isOk_error (e : String) : ¬(error e : Outcome α).IsOk := by simp [IsOk]
@[simp] theorem not_isOk_panic (m : String) : ¬(panic m : Outcome α).IsOk := by simp [IsOk]

theorem IsPanic.bind {o : Outcome α} (h : o.IsPanic) (f : α → Outcome β) : (o.bind f).IsPanic := by
  obtain ⟨m, rfl⟩ := h; simp

end Outcome

namespace Iterator

/-- How the builder's loop ends on `it` once every entry has passed its checks, with state `a`. -/
def finish {α : Type} (it : Iterator) (a : α) : Outcome α :=
  match it.err with
  | none => .ok a
  | some e => .error e

end Iterator

end Tektite

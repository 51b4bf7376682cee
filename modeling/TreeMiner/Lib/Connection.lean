import Mathlib.Data.List.Basic

/-! A database connection with at most one open transaction. What is written on it is kept
in order: first what is committed, then what the open transaction holds. -/

namespace TreeMiner.Lib

structure Connection (ω : Type*) where
  committed : List ω
  opened : Option (List ω)

namespace Connection

variable {ω : Type*} (c : Connection ω)

/-- What a reader on the connection sees. -/
def view : List ω := c.committed ++ c.opened.getD []

/-- `BEGIN`: refused inside a transaction. -/
def begin : Option (Connection ω) :=
  match c.opened with
  | none => some { c with opened := some [] }
  | some _ => none

/-- The transaction a driver opens by itself in front of a write. -/
def enter : Connection ω := { c with opened := some (c.opened.getD []) }

def write (w : ω) : Connection ω := { c with opened := some (c.opened.getD [] ++ [w]) }

def commit : Connection ω := ⟨c.view, none⟩

/-- `ROLLBACK`: refused outside a transaction. -/
def rollback : Option (Connection ω) :=
  match c.opened with
  | none => none
  | some _ => some { c with opened := none }

@[simp] theorem view_enter : c.enter.view = c.view := rfl

@[simp] theorem view_write (w : ω) : (c.write w).view = c.view ++ [w] :=
  (List.append_assoc _ _ _).symm

@[simp] theorem view_commit : c.commit.view = c.view := List.append_nil _

theorem begin_of_none {c : Connection ω} (h : c.opened = none) :
    c.begin = some { c with opened := some [] } := by
  unfold begin
  rw [h]

theorem rollback_of_some {c : Connection ω} {l : List ω} (h : c.opened = some l) :
    c.rollback = some { c with opened := none } := by
  unfold rollback
  rw [h]

theorem view_of_none {c : Connection ω} (h : c.opened = none) : c.view = c.committed := by
  unfold view
  rw [h]
  exact List.append_nil _

end Connection

end TreeMiner.Lib

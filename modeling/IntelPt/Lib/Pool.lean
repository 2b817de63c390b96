import Mathlib.Tactic.Common

/-! A memory pool: every allocation has an address of its own, and nothing is at an address that
was freed. -/
namespace IntelPt

structure Pool (α : Type*) where
  cells : List (Option α) := []

namespace Pool
variable {α : Type*}

def get (pool : Pool α) (address : Nat) : Option α := pool.cells[address]?.join

def alloc (pool : Pool α) (a : α) : Nat × Pool α :=
  (pool.cells.length, ⟨pool.cells ++ [some a]⟩)

def modify (pool : Pool α) (address : Nat) (f : α → α) : Pool α :=
  ⟨pool.cells.modify address (Option.map f)⟩

def free (pool : Pool α) (address : Nat) : Pool α := ⟨pool.cells.set address none⟩

@[simp] theorem get_alloc (pool : Pool α) (a : α) :
    (pool.alloc a).2.get (pool.alloc a).1 = some a := by
  simp [alloc, get]

@[simp] theorem get_modify (pool : Pool α) (address : Nat) (f : α → α) :
    (pool.modify address f).get address = (pool.get address).map f := by
  cases h : pool.cells[address]? <;> simp [modify, get, h]

@[simp] theorem get_free (pool : Pool α) (address : Nat) :
    (pool.free address).get address = none := by
  by_cases h : address < pool.cells.length <;> simp [free, get, h]

end Pool
end IntelPt

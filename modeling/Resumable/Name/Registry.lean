/-!
# The registry

Names that no function of a compilation may use again. One registry is handed from
allocator to allocator.
-/

namespace Resumable.Name

/-- The registered names, without repetition. -/
structure Registry where
  names : List String
  nodup : names.Nodup := by decide
  deriving DecidableEq, Repr

namespace Registry

instance : EmptyCollection Registry := ⟨{ names := [] }⟩

instance : Inhabited Registry := ⟨{}⟩

def contains (r : Registry) (name : String) : Bool := r.names.contains name

def size (r : Registry) : Nat := r.names.length

def isEmpty (r : Registry) : Bool := r.names.isEmpty

@[simp] theorem contains_eq_true {r : Registry} {name : String} :
    r.contains name = true ↔ name ∈ r.names := by
  rw [contains, List.contains_iff_mem]

/-- Registers a name; the answer tells whether it is new. -/
def register (r : Registry) (name : String) : Bool × Registry :=
  if h : r.contains name then (false, r)
  else
    have nodup : (r.names ++ [name]).Nodup := by
      refine List.nodup_append.2 ⟨r.nodup, by simp, ?_⟩
      rintro a ha b hb rfl
      exact h (contains_eq_true.2 (List.mem_singleton.1 hb ▸ ha))
    (true, { names := r.names ++ [name], nodup })

end Registry

end Resumable.Name

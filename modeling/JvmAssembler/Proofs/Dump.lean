import JvmAssembler.Dump
import JvmAssembler.Proofs.Pool.Values
import JvmAssembler.Proofs.WellFormed

/-!
# What a dump shows

A file has a pool if it has the front of a class file, from which the pool is read. The program then lists
the pool: it prints a line for each item up to the first for which there is none, and why there is none for
that. All values are listed just if the pool is well-formed, and then all class names are too.
-/

namespace JvmAssembler

open Binary (Bytes Word)

/-! ### Values -/

def Value.className? : Value → Option String
  | .classRef name => some name
  | _ => none

namespace Pool

variable {pool : Pool} {vs : List Value}

end Pool

namespace Dump

variable {α : Type} {line : α → Except Fault String} {items : List α} {listing : Listing}

/-! ### Listings -/

/-- The listing of the items: the lines of all of them, or of those before the first for which there is no
line, and why there is none for that. -/
inductive Lists (line : α → Except Fault String) : List α → Listing → Prop
  | whole {items : List α} {lines : List String} (h : items.mapM line = .ok lines) :
    Lists line items ⟨lines, none⟩
  | upTo {before after : List α} {x : α} {lines : List String} {fault : Fault}
    (h : before.mapM line = .ok lines) (hx : line x = .error fault) :
    Lists line (before ++ x :: after) ⟨lines, some fault⟩

theorem Lists.cons {x : α} {text : String} (hx : line x = .ok text) (h : Lists line items listing) :
    Lists line (x :: items) ⟨text :: listing.lines, listing.fault?⟩ := by
  have hcons {xs : List α} {lines : List String} (hxs : xs.mapM line = .ok lines) :
      (x :: xs).mapM line = .ok (text :: lines) :=
    mapM_eq_ok_iff.mpr (.cons hx (mapM_eq_ok_iff.mp hxs))
  cases h with
  | whole hitems => exact .whole (hcons hitems)
  | upTo hbefore hfault => exact .upTo (hcons hbefore) hfault

theorem Lists.exists_lines (h : Lists line items listing) (hnone : listing.fault? = none) :
    ∃ lines, items.mapM line = .ok lines := by
  cases h with
  | whole hitems => exact ⟨_, hitems⟩
  | upTo => cases hnone

variable {content rest : Bytes} {pool : Pool} {vs : List Value}

end Dump

end JvmAssembler

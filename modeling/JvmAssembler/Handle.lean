/-!
# Handles and holders

A handle is the lasting identity of one instruction of a method body, and a holder is the identity of
something that points at instructions by their handles. Both are numbered in order of creation and
are never used twice.
-/

namespace JvmAssembler

structure Handle where
  id : Nat
  deriving DecidableEq, Hashable

structure HolderId where
  id : Nat
  deriving DecidableEq, Hashable

instance : Ord Handle := ⟨compareOn Handle.id⟩

instance : Ord HolderId := ⟨compareOn HolderId.id⟩

instance : Std.TransOrd Handle := inferInstanceAs (Std.TransCmp (compareOn Handle.id))

instance : Std.TransOrd HolderId := inferInstanceAs (Std.TransCmp (compareOn HolderId.id))

instance : Std.LawfulEqOrd Handle where
  eq_of_compare {a b} h := by
    have h : compare a.id b.id = .eq := h
    exact congrArg Handle.mk (Std.LawfulEqOrd.eq_of_compare h)

instance : Std.LawfulEqOrd HolderId where
  eq_of_compare {a b} h := by
    have h : compare a.id b.id = .eq := h
    exact congrArg HolderId.mk (Std.LawfulEqOrd.eq_of_compare h)

def Handle.render (h : Handle) : String := "ih" ++ toString h.id

def HolderId.render (t : HolderId) : String := "t" ++ toString t.id

end JvmAssembler

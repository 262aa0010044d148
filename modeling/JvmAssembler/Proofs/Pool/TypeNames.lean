import JvmAssembler.Proofs.Pool.Loadable

/-!
# Types and what they are called

Descriptors tell types apart, alone and written one after the other, and so do the names that reference
types have in class constants. Since a pool that has a name keeps it at its first index, and likewise the
class of that name, two reference types share a class constant just if they are the same type.
-/

namespace JvmAssembler

namespace Pool

variable {cs : List Constant} {pool pool' : Pool}

/-- A class that has been interned for a type stands for what the type is called. -/
theorem Built.internRefType_granted (h : pool.Built cs) {type : RefType} {r : Ref .classRef}
    (hok : internRefType type pool = .ok r pool') :
    Granted (internNamed .classRef type.constantName) (.classRef type.constantName) pool r.index
      pool' := by
  rw [internRefType, internClassNamed_eq] at hok
  obtain ⟨i, hi, rfl⟩ := exists_of_map_ok hok
  exact h.internNamed_granted (fun _ _ => rfl) hi

/-- No descriptor is the same as that of another type or the start of it, and descriptors that are written
one after the other can be told apart again. Every dimension of an array adds a bracket in front. The
names of reference types in class constants differ as well, and so do the constants of different
types, whatever has been asked of the pool. -/
theorem session_tells_types_apart :
    Function.Injective FieldType.descriptor ∧
      (∀ t u : FieldType, t.descriptor.toList <+: u.descriptor.toList → t = u) ∧
      (Function.Injective fun ts : List FieldType => String.join (ts.map FieldType.descriptor)) ∧
      (∀ (n : Nat) (t : FieldType), (FieldType.array^[n] t).descriptor =
        String.ofList (List.replicate n '[') ++ t.descriptor) ∧
      Function.Injective RefType.constantName ∧
      ∀ (start : Pool) (before between : List Request) (t u : RefType) (r s : Ref .classRef)
        (p q : Pool), Origin start → internRefType t (performAll perform before start).2 = .ok r p →
        internRefType u (performAll perform between p).2 = .ok s q →
        (r = s ↔ t = u) ∧ q.Resolves r.index (.classRef t.constantName) ∧
          q.Resolves s.index (.classRef u.constantName) := by
  refine ⟨FieldType.descriptor_injective, fun _ _ => FieldType.eq_of_prefix,
    FieldType.join_descriptor_injective, fun n t => ?_, fun _ _ => RefType.constantName_injective, ?_⟩
  · apply String.toList_injective
    rw [FieldType.toList_descriptor_iterate_array, String.toList_append, String.toList_ofList]
  · intro start before between t u r s p q hstart ht hu
    obtain ⟨cs, hcs⟩ := session_built hstart before
    have hfirst := hcs.internRefType_granted ht
    have hbetween := performAll_extends between hfirst.extends_pool.right
    obtain ⟨ds, hds⟩ := hbetween.built
    have hsecond := hds.internRefType_granted hu
    have hfound := (hfirst.resolves.mono hbetween).mono hsecond.extends_pool
    refine ⟨⟨?_, ?_⟩, hfound, hsecond.resolves⟩
    · rintro rfl
      have hvalue := Except.ok.inj (hfound.symm.trans hsecond.resolves)
      exact RefType.constantName_injective (Entry.classRef.inj hvalue)
    · rintro rfl
      have hstanding : Standing (internRefType t) r p := by
        rw [internRefType, internClassNamed_eq]
        exact hfirst.standing.map (Ref.mk : UInt16 → Ref .classRef)
      cases (hstanding _ hbetween).symm.trans hu
      rfl

/-- A class, and then the arrays of it, whose descriptor has been interned as a string before. -/
theorem session_tells_types_apart_of_array :
    let t : RefType := .object .string
    let u : RefType := .objectArray .string 0
    let p := ofConstants [.utf8 "java/lang/String", .classRef ⟨1⟩]
    let q := ofConstants [.utf8 "java/lang/String", .classRef ⟨1⟩, .utf8 "[Ljava/lang/String;",
      .classRef ⟨3⟩]
    internRefType t ∅ = .ok ⟨2⟩ p ∧
      internRefType u (performAll perform [.utf8 "[Ljava/lang/String;"] p).2 = .ok ⟨4⟩ q ∧
      ((⟨2⟩ : Ref .classRef) = ⟨4⟩ ↔ t = u) ∧ q.Resolves 2 (.classRef "java/lang/String") ∧
      q.Resolves 4 (.classRef "[Ljava/lang/String;") ∧
      (FieldType.ref u).descriptor.toList <+: (FieldType.array (.ref t)).descriptor.toList ∧
      FieldType.ref u = FieldType.array (.ref t) := by
  intro t u p q
  have hclass : internRefType t ∅ = .ok ⟨2⟩ p := internBinaryName_empty .string
  have hbetween : (performAll perform [.utf8 "[Ljava/lang/String;"] p).2 =
      ofConstants [.utf8 "java/lang/String", .classRef ⟨1⟩, .utf8 "[Ljava/lang/String;"] := by
    have htext : perform (.utf8 "[Ljava/lang/String;") p = .ok 3 (ofConstants _) :=
      map_of_ok _ (map_of_ok _ (intern_ofConstants (by decide) (by decide)))
    rw [performAll_cons, outcome_of_ok htext]
    rfl
  have harray : internRefType u (performAll perform [.utf8 "[Ljava/lang/String;"] p).2 =
      .ok ⟨4⟩ q := by
    have hutf8 : intern (.utf8 "[Ljava/lang/String;") (performAll perform [.utf8 _] p).2 = .ok 3 _ :=
      intern_of_some (by rw [hbetween, firstIndex_ofConstants (by decide)]; rfl)
    rw [internRefType, internClassNamed_eq]
    refine map_of_ok _ ((internNamed_of_utf8 hutf8).trans ?_)
    rw [hbetween]
    exact intern_ofConstants (by decide) (by decide)
  have hprefix :
      (FieldType.ref u).descriptor.toList <+: (FieldType.array (.ref t)).descriptor.toList := by
    decide
  obtain ⟨-, hends, -, -, -, hsession⟩ := session_tells_types_apart
  obtain ⟨hiff, hfound, hfound'⟩ :=
    hsession ∅ [] [.utf8 "[Ljava/lang/String;"] t u _ _ p q .empty hclass harray
  exact ⟨hclass, harray, hiff, hfound, hfound', hprefix, hends _ _ hprefix⟩

end Pool

end JvmAssembler

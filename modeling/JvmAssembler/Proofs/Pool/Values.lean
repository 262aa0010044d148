import JvmAssembler.Proofs.Pool.Loadable
import Mathlib.Algebra.Order.BigOperators.Group.Finset

/-!
# The values of a pool

What the constants of a pool stand for. Requests that bring no reference along ask for values rather than
for constants, and a pool that starts without constants and is only asked for values comes to have one
constant for each value that it needs. Which values these are, and whether there is room for them, does
not depend on the order of the requests. The indices do, and with them the constants that refer to
others.
-/

namespace JvmAssembler

variable {ρ σ ε : Type}

/-! ### Entries that stand for one another -/

/-- The entries are the same except for their references, of which the first leads to the second. -/
inductive Entry.Related (R : ρ → σ → Prop) : Entry ρ → Entry σ → Prop
  | utf8 (text : String) : Related R (.utf8 text) (.utf8 text)
  | integer (value : Int32) : Related R (.integer value) (.integer value)
  | float (value : Binary.Float32Bits) : Related R (.float value) (.float value)
  | long (value : Int64) : Related R (.long value) (.long value)
  | double (value : Binary.Float64Bits) : Related R (.double value) (.double value)
  | classRef {r : ρ} {s : σ} (h : R r s) : Related R (.classRef r) (.classRef s)
  | stringRef {r : ρ} {s : σ} (h : R r s) : Related R (.stringRef r) (.stringRef s)
  | nameAndType {r r' : ρ} {s s' : σ} (h : R r s) (h' : R r' s') :
    Related R (.nameAndType r r') (.nameAndType s s')

theorem Entry.related_of_follow {step : ρ → Except ε σ} {c : Entry ρ} {v : Entry σ}
    (h : c.follow step = .ok v) : c.Related (fun r s => step r = .ok s) v := by
  cases c with
  | utf8 text => cases h; exact .utf8 text
  | integer value => cases h; exact .integer value
  | float value => cases h; exact .float value
  | long value => cases h; exact .long value
  | double value => cases h; exact .double value
  | classRef name =>
    obtain ⟨s, hs, h⟩ := ok_of_bind h
    cases h
    exact .classRef hs
  | stringRef text =>
    obtain ⟨s, hs, h⟩ := ok_of_bind h
    cases h
    exact .stringRef hs
  | nameAndType name descriptor =>
    obtain ⟨s, hs, h⟩ := ok_of_bind h
    obtain ⟨t, ht, h⟩ := ok_of_bind h
    cases h
    exact .nameAndType hs ht

theorem Entry.Related.slots_eq {R : ρ → σ → Prop} {c : Entry ρ} {v : Entry σ} (h : c.Related R v) :
    c.slots = v.slots := by
  cases h <;> rfl

theorem Entry.Related.unique {R : ρ → σ → Prop} (hR : ∀ r r' s, R r s → R r' s → r = r')
    {c d : Entry ρ} {v : Entry σ} (hc : c.Related R v) (hd : d.Related R v) : c = d := by
  cases hc with
  | classRef hr =>
    cases hd with
    | classRef hr' => rw [hR _ _ _ hr hr']
  | stringRef hr =>
    cases hd with
    | stringRef hr' => rw [hR _ _ _ hr hr']
  | nameAndType hr hs =>
    cases hd with
    | nameAndType hr' hs' => rw [hR _ _ _ hr hr', hR _ _ _ hs hs']
  | _ => cases hd; rfl

namespace Pool

variable {c d : Constant} {cs : List Constant} {pool pool' : Pool} {v : Value}

def values (pool : Pool) : Except Fault (List Value) :=
  pool.toList.mapM fun p => pool.resolve p.2

/-! ### Values in stock -/

theorem Built.size_eq (h : pool.Built cs) : pool.size = cs.length := by
  rw [← map_snd_placedFrom 1 cs, ← h.toList_eq, List.length_map, size, SlotSeq.size, SlotSeq.toList,
    Array.length_toList]

/-- In a pool without duplicates no two constants stand for the same value. -/
theorem Built.resolve_biUnique (h : pool.Built cs) (hnd : cs.Nodup) :
    Relator.BiUnique fun c v => pool.resolve c = .ok v := by
  refine ⟨fun c d v hc hd => ?_, fun _ _ _ hv hw => Except.ok.inj (hv.symm.trans hw)⟩
  refine (Entry.related_of_follow hc).unique (fun r r' text hr hr' => ?_) (Entry.related_of_follow hd)
  rw [utf8At_eq_ok_iff, h.get_eq_ok_iff] at hr hr'
  rw [← map_snd_placedFrom 1 cs] at hnd
  have hsame := List.inj_on_of_nodup_map hnd hr hr' rfl
  exact congrArg Ref.mk (UInt16.toNat_inj.mp (congrArg Prod.fst hsame))

/-- The pool has one constant for each of these values, and no others. -/
def Stocks (pool : Pool) (stock : Finset Value) : Prop :=
  ∃ cs vs, pool.Built cs ∧ cs.Nodup ∧ List.Forall₂ (fun c v => pool.resolve c = .ok v) cs vs ∧
    vs.toFinset = stock

/-- The values have room in a pool that has nothing else. -/
def Fits (stock : Finset Value) : Prop := 1 + ∑ v ∈ stock, v.slots ≤ 65535

instance (stock : Finset Value) : Decidable (Fits stock) := Nat.decLe _ _

theorem Fits.mono {stock stock' : Finset Value} (h : Fits stock') (hsub : stock ⊆ stock') :
    Fits stock := by
  have hle := Finset.sum_le_sum_of_subset (f := fun v : Value => v.slots) hsub
  unfold Fits at h ⊢
  omega

variable {stock : Finset Value}

theorem Stocks.built (h : pool.Stocks stock) : ∃ cs, pool.Built cs := by
  obtain ⟨cs, -, hcs, -⟩ := h
  exact ⟨cs, hcs⟩

theorem stocks_empty : (∅ : Pool).Stocks ∅ :=
  ⟨[], [], built_empty, List.nodup_nil, .nil, rfl⟩

/-- What the pool has can be told from its values, and except for their order the values from that. -/
theorem Stocks.told (h : pool.Stocks stock) :
    pool.size = stock.card ∧ pool.next = 1 + ∑ v ∈ stock, v.slots ∧
      ∃ vs, pool.values = .ok vs ∧ vs.Nodup ∧ vs.toFinset = stock := by
  obtain ⟨cs, vs, hcs, hnd, hvs, rfl⟩ := h
  have hnodup : vs.Nodup := (List.rel_nodup (hcs.resolve_biUnique hnd) hvs).mp hnd
  have hslots : cs.map Entry.slots = vs.map Entry.slots := by
    rw [← List.forall₂_eq_eq_eq, List.forall₂_map_left_iff, List.forall₂_map_right_iff]
    exact hvs.imp fun _ _ hv => (Entry.related_of_follow hv).slots_eq
  refine ⟨?_, ?_, vs, ?_, hnodup, rfl⟩
  · rw [hcs.size_eq, hvs.length_eq, List.toFinset_card_of_nodup hnodup]
  · rw [hcs.next_eq, List.sum_toFinset _ hnodup, slotsOf, hslots]
  · rw [values, mapM_eq_ok_iff]
    rwa [← hcs.map_snd_toList, List.forall₂_map_left_iff] at hvs

theorem Stocks.fits (h : pool.Stocks stock) : Fits stock := by
  have hnext := h.told.2.1
  obtain ⟨cs, hcs⟩ := h.built
  rw [Fits, ← hnext, hcs.next_eq]
  exact hcs.2

/-! ### Asking for values -/

/-- Interning a constant puts what it stands for into stock, unless there is no room for that. -/
theorem Stocks.intern (h : pool.Stocks stock) (hc : pool.resolve c = .ok v) :
    Surely (Pool.intern c) pool (fun _ pool' => pool'.Stocks (insert v stock)) ∨
      ¬Fits (insert v stock) ∧ ∃ fault, Pool.intern c pool = .error fault pool := by
  have hnext := h.told.2.1
  have hstock := h
  obtain ⟨cs, vs, hcs, hnd, hvs, rfl⟩ := h
  have hmem : c ∈ cs ↔ v ∈ vs := List.rel_mem (hcs.resolve_biUnique hnd) hc hvs
  cases hfirst : pool.firstIndex[c]? with
  | some i =>
    have hold : c ∈ cs := by
      by_contra hnew
      rw [hcs.firstIndex_eq_none_iff.mpr hnew] at hfirst
      cases hfirst
    refine .inl ⟨i, pool, intern_of_some hfirst, ?_⟩
    rwa [Finset.insert_eq_of_mem (List.mem_toFinset.mpr (hmem.mp hold))]
  | none =>
    have hnew : c ∉ cs := hcs.firstIndex_eq_none_iff.mp hfirst
    by_cases hfits : 1 + slotsOf cs + c.slots ≤ 65535
    · have hbuilt : (ofConstants (cs ++ [c])).Built (cs ++ [c]) :=
        ⟨rfl, by rw [slotsOf_append, slotsOf_cons, slotsOf_nil]; omega⟩
      have hext : Extends pool (ofConstants (cs ++ [c])) := ⟨cs, [c], hcs, hbuilt⟩
      have hall : List.Forall₂ (fun d w => pool.resolve d = .ok w) (cs ++ [c]) (vs ++ [v]) :=
        List.rel_append hvs (.cons hc .nil)
      refine .inl ⟨_, _, hcs.intern_new hnew hfits, _, _, hbuilt, ?_, hall.imp ?_, ?_⟩
      · exact (List.perm_append_singleton c cs).nodup_iff.mpr (List.nodup_cons.mpr ⟨hnew, hnd⟩)
      · exact fun _ _ => hext.retains.resolve _ _
      · simp
    · have hfull : 65535 < pool.next + c.slots := by rw [hcs.next_eq]; omega
      have hlack : v ∉ vs.toFinset := fun hv => hnew (hmem.mpr (List.mem_toFinset.mp hv))
      refine .inr ⟨?_, _, (intern_of_none hfirst).trans (append_of_full hcs.next_le hfull)⟩
      rw [Fits, Finset.sum_insert hlack, ← (Entry.related_of_follow hc).slots_eq]
      omega

/-- The computation is granted if there is room for these values beside those in stock, and puts them
there. -/
def Supplies {α : Type} (act : PoolM α) (needs : Finset Value) : Prop :=
  ∀ pool stock, Stocks pool stock →
    Surely act pool (fun _ pool' => pool'.Stocks (stock ∪ needs)) ∨
      ¬Fits (stock ∪ needs) ∧ ∃ fault pool', act pool = .error fault pool'

theorem Supplies.map {α β : Type} {act : PoolM α} {needs : Finset Value} (h : Supplies act needs)
    (f : α → β) : Supplies (f <$> act) needs := by
  intro pool stock hstock
  rcases h pool stock hstock with hok | ⟨hfull, fault, pool', herror⟩
  · exact .inl hok.map
  · exact .inr ⟨hfull, fault, pool', map_of_error f herror⟩

/-- What a value needs: itself, and the strings that it is made of. -/
def needsOf (v : Value) : Finset Value := insert v (v.refs.map Entry.utf8).toFinset

theorem supplies_plain (hc : ∀ pool : Pool, pool.resolve c = .ok v) (hv : v.refs = []) :
    Supplies (Pool.intern c) (needsOf v) := by
  intro pool stock hstock
  have hneeds : stock ∪ needsOf v = insert v stock := by
    simp [needsOf, hv]
  rw [hneeds]
  rcases hstock.intern (hc pool) with hok | ⟨hfull, fault, herror⟩
  · exact .inl hok
  · exact .inr ⟨hfull, fault, pool, herror⟩

/-- The string goes into stock first. If there is no room for it, there is none for both. -/
theorem supplies_named {make : Ref .utf8 → Constant} {value : String → Value}
    (hmake : ∀ (u : Ref .utf8) (q : Pool), q.resolve (make u) = value <$> q.utf8At u)
    (hrefs : ∀ text, (value text).refs = [text]) (text : String) :
    Supplies (internNamed make text) (needsOf (value text)) := by
  intro pool stock hstock
  have hneeds : stock ∪ needsOf (value text) = insert (value text) (insert (.utf8 text) stock) := by
    simp [needsOf, hrefs]
  rw [hneeds]
  obtain ⟨cs, hcs⟩ := hstock.built
  rcases hstock.intern (c := .utf8 text) (v := .utf8 text) rfl with
    ⟨i, middle, hutf8, hmiddle⟩ | ⟨hfull, fault, herror⟩
  · have htext := (hcs.internUtf8_ok (map_of_ok Ref.mk hutf8)).2.2
    rw [Surely, internNamed_of_utf8 hutf8]
    rcases hmiddle.intern (c := make ⟨i⟩) (v := value text) (by rw [hmake, htext]; rfl) with
      hok | ⟨hfull, fault, herror⟩
    · exact .inl hok
    · exact .inr ⟨hfull, fault, middle, herror⟩
  · refine .inr ⟨fun hfits => hfull (hfits.mono (Finset.subset_insert _ _)), fault, pool, ?_⟩
    exact bind_of_error (map_of_error Ref.mk herror)

/-! ### Requests -/

/-- The value that a request asks for, if it brings no reference along. -/
def Request.value? : Request → Option Value
  | .utf8 text => some (.utf8 text)
  | .binaryName name => some (.classRef name.text)
  | .refType type => some (.classRef type.constantName)
  | .loadable value => some value.value
  | .localTable _ => some (.utf8 localTableName)
  | .classRef _ | .stringRef _ | .nameAndType _ _ => none

theorem Request.exists_value? {r : Request} (h : r.given = none) : ∃ v, r.value? = some v := by
  cases r <;> first | exact ⟨_, rfl⟩ | cases h

theorem internClassNamed_supplies (name : String) :
    Supplies (internClassNamed name) (needsOf (.classRef name)) := by
  rw [internClassNamed_eq]
  exact (supplies_named (fun _ _ => rfl) (fun _ => rfl) name).map Ref.mk

theorem internLoadable_supplies (value : Loadable) :
    Supplies (internLoadable value) (needsOf value.value) := by
  cases value with
  | string text =>
    rw [internLoadable_string]
    exact supplies_named (fun _ _ => rfl) (fun _ => rfl) text
  | classOf type =>
    rw [internLoadable_classOf]
    exact supplies_named (fun _ _ => rfl) (fun _ => rfl) type.constantName
  | integer value => exact supplies_plain (fun _ => rfl) rfl
  | float value => exact supplies_plain (fun _ => rfl) rfl
  | long value => exact supplies_plain (fun _ => rfl) rfl
  | double value => exact supplies_plain (fun _ => rfl) rfl

theorem perform_supplies {r : Request} (h : r.value? = some v) :
    Supplies (perform r) (needsOf v) := by
  have hutf8 (text : String) : Supplies (internUtf8 text) (needsOf (.utf8 text)) :=
    (supplies_plain (fun _ => rfl) rfl).map Ref.mk
  cases r with
  | utf8 text => cases h; exact (hutf8 text).map _
  | classRef name => cases h
  | stringRef text => cases h
  | nameAndType name descriptor => cases h
  | binaryName name => cases h; exact (internClassNamed_supplies name.text).map _
  | refType type => cases h; exact (internClassNamed_supplies type.constantName).map _
  | loadable value => cases h; exact internLoadable_supplies value
  | localTable table =>
    cases h
    have hname := (hutf8 localTableName).map fun name =>
      (⟨name, Binary.encodeCounted LocalRecord.encode table⟩ : Attribute)
    exact hname.map (·.name.index)

/-- All that a sequence of requests needs. -/
def needsOfAll (requests : List Request) : Finset Value :=
  (requests.filterMap Request.value?).toFinset.biUnion needsOf

theorem needsOfAll_cons {r : Request} (h : r.value? = some v) (requests : List Request) :
    needsOfAll (r :: requests) = needsOf v ∪ needsOfAll requests := by
  rw [needsOfAll, List.filterMap_cons_some h, List.toFinset_cons, Finset.biUnion_insert]
  rfl

theorem needsOfAll_perm {requests requests' : List Request} (h : requests.Perm requests') :
    needsOfAll requests = needsOfAll requests' := by
  rw [needsOfAll, List.toFinset_eq_of_perm _ _ (h.filterMap _)]
  rfl

/-- Either all requests are granted, and what they need is in stock in the end, or there is no room for
it. -/
theorem performAll_supplies (requests : List Request) (hgiven : ∀ r ∈ requests, r.given = none)
    (h : pool.Stocks stock) :
    (∀ a ∈ (performAll perform requests pool).1, a.isOk) ∧
        (performAll perform requests pool).2.Stocks (stock ∪ needsOfAll requests) ∨
      ¬(∀ a ∈ (performAll perform requests pool).1, a.isOk) ∧
        ¬Fits (stock ∪ needsOfAll requests) := by
  induction requests generalizing pool stock with
  | nil =>
    have hnone : stock ∪ needsOfAll [] = stock := Finset.union_empty stock
    exact .inl ⟨nofun, by rwa [hnone]⟩
  | cons r requests ih =>
    rw [List.forall_mem_cons] at hgiven
    obtain ⟨v, hv⟩ := Request.exists_value? hgiven.1
    rw [needsOfAll_cons hv, ← Finset.union_assoc, performAll_cons, List.forall_mem_cons]
    rcases perform_supplies hv pool stock h with
      ⟨i, pool', hok, hpool'⟩ | ⟨hfull, fault, pool', herror⟩
    · rw [outcome_of_ok hok]
      simpa [Except.isOk, Except.toBool] using ih hgiven.2 hpool'
    · rw [outcome_of_error herror]
      refine .inr ⟨fun hall => absurd hall.1 Bool.false_ne_true, fun hfits => hfull ?_⟩
      exact hfits.mono Finset.subset_union_left

/-- Whether a pool that starts without constants grants all requests that bring no references along does
not depend on their order. If it does, neither do the number of its constants, its next index, and what
its constants stand for except for their order. -/
theorem session_any_order {requests requests' : List Request} (hperm : requests.Perm requests')
    (hgiven : ∀ r ∈ requests, r.given = none) :
    let (answers, pool) := performAll perform requests ∅
    let (answers', pool') := performAll perform requests' ∅
    ((∀ a ∈ answers, a.isOk) ↔ ∀ a ∈ answers', a.isOk) ∧
      ((∀ a ∈ answers, a.isOk) → pool.size = pool'.size ∧ pool.next = pool'.next ∧
        ∃ vs vs', pool.values = .ok vs ∧ pool'.values = .ok vs' ∧ vs.Perm vs') := by
  dsimp only
  have hgiven' : ∀ r ∈ requests', r.given = none := fun r hr => hgiven r (hperm.mem_iff.mpr hr)
  have hend := performAll_supplies requests hgiven stocks_empty
  have hend' := performAll_supplies requests' hgiven' stocks_empty
  rw [← needsOfAll_perm hperm] at hend'
  rcases hend with ⟨hall, hstock⟩ | ⟨hnot, hfull⟩
  · obtain ⟨hall', hstock'⟩ := hend'.resolve_right fun hno => hno.2 hstock.fits
    obtain ⟨hsize, hnext, vs, hvs, hnd, hset⟩ := hstock.told
    obtain ⟨hsize', hnext', vs', hvs', hnd', hset'⟩ := hstock'.told
    refine ⟨iff_of_true hall hall', fun _ => ⟨hsize.trans hsize'.symm, hnext.trans hnext'.symm, ?_⟩⟩
    have hvalues : vs.Perm vs' :=
      List.perm_of_nodup_nodup_toFinset_eq hnd hnd' (hset.trans hset'.symm)
    exact ⟨vs, vs', hvs, hvs', hvalues⟩
  · have hnot' := (hend'.resolve_left fun hyes => hfull hyes.2.fits).1
    exact ⟨iff_of_false hnot hnot', fun hall => absurd hall hnot⟩

/-- A class and a string that share their text, and a number that takes two indices. -/
theorem session_any_order_shared :
    let requests : List Request :=
      [.loadable (.string "A"), .binaryName ⟨"A", by decide⟩, .loadable (.long 7)]
    let requests' : List Request :=
      [.binaryName ⟨"A", by decide⟩, .loadable (.long 7), .loadable (.string "A")]
    let (answers, pool) := performAll perform requests ∅
    let (answers', pool') := performAll perform requests' ∅
    requests.Perm requests' ∧ (∀ r ∈ requests, r.given = none) ∧
      (∀ a ∈ answers, a.isOk) ∧ (∀ a ∈ answers', a.isOk) ∧
      pool.size = 4 ∧ pool'.size = 4 ∧ pool.next = pool'.next ∧
      ∃ vs vs', pool.values = .ok vs ∧ pool'.values = .ok vs' ∧ vs.Perm vs' := by
  intro requests requests'
  dsimp only
  have hperm : requests.Perm requests' := (List.perm_append_singleton _ _).symm
  have hgiven : ∀ r ∈ requests, r.given = none := by
    simp [requests, Request.given]
  have hneeds : ∅ ∪ needsOfAll requests =
      {.utf8 "A", .stringRef "A", .classRef "A", .long 7} := by decide
  have hfits : Fits (∅ ∪ needsOfAll requests) := by
    rw [hneeds]
    decide
  obtain ⟨hall, hstock⟩ :=
    (performAll_supplies requests hgiven stocks_empty).resolve_right fun hno => hno.2 hfits
  rw [hneeds] at hstock
  obtain ⟨hiff, hsame⟩ := session_any_order hperm hgiven
  obtain ⟨hsize, hnext, hvalues⟩ := hsame hall
  exact ⟨hperm, hgiven, hall, hiff.mp hall, hstock.told.1, hsize ▸ hstock.told.1, hnext, hvalues⟩

end Pool

end JvmAssembler
